import Swarmotter.Utp.Frame

open trial (Keeps Leads EndsIn)

namespace swarmotter.utp

/-! The sending side. The stream is cut into chunks, of which chunk `i` has the sequence number `2 + i`
for good. -/

theorem length_add_held (ack : UInt16) (state : Vec UInt32 × Bool) (seq : UInt16) :
    (Sack.add_held ack state seq).1.length = state.1.length := by
  unfold Sack.add_held
  dsimp only
  split
  · rfl
  · split
    · simp
    · rfl

theorem length_from_held (ack : UInt16) (held : Vec (UInt16 × Bytes)) :
    (Sack.from_held ack held).words.length ≤ max_words := by
  have hfold : ∀ state : Vec UInt32 × Bool,
      (held.foldl (fun state entry => Sack.add_held ack state entry.1) state).1.length = state.1.length := by
    intro state
    induction held generalizing state with
    | nil => rfl
    | cons entry held ih => rw [List.foldl_cons, ih, length_add_held]
  unfold Sack.from_held
  dsimp only
  split
  · have htrim := (List.dropWhile_sublist (· == 0) (l := (held.foldl
      (fun state entry => Sack.add_held ack state entry.1) (List.replicate max_words 0, false)).1.reverse)).length_le
    rw [List.length_reverse, hfold, List.length_replicate] at htrim
    rwa [List.length_reverse]
  · simp

theorem length_ack_extensions (conn : UtpConnection) : (encode_extensions conn.ack_extensions).length ≤ 34 := by
  have hwords := length_from_held (serial.wrap conn.ack_number) conn.ooo
  unfold UtpConnection.ack_extensions
  dsimp only
  split
  · simp [encode_extensions]
  · simp only [encode_extensions, Sack.encode_data, List.append_nil, List.length_cons, List.length_flatMap,
      endian.length_to_le, List.map_const', List.sum_replicate_nat]
    unfold max_words at hwords
    omega

variable {header : UtpHeader} {extensions : Vec UtpExtension} {payload packet : Bytes}

/-- A packet with a payload that is not too long is understood. -/
theorem decode_take_of_encode (hversion : header.version = UTP_VERSION)
    (hencode : header.encode_with_extensions extensions payload = .ok packet)
    (hextensions : (encode_extensions extensions).length ≤ 34) (hpayload : payload.length ≤ MAX_PAYLOAD) :
    UtpHeader.decode_with_extensions (packet.take 2048) =
      .ok ({ header with extension := first_kind extensions }, extensions, payload) := by
  have hroundtrip := decode_encode_with_extensions hversion hencode
  simp only [UtpHeader.encode_with_extensions, bind_eq_ok_iff, Except.ok.injEq] at hencode
  obtain ⟨total, -, rfl⟩ := hencode
  rw [List.take_of_length_le, hroundtrip]
  rw [List.length_append, List.length_append, encode_prefix_length rfl, UtpHeader.SIZE]
  unfold MAX_PAYLOAD at hpayload
  omega

/-- It is understood as it was meant. -/
theorem decode_of_encode {header' : UtpHeader} {extensions' : Vec UtpExtension} {payload' : Bytes}
    (hversion : header.version = UTP_VERSION)
    (hencode : header.encode_with_extensions extensions payload = .ok packet)
    (hextensions : (encode_extensions extensions).length ≤ 34) (hpayload : payload.length ≤ MAX_PAYLOAD)
    (hdecode : UtpHeader.decode_with_extensions (packet.take 2048) = .ok (header', extensions', payload')) :
    header'.typ = header.typ ∧ header'.seq_number = header.seq_number ∧ payload' = payload := by
  rw [decode_take_of_encode hversion hencode hextensions hpayload] at hdecode
  cases hdecode
  exact ⟨rfl, rfl, rfl⟩

theorem encode_eq_encode_with_extensions (header : UtpHeader) (payload : Bytes) :
    header.encode_with_extensions [] payload = .ok (header.encode payload) := by
  simp [UtpHeader.encode_with_extensions, UtpHeader.encode, extension_bytes, encode_extensions, first_kind]

/-- The chunk with the sequence number `seq`. -/
def Carries (chunks : List Bytes) (seq : Nat) (payload : Bytes) : Prop :=
  ∃ i, seq = 2 + i ∧ chunks[i]? = some payload

/-- However the datagram is understood, its sequence number is the recorded one, and a data packet carries
    the chunk with that number. -/
def Speaks (chunks : List Bytes) (datagram : Datagram) : Prop :=
  ∀ header extensions payload,
    UtpHeader.decode_with_extensions (datagram.bytes.take 2048) = .ok (header, extensions, payload) →
    header.seq_number = serial.wrap datagram.seq ∧ (header.typ = .Data → Carries chunks datagram.seq payload)

theorem Carries.mono {chunks more : List Bytes} {seq : Nat} (h : Carries chunks seq payload)
    (hmore : chunks <+: more) : Carries more seq payload := by
  obtain ⟨i, hseq, hchunk⟩ := h
  obtain ⟨new, rfl⟩ := hmore
  have hlt : i < chunks.length := (List.getElem?_eq_some_iff.mp hchunk).1
  exact ⟨i, hseq, by rw [List.getElem?_append_left hlt, hchunk]⟩

theorem Speaks.mono {chunks more : List Bytes} {datagram : Datagram} (h : Speaks chunks datagram)
    (hmore : chunks <+: more) : Speaks more datagram := by
  intro header extensions payload hdecode
  obtain ⟨hseq, hdata⟩ := h header extensions payload hdecode
  exact ⟨hseq, fun htyp => (hdata htyp).mono hmore⟩

/-- What is left to be sent and to be acknowledged. -/
def UtpConnection.to_send (self : UtpConnection) : Bytes × Vec InFlight × Nat × Bool × Bool :=
  (self.send_buf, self.in_flight, self.seq_next, self.local_fin_sent, self.fin_transmitted)

/-- A sender whose stream has been cut into the chunks. A FIN that could not be sent has used up a sequence
    number, after which nothing is left to cut. -/
structure Sends (chunks : List Bytes) (written : Bytes) (conn : UtpConnection) : Prop where
  written_eq : written = chunks.flatten ++ conn.send_buf
  short : ∀ chunk ∈ chunks, chunk ≠ [] ∧ chunk.length ≤ MAX_PAYLOAD
  next_ge : 2 + chunks.length ≤ conn.seq_next
  after_fin : conn.seq_next ≠ 2 + chunks.length → conn.send_buf = [] ∧ conn.local_fin_sent = true
  in_flight : ∀ p ∈ conn.in_flight, Carries chunks p.seq p.payload

/-- The sender together with what it has sent. A FIN that was sent, in this call or before, has used up a
    sequence number. -/
structure SendsTask (finished : Prop) (chunks : List Bytes) (written : Bytes) (task : Task) : Prop where
  sends : Sends chunks written task.conn
  speaks : ∀ datagram ∈ task.sent, Speaks chunks datagram
  fin : (finished ∨ ∃ datagram ∈ task.sent, datagram.has_type [.Fin] = true) → task.conn.seq_next ≠ 2 + chunks.length

section
variable {chunks : List Bytes} {written payload : Bytes} {conn : UtpConnection} {io : Io} {seq : Nat}
  {typ : UtpType} {finished : Prop}

theorem Sends.short_of_carries (h : Sends chunks written conn) (hcarries : Carries chunks seq payload) :
    payload.length ≤ MAX_PAYLOAD := by
  obtain ⟨i, -, hchunk⟩ := hcarries
  exact (h.short payload (List.mem_of_getElem? hchunk)).2

theorem keeps_sends_now_micros : Keeps (SendsTask finished chunks written) (now_micros io) :=
  ⟨fun _ h => ⟨h.1, h.2, h.3⟩⟩

theorem keeps_sends_now : Keeps (SendsTask finished chunks written) (now io) := ⟨fun _ h => ⟨h.1, h.2, h.3⟩⟩

theorem Sends.congr {conn' : UtpConnection} (h : Sends chunks written conn) (heq : conn'.to_send = conn.to_send) :
    Sends chunks written conn' := by
  simp only [UtpConnection.to_send, Prod.mk.injEq] at heq
  obtain ⟨hbuf, hflight, hnext, hfin, -⟩ := heq
  obtain ⟨hwritten, hshort, hge, hafter, hin⟩ := h
  exact ⟨hbuf ▸ hwritten, hshort, hnext ▸ hge, by rw [hnext, hbuf, hfin]; exact hafter, hflight ▸ hin⟩

variable {f : UtpConnection → UtpConnection}

theorem keeps_sends_update (hnext : ∀ conn, (f conn).seq_next = conn.seq_next)
    (h : ∀ conn, Sends chunks written conn → Sends chunks written (f conn)) :
    Keeps (SendsTask finished chunks written) (update f) := by
  apply Keeps.modify
  intro task htask
  refine ⟨h task.conn htask.sends, htask.speaks, ?_⟩
  rw [hnext]
  exact htask.fin

theorem keeps_sends_unless_sent (h : ∀ conn, (f conn).to_send = conn.to_send) :
    Keeps (SendsTask finished chunks written) (update f) :=
  keeps_sends_update (fun conn => (congrArg (·.2.2.1) (h conn) :)) fun conn hconn => hconn.congr (h conn)

/-- A sender that may send a packet of the given type. -/
structure MaySend (finished : Prop) (typ : UtpType) (chunks : List Bytes) (written : Bytes) (task : Task) :
    Prop where
  sends_task : SendsTask finished chunks written task
  fin : typ = .Fin → task.conn.seq_next ≠ 2 + chunks.length

theorem keeps_may_send {α : Type} {op : UtpM α} (htyp : typ ≠ .Fin)
    (h : Keeps (MaySend finished typ chunks written) op) :
    Keeps (SendsTask finished chunks written) op :=
  ⟨fun task htask => (h.final task ⟨htask, fun hfin => absurd hfin htyp⟩).sends_task⟩

theorem decode_datagram_eq_ok {bytes : Bytes} {sack : Option Sack}
    (h : decode_datagram bytes = .ok (header, payload, sack)) :
    ∃ extensions, UtpHeader.decode_with_extensions (bytes.take 2048) = .ok (header, extensions, payload) := by
  simp only [decode_datagram, bind_eq_ok_iff, Except.ok.injEq, Prod.mk.injEq] at h
  obtain ⟨⟨header', extensions, payload'⟩, hdecode, sack', -, rfl, rfl, -⟩ := h
  exact ⟨extensions, hdecode⟩

theorem Datagram.has_type_iff {datagram : Datagram} {types : List UtpType} :
    datagram.has_type types = true ↔
      ∃ header payload sack, decode_datagram datagram.bytes = .ok (header, payload, sack) ∧ header.typ ∈ types := by
  unfold Datagram.has_type
  cases hdecode : decode_datagram datagram.bytes with
  | error error => simp
  | ok packet =>
    obtain ⟨header, payload, sack⟩ := packet
    simp

/-- The packet that is sent is what the connection meant, and a FIN only if it may be one. -/
theorem keeps_may_send_send_to {bytes : Bytes} (hspeaks : ∀ dest, Speaks chunks ⟨dest, bytes, seq⟩)
    (hfin : ∀ dest, (Datagram.mk dest bytes seq).has_type [.Fin] = true → typ = .Fin) :
    Keeps (MaySend finished typ chunks written) (send_to io seq bytes) := by
  constructor
  intro task htask
  unfold send_to
  split
  · exact ⟨⟨htask.sends_task.sends, htask.sends_task.speaks, htask.sends_task.fin⟩, htask.fin⟩
  · refine ⟨⟨htask.sends_task.sends, ?_, ?_⟩, htask.fin⟩
    · exact List.forall_mem_append.mpr ⟨htask.sends_task.speaks, List.forall_mem_singleton.mpr (hspeaks _)⟩
    · rintro (hfinished | ⟨datagram, hdatagram, htype⟩)
      · exact htask.sends_task.fin (Or.inl hfinished)
      · rcases List.mem_append.mp hdatagram with hold | hnew
        · exact htask.sends_task.fin (Or.inr ⟨datagram, hold, htype⟩)
        · rw [List.mem_singleton.mp hnew] at htype
          exact htask.fin (hfin _ htype)

/-- A packet the connection makes is understood by whoever receives it. -/
theorem speaks_of_encode {now_ts : UInt32}
    (hencode : (conn.header typ now_ts seq).encode_with_extensions extensions payload = .ok packet)
    (hextensions : (encode_extensions extensions).length ≤ 34) (hpayload : payload.length ≤ MAX_PAYLOAD)
    (hcarries : typ = .Data → Carries chunks seq payload) (dest : net.SocketAddr) :
    Speaks chunks ⟨dest, packet, seq⟩ := by
  intro header' extensions' payload' hdecode
  obtain ⟨htyp, hseq, rfl⟩ := decode_of_encode rfl hencode hextensions hpayload hdecode
  exact ⟨hseq, fun hdata => hcarries (htyp.symm.trans hdata)⟩

theorem typ_of_encode (hversion : header.version = UTP_VERSION)
    (hencode : header.encode_with_extensions extensions payload = .ok packet)
    (hextensions : (encode_extensions extensions).length ≤ 34) (hpayload : payload.length ≤ MAX_PAYLOAD)
    (dest : net.SocketAddr) (htype : (Datagram.mk dest packet seq).has_type [.Fin] = true) : header.typ = .Fin := by
  obtain ⟨header', payload', sack, hdecode, hfin⟩ := Datagram.has_type_iff.mp htype
  obtain ⟨extensions', hfull⟩ := decode_datagram_eq_ok hdecode
  obtain ⟨htyp, -, -⟩ := decode_of_encode hversion hencode hextensions hpayload hfull
  exact htyp.symm.trans (List.mem_singleton.mp hfin)

theorem keeps_may_send_send_packet (hpayload : payload.length ≤ MAX_PAYLOAD)
    (hcarries : typ = .Data → Carries chunks seq payload) :
    Keeps (MaySend finished typ chunks written) (send_packet io typ seq payload) := by
  apply Keeps.bind ⟨fun _ h => ⟨⟨h.sends_task.sends, h.sends_task.speaks, h.sends_task.fin⟩, h.fin⟩⟩
  intro now_ts
  apply Keeps.bind (Keeps.get _)
  intro conn
  apply Keeps.lift_bind
  intro packet hencode
  apply keeps_may_send_send_to
  · exact speaks_of_encode hencode (length_ack_extensions conn) hpayload hcarries
  · exact typ_of_encode rfl hencode (length_ack_extensions conn) hpayload

theorem keeps_sends_send_state : Keeps (SendsTask finished chunks written) (send_state io) := by
  apply Keeps.bind (Keeps.get _)
  intro conn
  exact keeps_may_send (by simp) (keeps_may_send_send_packet (by simp) (by simp))

theorem Sends.set_in_flight (h : Sends chunks written conn) (hcarries : Carries chunks seq payload)
    (index sent_at : Nat) (cwnd : Ledbat) :
    Sends chunks written { conn with in_flight := conn.in_flight.set index ⟨seq, payload, sent_at⟩, cwnd := cwnd } := by
  refine { h with in_flight := ?_ }
  intro q hq
  rcases List.mem_or_eq_of_mem_set hq with hold | rfl
  · exact h.in_flight q hold
  · exact hcarries

theorem keeps_sends_retransmit_one (rto instant index : Nat) :
    Keeps (SendsTask finished chunks written) (retransmit_one io rto instant index) := by
  apply keeps_retransmit_one keeps_sends_now_micros
  · intro task p now_ts htask hp
    have hcarries := htask.sends.in_flight p hp
    have hshort := htask.sends.short_of_carries hcarries
    apply keeps_may_send (show UtpType.Data ≠ .Fin by decide)
    apply keeps_may_send_send_to
    · exact speaks_of_encode (encode_eq_encode_with_extensions _ _) (by simp [encode_extensions]) hshort
        fun _ => hcarries
    · exact typ_of_encode rfl (encode_eq_encode_with_extensions _ _) (by simp [encode_extensions]) hshort
  · intro task index instant p htask hp
    have hcarries := htask.sends.in_flight p (List.mem_of_getElem? hp)
    exact ⟨htask.sends.set_in_flight hcarries index instant _, htask.speaks, htask.fin⟩

theorem keeps_sends_last_ack_sent (instant : Nat) :
    Keeps (SendsTask finished chunks written) (update fun conn => { conn with last_ack_sent := instant }) :=
  keeps_sends_unless_sent fun _ => rfl

/-- The FIN takes the next sequence number, and nothing is left that could take another. -/
theorem keeps_sends_maybe_send_fin : Keeps (SendsTask finished chunks written) (maybe_send_fin io) := by
  apply Leads.get_bind
  intro task htask
  split
  · rename_i hfin
    have hused : task.conn.seq_next + 1 ≠ 2 + chunks.length := by
      have := htask.sends.next_ge
      omega
    have hnext : MaySend finished .Fin chunks written
        { task with conn := { task.conn with seq_next := task.conn.seq_next + 1 } } := by
      refine ⟨⟨{ htask.sends with next_ge := ?_, after_fin := fun _ => ⟨hfin.2.2, hfin.1⟩ }, htask.speaks,
        fun _ => hused⟩, fun _ => hused⟩
      have := htask.sends.next_ge
      dsimp only
      omega
    refine EndsIn.bind ?_ (fun _ h => h) fun _ => keeps_sends_update (fun _ => rfl) fun _ hconn => { hconn with }
    apply EndsIn.get_bind
    apply EndsIn.modify_bind
    exact ⟨((keeps_may_send_send_packet (by simp) (by simp)).start hnext).final.sends_task⟩
  · exact (Keeps.pure _).start htask

theorem Sends.ack_in_flight (h : Sends chunks written conn) (ack : UInt16) (sack : Option Sack) :
    Sends chunks written (conn.ack_in_flight ack sack) :=
  { h with in_flight := fun p hp => h.in_flight p (List.mem_filter.mp hp).1 }

theorem tolerates_sends (io : Io) : Tolerates (SendsTask finished chunks written) io where
  now_micros := keeps_sends_now_micros
  now := keeps_sends_now
  send_state := keeps_sends_send_state
  peer_window _ := keeps_sends_unless_sent fun _ => rfl
  cwnd _ := keeps_sends_unless_sent fun _ => rfl
  last_recv _ := keeps_sends_unless_sent fun _ => rfl
  closed := keeps_sends_unless_sent fun _ => rfl
  acked _ _ := keeps_sends_update (fun _ => rfl) fun _ hconn => hconn.ack_in_flight _ _

theorem keeps_sends_handle_typ (header : UtpHeader) (payload : Bytes) (sack : Option Sack) :
    Keeps (SendsTask finished chunks written) (handle_typ io header payload sack) := by
  apply (tolerates_sends io).handle_typ
  · intro _
    apply keeps_sends_update
    · exact fun conn => (congrArg UtpConnection.seq_next
        (unreceived_handle_data (conn.ack_in_flight header.ack_number sack) header.seq_number payload) :)
    · intro conn hconn
      exact (hconn.ack_in_flight header.ack_number sack).congr
        (congrArg UtpConnection.to_send (unreceived_handle_data _ header.seq_number payload) :)
  · intro _
    exact keeps_sends_unless_sent fun _ => rfl
  · intro _
    exact keeps_sends_unless_sent fun _ => rfl

end

/-- The sender goes on from the chunks that were cut before. -/
def Sending (finished : Prop) (before : List Bytes) (written : Bytes) (task : Task) : Prop :=
  ∃ chunks, before <+: chunks ∧ SendsTask finished chunks written task

section
variable {before : List Bytes} {chunks : List Bytes} {written : Bytes} {conn : UtpConnection} {io : Io}
  {task : Task} {finished : Prop}

theorem keeps_sending {α : Type} {op : UtpM α} (h : ∀ chunks, Keeps (SendsTask finished chunks written) op) :
    Keeps (Sending finished before written) op := by
  constructor
  rintro task ⟨chunks, hbefore, htask⟩
  exact ⟨chunks, hbefore, (h chunks).final task htask⟩

theorem Sends.mono_in_flight (h : Sends chunks written conn) (chunk : Bytes) :
    ∀ p ∈ conn.in_flight, Carries (chunks ++ [chunk]) p.seq p.payload :=
  fun p hp => (h.in_flight p hp).mono (List.prefix_append _ _)

/-- Taking the bytes for a packet cuts the next chunk, which gets the next sequence number. -/
theorem Sends.take_payload {n : Nat} (h : Sends chunks written conn) (hpos : 0 < n) (hshort : n ≤ MAX_PAYLOAD)
    (hn : n ≤ conn.send_buf.length) :
    conn.seq_next = 2 + chunks.length ∧
      Sends (chunks ++ [conn.send_buf.take n]) written (conn.take_payload n) := by
  have hnext : conn.seq_next = 2 + chunks.length := by
    by_contra hne
    rw [(h.after_fin hne).1] at hn
    simp at hn
    omega
  refine ⟨hnext, ?_, ?_, ?_, ?_, h.mono_in_flight _⟩
  · rw [h.written_eq]
    simp [UtpConnection.take_payload]
  · refine List.forall_mem_append.mpr ⟨h.short, List.forall_mem_singleton.mpr ⟨?_, ?_⟩⟩
    · rw [← List.length_pos_iff, List.length_take]
      omega
    · exact (List.length_take_le _ _).trans hshort
  · simp only [UtpConnection.take_payload, List.length_append, List.length_singleton]
    omega
  · intro hne
    exact absurd (by simp only [UtpConnection.take_payload, List.length_append, List.length_singleton]; omega) hne

theorem Sends.push_in_flight {seq : Nat} (h : Sends chunks written conn) (hcarries : Carries chunks seq payload)
    (sent_at : Nat) : Sends chunks written { conn with in_flight := conn.in_flight ++ [⟨seq, payload, sent_at⟩] } :=
  { h with in_flight := List.forall_mem_append.mpr ⟨h.in_flight, List.forall_mem_singleton.mpr hcarries⟩ }

/-- A new packet carries the next chunk, whether it could be sent or not. -/
theorem send_new_sends {n : Nat} (htask : SendsTask finished chunks written task) (hpos : 0 < n)
    (hshort : n ≤ MAX_PAYLOAD) (hn : n ≤ task.conn.send_buf.length) :
    EndsIn (SendsTask finished (chunks ++ [task.conn.send_buf.take n]) written) task (send_new io n) := by
  obtain ⟨hnext, hsends⟩ := htask.sends.take_payload hpos hshort hn
  have hcarries : Carries (chunks ++ [task.conn.send_buf.take n]) task.conn.seq_next (task.conn.send_buf.take n) :=
    ⟨chunks.length, hnext, by simp⟩
  have hmore : chunks <+: chunks ++ [task.conn.send_buf.take n] := List.prefix_append _ _
  have hcut : SendsTask finished (chunks ++ [task.conn.send_buf.take n]) written
      { task with conn := task.conn.take_payload n } :=
    ⟨hsends, fun datagram hdatagram => (htask.speaks datagram hdatagram).mono hmore,
      fun hfin => absurd hnext (htask.fin hfin)⟩
  apply EndsIn.get_bind
  apply EndsIn.modify_bind
  refine Leads.start ?_ hcut
  apply Keeps.bind (keeps_may_send (by decide)
    (keeps_may_send_send_packet ((List.length_take_le _ _).trans hshort) fun _ => hcarries))
  intro _
  apply keeps_sends_now.bind
  intro sent_at
  exact keeps_sends_update (fun _ => rfl) fun conn hconn => hconn.push_in_flight hcarries sent_at

theorem keeps_sending_send_new {n : Nat} (htask : Sending finished before written task) (hpos : 0 < n)
    (hshort : n ≤ MAX_PAYLOAD) (hn : n ≤ task.conn.send_buf.length) :
    EndsIn (Sending finished before written) task (send_new io n) := by
  obtain ⟨chunks, hbefore, htask⟩ := htask
  exact ⟨⟨_, hbefore.trans (List.prefix_append _ _), (send_new_sends htask hpos hshort hn).final⟩⟩

theorem keeps_sending_send_loop (send_window fuel in_flight_bytes : Nat) :
    Keeps (Sending finished before written) (send_loop io send_window fuel in_flight_bytes) := by
  induction fuel generalizing in_flight_bytes with
  | zero => exact Keeps.pure _
  | succ fuel ih =>
    apply Leads.get_bind
    intro task htask
    dsimp only
    split
    · exact (Keeps.pure _).start htask
    · rename_i hpos
      apply (keeps_sending_send_new htask (by omega) (by omega) (by omega)).bind fun _ h => h
      intro _
      exact ih _

theorem keeps_sending_send_due : Keeps (Sending finished before written) (send_due io) := by
  apply Keeps.bind
  · apply Keeps.bind (Keeps.get _)
    intro conn
    split
    · exact Keeps.pure _
    · exact keeps_sending_send_loop _ _ _
  intro _
  apply Keeps.bind (keeps_sending fun _ => keeps_retransmit keeps_sends_now keeps_sends_retransmit_one)
  intro _
  apply Keeps.bind (keeps_sending fun _ =>
    keeps_maybe_send_ack keeps_sends_now keeps_sends_send_state keeps_sends_last_ack_sent)
  intro _
  exact keeps_sending fun _ => keeps_sends_maybe_send_fin

theorem tolerates_sending : Tolerates (Sending finished before written) io where
  now_micros := keeps_sending fun _ => (tolerates_sends io).now_micros
  now := keeps_sending fun _ => (tolerates_sends io).now
  send_state := keeps_sending fun _ => (tolerates_sends io).send_state
  peer_window n := keeps_sending fun _ => (tolerates_sends io).peer_window n
  cwnd f := keeps_sending fun _ => (tolerates_sends io).cwnd f
  last_recv instant := keeps_sending fun _ => (tolerates_sends io).last_recv instant
  closed := keeps_sending fun _ => (tolerates_sends io).closed
  acked ack sack := keeps_sending fun _ => (tolerates_sends io).acked ack sack

/-- Whatever the network does, the sender only ever cuts further chunks, and says of each what it is. -/
theorem keeps_sending_drive (recv : Recv) : Keeps (Sending finished before written) (drive io recv) := by
  apply tolerates_sending.drive (fun _ h => h) keeps_sending_send_due
  apply tolerates_sending.receive
  intro header payload sack
  exact keeps_sending fun _ => keeps_sends_handle_typ header payload sack

end

end swarmotter.utp

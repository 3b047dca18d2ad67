import Swarmotter.Utp.Receiver

open swarmotter.net

namespace swarmotter.utp

/-! What is read at one host was written at the other, in the same order. -/

section
variable {chunks more : List Bytes} {written returned : Bytes} {conn : UtpConnection}

theorem held_packet_mono {i : Nat} (hmore : chunks <+: more) (hi : i < chunks.length) :
    held_packet more i = held_packet chunks i := by
  obtain ⟨new, rfl⟩ := hmore
  rw [held_packet, held_packet, List.getD_append _ _ _ _ hi]

/-- What has been delivered and held does not depend on what is cut later. -/
theorem Delivered.mono {k : Nat} {held : List Nat} (h : Delivered chunks returned k held conn)
    (hmore : chunks <+: more) :
    Delivered more returned k held conn := by
  obtain ⟨hack, hk, hbytes, hooo, hascending, hbounds⟩ := h
  have hlength := hmore.length_le
  refine ⟨hack, hk.trans hlength, ?_, ?_, hascending, ?_⟩
  · obtain ⟨new, rfl⟩ := hmore
    rw [hbytes, List.take_append_of_le_length hk]
  · rw [hooo]
    apply List.map_congr_left
    intro i hi
    exact (held_packet_mono hmore (hbounds i hi).2.1).symm
  · intro i hi
    obtain ⟨hlow, hi_lt, hnear⟩ := hbounds i hi
    exact ⟨hlow, hi_lt.trans_le hlength, hnear⟩

theorem Receives.mono (h : Receives chunks returned conn) (hmore : chunks <+: more) : Receives more returned conn := by
  obtain ⟨k, held, hdelivered⟩ := h
  exact ⟨k, held, hdelivered.mono hmore⟩

theorem Sends.write (h : Sends chunks written conn) (buf : Bytes) :
    Sends chunks (written ++ buf.take (conn.write buf).1) (conn.write buf).2 := by
  unfold UtpConnection.write
  split
  · simpa using h
  · rename_i hopen
    split
    · simpa using h
    · refine ⟨?_, h.short, h.next_ge, ?_, h.in_flight⟩
      · simp [h.written_eq]
      · intro hne
        exact absurd (Or.inl (h.after_fin hne).2) hopen

theorem Hears.write (h : Hears chunks returned conn) (buf : Bytes) : Hears chunks returned (conn.write buf).2 :=
  h.congr (congrArg UtpConnection.received (write_eq conn buf) :)

theorem Delivered.read {k : Nat} {held : List Nat} (h : Delivered chunks returned k held conn) (out_len : Nat) :
    Delivered chunks (returned ++ (conn.read out_len).1) k held (conn.read out_len).2 := by
  unfold UtpConnection.read
  split
  · simpa using h
  · apply Delivered.update_recv_window
    refine ⟨h.ack, h.k_le, ?_, h.ooo, h.holds⟩
    rw [List.append_assoc, List.take_append_drop]
    exact h.bytes

theorem Receives.read (h : Receives chunks returned conn) (out_len : Nat) :
    Receives chunks (returned ++ (conn.read out_len).1) (conn.read out_len).2 := by
  obtain ⟨k, held, hdelivered⟩ := h
  exact ⟨k, held, hdelivered.read out_len⟩

theorem Finished.read (h : Finished chunks returned conn) (out_len : Nat) :
    Finished chunks (returned ++ (conn.read out_len).1) (conn.read out_len).2 := by
  unfold UtpConnection.read
  split
  · simpa using h
  · refine ⟨h.peer_fin, ?_, h.ack, h.ooo⟩
    rw [← h.bytes]
    simp [UtpConnection.update_recv_window]

theorem peer_fin_read (conn : UtpConnection) (out_len : Nat) : (conn.read out_len).2.peer_fin = conn.peer_fin :=
  (congrArg UtpConnection.peer_fin (unreceived_read conn out_len) :)

theorem Hears.read (h : Hears chunks returned conn) (out_len : Nat) :
    Hears chunks (returned ++ (conn.read out_len).1) (conn.read out_len).2 := by
  rcases h with ⟨hopen, hreceives⟩ | hfinished
  · exact Or.inl ⟨(peer_fin_read conn out_len).trans hopen, hreceives.read out_len⟩
  · exact Or.inr (hfinished.read out_len)

/-- Nothing is cut after the FIN. -/
theorem Hears.mono (h : Hears chunks returned conn) (hmore : chunks <+: more)
    (hdone : conn.peer_fin = true → more = chunks) : Hears more returned conn := by
  rcases h with ⟨hopen, hreceives⟩ | hfinished
  · exact Or.inl ⟨hopen, hreceives.mono hmore⟩
  · rw [hdone hfinished.peer_fin]
    exact Or.inr hfinished

theorem Hears.returned_in_order {sender : UtpConnection} (h : Hears chunks returned conn)
    (hsends : Sends chunks written sender) : returned <+: written := by
  rw [hsends.written_eq]
  rcases h with ⟨-, k, held, hdelivered⟩ | hfinished
  · have hflatten : (chunks.take k).flatten <+: chunks.flatten :=
      ⟨(chunks.drop k).flatten, by rw [← List.flatten_append, List.take_append_drop]⟩
    have hreturned : returned <+: (chunks.take k).flatten := ⟨conn.recv_buf, hdelivered.bytes⟩
    exact (hreturned.trans hflatten).trans (List.prefix_append _ _)
  · have hreturned : returned <+: chunks.flatten := ⟨conn.recv_buf, hfinished.bytes⟩
    exact hreturned.trans (List.prefix_append _ _)

/-- What was delivered of nothing is nothing. -/
theorem Hears.returned_of_nil (h : Hears [] returned conn) : returned = [] := by
  rcases h with ⟨-, k, held, hdelivered⟩ | hfinished
  · have hnil := hdelivered.bytes
    simp only [List.take_nil, List.flatten_nil, List.append_eq_nil_iff] at hnil
    exact hnil.1
  · have hnil := hfinished.bytes
    simp only [List.flatten_nil, List.append_eq_nil_iff] at hnil
    exact hnil.1

end

/-- The sender has sent a FIN, or the receiver has taken one. -/
def FinOut (sender receiver : Host) : Prop :=
  (∃ conn ∈ receiver.conn, conn.peer_fin = true) ∨ ∃ datagram ∈ sender.sent, datagram.has_type [.Fin] = true

/-- The stream from one host to the other. -/
structure Flows (chunks : List Bytes) (sender receiver : Host) : Prop where
  waiting : sender.conn = none → chunks = [] ∧ sender.written = [] ∧ ¬ FinOut sender receiver
  sends : ∀ conn ∈ sender.conn, Sends chunks sender.written conn
  speaks : ∀ datagram ∈ sender.sent, Speaks chunks datagram
  fin : ∀ conn ∈ sender.conn, FinOut sender receiver → conn.seq_next ≠ 2 + chunks.length
  hears : ∀ conn ∈ receiver.conn, Hears chunks receiver.returned conn
  unheard : receiver.conn = none → receiver.returned = []

/-- Both streams, and the handshake that precedes them. -/
structure Link.Ordered (link : Link) : Prop where
  flows : ∀ side, ∃ chunks, Flows chunks (link side) (link side.other)
  silent : (link .acceptor).conn = none → (link .acceptor).sent = [] ∧ (link .initiator).conn = none
  syn : (link .initiator).conn = none → ∀ datagram ∈ (link .initiator).sent, datagram.seq = 1

variable {chunks : List Bytes} {sender receiver : Host}

theorem Flows.returned_in_order (h : Flows chunks sender receiver) : receiver.returned <+: sender.written := by
  cases hreceiver : receiver.conn with
  | none =>
    rw [h.unheard hreceiver]
    exact List.nil_prefix
  | some conn =>
    have hhears := h.hears conn hreceiver
    cases hsender : sender.conn with
    | none =>
      obtain ⟨rfl, -, -⟩ := h.waiting hsender
      rw [hhears.returned_of_nil]
      exact List.nil_prefix
    | some sender_conn => exact hhears.returned_in_order (h.sends sender_conn hsender)

variable {conn : UtpConnection}

/-- A sender whose FIN is out has nothing left. -/
theorem Flows.written_of_fin (h : Flows chunks sender receiver) (hconn : sender.conn = some conn)
    (hfin : FinOut sender receiver) : sender.written = chunks.flatten ∧ conn.local_fin_sent = true := by
  have hsends := h.sends conn hconn
  obtain ⟨hbuf, hclosed⟩ := hsends.after_fin (h.fin conn hconn hfin)
  refine ⟨?_, hclosed⟩
  rw [hsends.written_eq, hbuf, List.append_nil]

section
variable {chunks : List Bytes} {host : Host} {conn : UtpConnection} {action : Action} {sent : List Datagram}
  {finished : Prop}

/-- Whatever a host does, it goes on cutting its stream. -/
theorem act_sends (hsends : Sends chunks host.written conn) (hspeaks : ∀ datagram ∈ host.sent, Speaks chunks datagram)
    (hfin : (finished ∨ ∃ datagram ∈ host.sent, datagram.has_type [.Fin] = true) → conn.seq_next ≠ 2 + chunks.length)
    (action : Action) :
    ∃ more conn', chunks <+: more ∧ (host.act conn action).conn = some conn' ∧
      SendsTask finished more (host.act conn action).written ⟨conn', 0, (host.act conn action).sent⟩ := by
  cases action with
  | write buf =>
    exact ⟨chunks, (conn.write buf).2, List.prefix_rfl, rfl, hsends.write buf, hspeaks,
      fun hout => (congrArg UtpConnection.seq_next (write_eq conn buf) :).trans_ne (hfin hout)⟩
  | read out_len =>
    have heq := unreceived_read conn out_len
    exact ⟨chunks, (conn.read out_len).2, List.prefix_rfl, rfl, hsends.congr (congrArg UtpConnection.to_send heq :),
      hspeaks, fun hout => (congrArg UtpConnection.seq_next heq :).trans_ne (hfin hout)⟩
  | close =>
    exact ⟨chunks, _, List.prefix_rfl, rfl,
      { hsends with after_fin := fun hne => ⟨(hsends.after_fin hne).1, rfl⟩ }, hspeaks, hfin⟩
  | drive io recv =>
    obtain ⟨more, hmore, htask⟩ := (keeps_sending_drive recv).final
      { conn, calls := 0, sent := host.sent } ⟨chunks, List.prefix_rfl, hsends, hspeaks, hfin⟩
    exact ⟨more, _, hmore, rfl, htask.sends, htask.speaks, htask.fin⟩

/-- Whatever a host does, what it has received stays in order. -/
theorem act_heard (hhears : Hears chunks host.returned conn) (hnonempty : ∀ chunk ∈ chunks, chunk ≠ [])
    (hspeaks : ∀ datagram ∈ sent, Speaks chunks datagram)
    (hno_reset : ∀ datagram ∈ sent, datagram.has_type [.Reset] = false)
    (hahead : 1 + chunks.length < conn.ack_number + 2 ^ 15) (hpossible : action.Possible conn sent) :
    ∀ conn' ∈ (host.act conn action).conn,
      (conn'.peer_fin = true → conn.peer_fin = true ∨ ∃ datagram ∈ sent, datagram.has_type [.Fin] = true) ∧
      ((conn.peer_fin = false → conn'.peer_fin = true → host.returned ++ conn.recv_buf = chunks.flatten) →
        Hears chunks (host.act conn action).returned conn') := by
  cases action with
  | write buf =>
    rintro _ ⟨⟩
    have hsame : (conn.write buf).2.peer_fin = conn.peer_fin := (congrArg UtpConnection.peer_fin (write_eq conn buf) :)
    exact ⟨fun htaken => Or.inl (hsame.symm.trans htaken), fun _ => hhears.write buf⟩
  | read out_len =>
    rintro _ ⟨⟩
    exact ⟨fun htaken => Or.inl ((peer_fin_read conn out_len).symm.trans htaken), fun _ => hhears.read out_len⟩
  | close =>
    rintro _ ⟨⟩
    exact ⟨Or.inl, fun _ => hhears.congr rfl⟩
  | drive io recv =>
    rintro _ ⟨⟩
    have hhears : Hears chunks host.returned ({ conn, calls := 0, sent := host.sent } : Task).conn := hhears
    have hheard := hhears.drive io hnonempty hspeaks hno_reset hahead hpossible
    exact ⟨hheard.fin, hheard.hears⟩

theorem act_connected (host : Host) (conn : UtpConnection) (action : Action) : (host.act conn action).conn ≠ none := by
  cases action <;> simp [Host.act]

/-- A host that was closed writes nothing more. -/
theorem act_written (host : Host) (action : Action) (hclosed : conn.local_fin_sent = true) :
    (host.act conn action).written = host.written := by
  cases action <;> simp [Host.act, UtpConnection.write, hclosed]

end

section
variable (h : Flows chunks sender receiver)
include h

theorem Flows.nonempty : ∀ chunk ∈ chunks, chunk ≠ [] := by
  cases hsender : sender.conn with
  | none =>
    obtain ⟨rfl, -, -⟩ := h.waiting hsender
    exact nofun
  | some conn => exact fun chunk hchunk => ((h.sends conn hsender).short chunk hchunk).1

/-- The sender goes on with its stream. -/
theorem Flows.act_sender (action : Action) (hconn : sender.conn = some conn) :
    ∃ more, Flows more (sender.act conn action) receiver := by
  obtain ⟨more, conn', hmore, hconn', htask⟩ := act_sends (h.sends conn hconn) h.speaks (h.fin conn hconn) action
  have hdone (hfin : FinOut sender receiver) : more = chunks := by
    obtain ⟨hwritten, hclosed⟩ := h.written_of_fin hconn hfin
    obtain ⟨new, rfl⟩ := hmore
    have hsame := htask.sends.written_eq
    rw [act_written sender action hclosed, hwritten, List.flatten_append, List.append_assoc, List.self_eq_append_right,
      List.append_eq_nil_iff, List.flatten_eq_nil_iff] at hsame
    have hnew : new = [] := by
      apply List.eq_nil_iff_forall_not_mem.mpr
      intro chunk hchunk
      exact (htask.sends.short chunk (List.mem_append_right _ hchunk)).1 (hsame.1 chunk hchunk)
    rw [hnew, List.append_nil]
  refine ⟨more, fun hnone => absurd hnone (act_connected sender conn action), ?_, htask.speaks, ?_, ?_, h.unheard⟩
  · intro other hother
    rw [hconn'] at hother
    cases hother
    exact htask.sends
  · intro other hother
    rw [hconn'] at hother
    cases hother
    exact htask.fin
  · intro other hother
    exact (h.hears other hother).mono hmore fun hfin => hdone (Or.inl ⟨other, hother, hfin⟩)

/-- A receiver that has taken no FIN but one that was out. -/
theorem Flows.receive {receiver' : Host} (hout : FinOut sender receiver' → FinOut sender receiver)
    (hhears : ∀ conn ∈ receiver'.conn, Hears chunks receiver'.returned conn)
    (hunheard : receiver'.conn = none → receiver'.returned = []) : Flows chunks sender receiver' := by
  refine ⟨fun hnone => ?_, h.sends, h.speaks, fun other hother hfin => h.fin other hother (hout hfin), hhears, hunheard⟩
  obtain ⟨hchunks, hwritten, hno_fin⟩ := h.waiting hnone
  exact ⟨hchunks, hwritten, fun hfin => hno_fin (hout hfin)⟩

/-- The receiver goes on with what the sender has sent, and takes its FIN in order. -/
theorem Flows.act_receiver {action : Action} (hconn : receiver.conn = some conn)
    (hno_reset : ∀ datagram ∈ sender.sent, datagram.has_type [.Reset] = false)
    (hahead : 1 + chunks.length < conn.ack_number + 2 ^ 15) (hpossible : action.Possible conn sender.sent)
    (hfin : ∀ conn' ∈ (receiver.act conn action).conn, FinOut sender receiver → conn.peer_fin = false →
      conn'.peer_fin = true → receiver.returned ++ conn.recv_buf = sender.written) :
    Flows chunks sender (receiver.act conn action) := by
  have hheard := act_heard (h.hears conn hconn) h.nonempty h.speaks hno_reset hahead hpossible
  have hout (hout : FinOut sender (receiver.act conn action)) : FinOut sender receiver := by
    rcases hout with ⟨conn', hconn', htaken⟩ | hsent
    · rcases (hheard conn' hconn').1 htaken with hbefore | hsent
      · exact Or.inl ⟨conn, hconn, hbefore⟩
      · exact Or.inr hsent
    · exact Or.inr hsent
  refine h.receive hout (fun conn' hconn' => (hheard conn' hconn').2 ?_)
    fun hnone => absurd hnone (act_connected receiver conn action)
  intro hopen htaken
  have hfinished : FinOut sender receiver := hout (Or.inl ⟨conn', hconn', htaken⟩)
  rw [hfin conn' hconn' hfinished hopen htaken]
  cases hsender : sender.conn with
  | none => exact absurd hfinished (h.waiting hsender).2.2
  | some other => exact (h.written_of_fin hsender hfinished).1

/-- The receiver gets its connection. -/
theorem Flows.connect_receiver (hwaiting : receiver.conn = none) (hhears : ∀ chunks, Hears chunks [] conn)
    (hopen : conn.peer_fin = false) (sent : List Datagram) :
    Flows chunks sender { receiver with conn := some conn, sent := sent } := by
  have hout (hout : FinOut sender { receiver with conn := some conn, sent := sent }) : FinOut sender receiver := by
    rcases hout with ⟨conn', ⟨⟩, htaken⟩ | hsent
    · rw [hopen] at htaken
      cases htaken
    · exact Or.inr hsent
  refine h.receive hout ?_ nofun
  rintro _ ⟨⟩
  simp only [h.unheard hwaiting]
  exact hhears chunks

/-- The sender gets its connection. -/
theorem Flows.connect_sender {sent : List Datagram} (hwaiting : sender.conn = none) (hsends : Sends [] [] conn)
    (hsent : ∀ datagram ∈ sent, Speaks [] datagram ∧ datagram.has_type [.Fin] = false) :
    Flows [] { sender with conn := some conn, sent := sent } receiver := by
  obtain ⟨rfl, hwritten, hno_fin⟩ := h.waiting hwaiting
  have hno_fin : ¬ FinOut { sender with conn := some conn, sent := sent } receiver := by
    rintro (htaken | ⟨datagram, hdatagram, htype⟩)
    · exact hno_fin (Or.inl htaken)
    · rw [(hsent datagram hdatagram).2] at htype
      cases htype
  refine ⟨by simp, ?_, fun datagram hdatagram => (hsent datagram hdatagram).1, ?_, h.hears, h.unheard⟩
  · rintro _ ⟨⟩
    simp only [hwritten]
    exact hsends
  · exact fun _ _ hfin => absurd hfin hno_fin

end

variable {datagram : Datagram}

theorem Datagram.has_type_mono {types types' : List UtpType} (hsubset : types ⊆ types')
    (h : datagram.has_type types' = false) : datagram.has_type types = false := by
  rw [Bool.eq_false_iff] at h ⊢
  intro htype
  obtain ⟨header, payload, sack, hdecode, htyp⟩ := Datagram.has_type_iff.mp htype
  exact h (Datagram.has_type_iff.mpr ⟨header, payload, sack, hdecode, hsubset htyp⟩)

theorem Side.other_ne (side : Side) : side.other ≠ side := by
  cases side <;> decide

theorem Side.eq_or_eq_other (side other : Side) : other = side ∨ other = side.other := by
  cases side <;> cases other <;> decide

theorem Side.other_other (side : Side) : side.other.other = side := by
  cases side <;> rfl

namespace Link

section
variable {link link' : Link} {addr : Side → SocketAddr} {syn_conn_id : UInt16} {completes : Datagram → Prop}

/-- A sender is not too far ahead for what it has cut to be told apart. -/
theorem ahead_of_orderly {side : Side} (horderly : link.Orderly)
    (hwaiting : (link side.other).conn = none → chunks = [])
    (hsends : ∀ conn ∈ (link side.other).conn, Sends chunks (link side.other).written conn)
    (hconn : (link side).conn = some conn) : 1 + chunks.length < conn.ack_number + 2 ^ 15 := by
  cases hother : (link side.other).conn with
  | none =>
    rw [hwaiting hother, List.length_nil]
    omega
  | some other =>
    have hclose := horderly.close_enough side.other other hother conn (by rw [Side.other_other]; exact hconn)
    have hnext := (hsends other hother).next_ge
    omega

theorem Ordered.act {side : Side} {action : Action} (h : link.Ordered) (horderly : link.Orderly)
    (hconn : (link side).conn = some conn) (hpossible : action.Possible conn (link side.other).sent)
    (hfin : ∀ conn' ∈ ((link side).act conn action).conn, FinOut (link side.other) (link side) → conn.peer_fin = false
      → conn'.peer_fin = true → (link side).returned ++ conn.recv_buf = (link side.other).written) :
    Ordered (Function.update link side ((link side).act conn action)) := by
  have hother : Function.update link side ((link side).act conn action) side.other = link side.other :=
    Function.update_of_ne side.other_ne _ _
  have hacted := act_connected (link side) conn action
  refine ⟨?_, ?_, ?_⟩
  · intro sender
    rcases Side.eq_or_eq_other side sender with rfl | rfl
    · obtain ⟨chunks, hflows⟩ := h.flows sender
      rw [Function.update_self, hother]
      exact hflows.act_sender action hconn
    · obtain ⟨chunks, hflows⟩ := h.flows side.other
      rw [Side.other_other] at hflows
      rw [Side.other_other, Function.update_self, hother]
      exact ⟨chunks, hflows.act_receiver hconn (horderly.no_reset side.other)
        (ahead_of_orderly horderly (fun hnone => (hflows.waiting hnone).1) hflows.sends hconn)
        hpossible hfin⟩
  · cases side with
    | initiator =>
      rw [show Side.acceptor = Side.initiator.other from rfl, hother]
      intro hnone
      rw [(h.silent hnone).2] at hconn
      cases hconn
    | acceptor =>
      rw [Function.update_self]
      exact fun hnone => absurd hnone hacted
  · cases side with
    | initiator =>
      rw [Function.update_self]
      exact fun hnone => absurd hnone hacted
    | acceptor =>
      rw [show Side.initiator = Side.acceptor.other from rfl, hother]
      exact h.syn

theorem sends_established (peer : SocketAddr) (send_conn_id recv_conn_id ack_number : UInt16) (peer_window : UInt32)
    (last_recv last_ack_sent : Nat) :
    Sends [] [] (UtpConnection.established peer send_conn_id recv_conn_id ack_number peer_window last_recv
      last_ack_sent) := by
  refine ⟨rfl, ?_, Nat.le_refl 2, fun hne => absurd rfl hne, ?_⟩
  · exact nofun
  · exact nofun

/-- A connection that has heard nothing but the handshake. -/
theorem established_opens {ack_number : UInt16} (hack : ack_number = 1) (peer : SocketAddr)
    (send_conn_id recv_conn_id : UInt16) (peer_window : UInt32) (last_recv last_ack_sent : Nat)
    (chunks : List Bytes) :
    Hears chunks [] (UtpConnection.established peer send_conn_id recv_conn_id ack_number peer_window last_recv
      last_ack_sent) := by
  subst hack
  refine Or.inl ⟨rfl, 0, [], rfl, Nat.zero_le _, rfl, rfl, List.Pairwise.nil.sortedLT, ?_⟩
  exact nofun

variable {last_recv last_ack_sent : Nat}

theorem accept_from_syn_eq_ok {peer : SocketAddr} {syn : UtpHeader} {now_ts : UInt32} {reply : Bytes}
    (h : accept_from_syn peer syn now_ts none last_recv last_ack_sent = .ok (conn, reply)) :
    conn = UtpConnection.established peer syn.connection_id (syn.connection_id + 1) syn.seq_number syn.window_size
        last_recv last_ack_sent ∧ reply = (syn_ack_header syn now_ts).encode [] := by
  simp only [accept_from_syn, eq_ok_iff, Except.ok.injEq, Prod.mk.injEq] at h
  obtain ⟨⟨⟩, -, rfl, rfl⟩ := h
  exact ⟨rfl, rfl⟩

theorem speaks_encode_nil {header : UtpHeader} {dest : SocketAddr} {seq : Nat}
    (hversion : header.version = UTP_VERSION) (htyp : header.typ ≠ .Data) (hfin : header.typ ≠ .Fin)
    (hseq : header.seq_number = serial.wrap seq) :
    Speaks chunks ⟨dest, header.encode [], seq⟩ ∧
      (Datagram.mk dest (header.encode []) seq).has_type [.Fin] = false := by
  have hencode := encode_eq_encode_with_extensions header []
  constructor
  · intro header' extensions payload hdecode
    obtain ⟨htyp', hseq', -⟩ := decode_of_encode hversion hencode (by simp [encode_extensions]) (by simp) hdecode
    exact ⟨hseq'.trans hseq, fun hdata => absurd (htyp'.symm.trans hdata) htyp⟩
  · apply Bool.eq_false_iff.mpr
    intro htype
    exact hfin (typ_of_encode hversion hencode (by simp [encode_extensions]) (by simp) dest htype)

theorem Ordered.accept {syn : UtpHeader} {extensions : Vec UtpExtension} {payload reply : Bytes} {now_ts : UInt32}
    (h : link.Ordered) (hwaiting : (link .acceptor).conn = none) (hsent : datagram ∈ (link .initiator).sent)
    (hdecode : UtpHeader.decode_with_extensions (datagram.bytes.take 2048) = .ok (syn, extensions, payload))
    (haccept : accept_from_syn (addr .initiator) syn now_ts none last_recv last_ack_sent = .ok (conn, reply)) :
    Ordered (Function.update link .acceptor { link .acceptor with
      conn := some conn, sent := (link .acceptor).sent ++ [⟨addr .initiator, reply, 1⟩] }) := by
  obtain ⟨hsilent, hinitiator⟩ := h.silent hwaiting
  obtain ⟨rfl, rfl⟩ := accept_from_syn_eq_ok haccept
  obtain ⟨chunks, hforward⟩ := h.flows .initiator
  obtain ⟨chunks', hback⟩ := h.flows .acceptor
  have hother (host : Host) : Function.update link .acceptor host .initiator = link .initiator :=
    Function.update_of_ne (by decide) _ _
  have hack : syn.seq_number = 1 := by
    rw [(hforward.speaks datagram hsent syn extensions payload hdecode).1, h.syn hinitiator datagram hsent]
    rfl
  refine ⟨?_, ?_, ?_⟩
  · intro side
    cases side with
    | initiator =>
      rw [hother, show Side.initiator.other = Side.acceptor from rfl, Function.update_self]
      exact ⟨chunks, hforward.connect_receiver hwaiting (established_opens hack _ _ _ _ _ _) rfl _⟩
    | acceptor =>
      rw [show Side.acceptor.other = Side.initiator from rfl, hother, Function.update_self]
      refine ⟨[], hback.connect_sender hwaiting (sends_established ..) ?_⟩
      intro other hother
      rw [hsilent, List.nil_append, List.mem_singleton] at hother
      rw [hother]
      exact speaks_encode_nil rfl (by simp [syn_ack_header]) (by simp [syn_ack_header]) rfl
  · rw [Function.update_self]
    simp
  · rw [hother]
    exact h.syn

theorem connect_reply_eq_ok {peer : SocketAddr} {bytes : Bytes}
    (h : connect_reply peer syn_conn_id (.datagram peer bytes) last_recv last_ack_sent = .ok conn) :
    ∃ state extensions payload, UtpHeader.decode_with_extensions (bytes.take 2048) = .ok (state, extensions, payload) ∧
      conn = UtpConnection.established peer (syn_conn_id + 1) syn_conn_id state.seq_number state.window_size last_recv
        last_ack_sent := by
  simp only [connect_reply, eq_ok_iff, Except.ok.injEq] at h
  obtain ⟨⟨⟩, -, ⟨state, extensions, payload⟩, hdecode, ⟨⟩, -, ⟨⟩, -, ⟨⟩, -, rfl⟩ := h
  exact ⟨state, extensions, payload, hdecode, rfl⟩

theorem Ordered.connect (h : link.Ordered) (hwaiting : (link .initiator).conn = none)
    (hsent : datagram ∈ (link .acceptor).sent) (hseq : datagram.seq = 1)
    (hconnect : connect_reply (addr .acceptor) syn_conn_id (.datagram (addr .acceptor) datagram.bytes) last_recv
      last_ack_sent = .ok conn) :
    Ordered (Function.update link .initiator { link .initiator with conn := some conn }) := by
  obtain ⟨state, extensions, payload, hdecode, rfl⟩ := connect_reply_eq_ok hconnect
  obtain ⟨chunks, hforward⟩ := h.flows .initiator
  obtain ⟨chunks', hback⟩ := h.flows .acceptor
  have hother (host : Host) : Function.update link .initiator host .acceptor = link .acceptor :=
    Function.update_of_ne (by decide) _ _
  have hack : state.seq_number = 1 := by
    rw [(hback.speaks datagram hsent state extensions payload hdecode).1, hseq]
    rfl
  refine ⟨?_, ?_, ?_⟩
  · intro side
    cases side with
    | initiator =>
      rw [show Side.initiator.other = Side.acceptor from rfl, hother, Function.update_self]
      obtain ⟨rfl, -, hno_fin⟩ := hforward.waiting hwaiting
      refine ⟨[], hforward.connect_sender hwaiting (sends_established ..) fun other hother => ?_⟩
      exact ⟨hforward.speaks other hother, Bool.eq_false_iff.mpr fun htype => hno_fin (Or.inr ⟨other, hother, htype⟩)⟩
    | acceptor =>
      rw [hother, show Side.acceptor.other = Side.initiator from rfl, Function.update_self]
      exact ⟨chunks', hback.connect_receiver hwaiting (established_opens hack _ _ _ _ _ _) rfl _⟩
  · rw [hother]
    intro hnone
    rw [(h.silent hnone).1] at hsent
    exact absurd hsent List.not_mem_nil
  · rw [Function.update_self]
    simp

theorem ordered_start (now_ts : UInt32) : (Link.start addr syn_conn_id now_ts).Ordered := by
  have hsyn : ∀ datagram ∈ (Link.start addr syn_conn_id now_ts .initiator).sent,
      Speaks [] datagram ∧ datagram.has_type [.Fin] = false := by
    intro datagram hdatagram
    rw [List.mem_singleton.mp hdatagram]
    exact speaks_encode_nil rfl (by simp [syn_header]) (by simp [syn_header]) rfl
  refine ⟨?_, fun _ => ⟨rfl, rfl⟩, ?_⟩
  · intro side
    refine ⟨[], ?_⟩
    cases side with
    | initiator =>
      refine ⟨fun _ => ⟨rfl, rfl, ?_⟩, by simp [Link.start], fun datagram hdatagram => (hsyn datagram hdatagram).1,
        by simp [Link.start], by simp [Link.start, Side.other], fun _ => rfl⟩
      rintro (⟨conn, hconn, -⟩ | ⟨datagram, hdatagram, htype⟩)
      · cases hconn
      · rw [(hsyn datagram hdatagram).2] at htype
        cases htype
    | acceptor =>
      refine ⟨fun _ => ⟨rfl, rfl, ?_⟩, by simp [Link.start], by simp [Link.start], by simp [Link.start],
        by simp [Link.start, Side.other], fun _ => rfl⟩
      rintro (⟨conn, hconn, -⟩ | ⟨datagram, hdatagram, -⟩)
      · cases hconn
      · exact absurd hdatagram List.not_mem_nil
  · intro _ datagram hdatagram
    rw [List.mem_singleton.mp hdatagram]

/-- One step, if a FIN that is taken in it is taken in order. -/
theorem Ordered.step (h : link.Ordered) (hstep : Step addr syn_conn_id (fun reply => reply.seq = 1) link link')
    (horderly : ∀ side conn, (link side).conn = some conn → link.Orderly)
    (hfin : ∀ side, FinOut (link side.other) (link side) → ∀ conn ∈ (link side).conn, ∀ conn' ∈ (link' side).conn,
      conn.peer_fin = false → conn'.peer_fin = true →
        (link side).returned ++ conn.recv_buf = (link side.other).written) :
    link'.Ordered := by
  cases hstep with
  | accept datagram syn extensions payload conn reply now_ts last_recv last_ack_sent hwaiting hsent hdecode haccept =>
    exact h.accept hwaiting hsent hdecode haccept
  | connect datagram conn last_recv last_ack_sent hwaiting hsent hcompletes hconnect =>
    exact h.connect hwaiting hsent hcompletes hconnect
  | act side conn action hconn hpossible =>
    apply h.act (horderly side conn hconn) hconn hpossible
    intro conn' hconn' hout
    exact hfin side hout conn hconn conn' (by rw [Function.update_self]; exact hconn')

/-- A link on which something can be done has been reached through valid states. -/
theorem Run.valid {side : Side} (hrun : Run addr syn_conn_id completes link) (hconn : (link side).conn = some conn) :
    link.Valid := by
  cases hrun with
  | start now_ts => cases side <;> cases hconn
  | step hrun hstep hvalid => exact hvalid

theorem Valid.orderly (h : link.Valid) : link.Orderly :=
  ⟨fun side datagram hdatagram => Datagram.has_type_mono (by decide) (h.no_fin side datagram hdatagram), h.close_enough⟩

theorem Valid.no_fin_sent (h : link.Valid) (side : Side) :
    ¬ ∃ datagram ∈ (link side).sent, datagram.has_type [.Fin] = true := by
  rintro ⟨datagram, hdatagram, hfin⟩
  rw [Datagram.has_type_mono (by decide) (h.no_fin side datagram hdatagram)] at hfin
  cases hfin

theorem Run.ordered (hrun : Run addr syn_conn_id (fun reply => reply.seq = 1) link) : link.Ordered := by
  induction hrun with
  | start now_ts => exact ordered_start now_ts
  | step hrun hstep hvalid ih =>
    refine ih.step hstep (fun side conn hconn => (hrun.valid hconn).orderly) ?_
    -- without a FIN none is taken
    rintro side (⟨conn', hconn', htaken⟩ | hsent) conn hconn - - hopen -
    · rw [Option.mem_unique hconn' hconn, hopen] at htaken
      cases htaken
    · exact absurd hsent ((hrun.valid hconn).no_fin_sent side.other)

end

/-- In every run in which the handshake is completed by the reply to the SYN, what is read at one host is at
    every moment the beginning of what was written at the other, also after the sequence numbers have wrapped. -/
theorem returned_prefix_of_written (addr : Side → SocketAddr) (syn_conn_id : UInt16) (link : Link)
    (hrun : Run addr syn_conn_id (fun reply => reply.seq = 1) link) (side : Side) :
    (link side).returned <+: (link side.other).written := by
  obtain ⟨chunks, hflows⟩ := hrun.ordered.flows side.other
  rw [Side.other_other] at hflows
  exact hflows.returned_in_order

/-! A run in which the acceptor, before the initiator has heard from it, sends a second STATE packet. -/

/-- The acceptor has answered the SYN, and has sent its periodic acknowledgement 200 milliseconds later. -/
def sample_waiting : Link :=
  ((Link.start sample_addr 7 0).hears_syn sample_addr sample_syn).does .acceptor (.drive (io_at 200000) .timed_out)

/-- The initiator connects with one of these two packets, and the acceptor sends a byte in each of two
    packets. -/
def sample_sent (reply : Nat) : Link :=
  ((((sample_waiting.hears_reply sample_addr 7 (nth_sent (sample_waiting .acceptor) reply)).does .acceptor
    (.write [1])).does .acceptor (.drive (io_at 200000) .timed_out)).does .acceptor
    (.write [2])).does .acceptor (.drive (io_at 200000) .timed_out)

/-- Both packets arrive in order. -/
def sample_received (reply : Nat) : Link :=
  let link := sample_sent reply
  ((link.does .initiator
    (.drive (io_at 0) (.datagram (sample_addr .acceptor) (nth_sent (link .acceptor) 2).bytes))).does
    .initiator (.drive (io_at 0) (.datagram (sample_addr .acceptor) (nth_sent (link .acceptor) 3).bytes))).does
    .initiator (.read 16)

def sample_moves (reply : Nat) : List Move :=
  let drives : Action := .drive (io_at 200000) .timed_out
  let arrives (index : Nat) : Action :=
    .drive (io_at 0) (.datagram (sample_addr .acceptor) (nth_sent (sample_sent reply .acceptor) index).bytes)
  [.hears_syn sample_syn, .does .acceptor drives, .hears_reply (nth_sent (sample_waiting .acceptor) reply),
    .does .acceptor (.write [1]), .does .acceptor drives, .does .acceptor (.write [2]), .does .acceptor drives,
    .does .initiator (arrives 2), .does .initiator (arrives 3), .does .initiator (.read 16)]

theorem run_sample_received {completes : Datagram → Prop} (reply : Nat)
    (h : (Link.start sample_addr 7 0).Plays sample_addr 7 completes (fun _ link' => link'.Valid) (sample_moves reply)) :
    Run sample_addr 7 completes (sample_received reply) :=
  ((Reaches.start 0).plays h).run

theorem returned_prefix_of_written_two_bytes :
    (sample_received 0 .initiator).returned = [1, 2] ∧
      (sample_received 0 .initiator).returned <+: (sample_received 0 Side.initiator.other).written :=
  ⟨by decide +kernel, returned_prefix_of_written sample_addr 7 (sample_received 0)
    (run_sample_received 0 (by decide +kernel)) .initiator⟩

/-- The reply to the SYN is lost, the initiator connects with the next STATE packet, whose sequence number
    is that of the first data packet, and takes this data packet for one it has already had. -/
theorem first_packet_skipped :
    Run sample_addr 7 (fun _ => True) (sample_received 1) ∧ (sample_received 1 .initiator).returned = [2] ∧
      (sample_received 1 .acceptor).written = [1, 2] ∧
      ¬(sample_received 1 .initiator).returned <+: (sample_received 1 Side.initiator.other).written :=
  ⟨run_sample_received 1 (by decide +kernel), by decide +kernel, by decide +kernel, by decide +kernel⟩

end Link

/-- What the user and the driver of a connection do, one after another. -/
def Host.acts (host : Host) : List Action → Host
  | [] => host
  | action :: actions => (host.conn.elim host (host.act · action)).acts actions

theorem Host.acts_sends {chunks : List Bytes} {host : Host} {conn : UtpConnection} (hconn : host.conn = some conn)
    (h : SendsTask False chunks host.written ⟨conn, 0, host.sent⟩) (actions : List Action) :
    ∃ more conn', (host.acts actions).conn = some conn' ∧
      SendsTask False more (host.acts actions).written ⟨conn', 0, (host.acts actions).sent⟩ := by
  induction actions generalizing chunks host conn with
  | nil => exact ⟨chunks, conn, hconn, h⟩
  | cons action actions ih =>
    obtain ⟨more, conn', -, hconn', hnext⟩ := act_sends h.sends h.speaks h.fin action
    rw [Host.acts, hconn]
    exact ih hconn' hnext

/-- Whatever is written, read and acknowledged, and whichever calls of the network fail, the bytes that a new connection
    accepts are cut once: into packets, of which every one that is in flight or was ever sent, also again, carries the
    bytes that go with its number, and what is left of them waits. -/
theorem Host.acts_cut_once (peer : SocketAddr) (send_conn_id recv_conn_id ack_number : UInt16) (peer_window : UInt32)
    (last_recv last_ack_sent : Nat) (actions : List Action) :
    let host := Host.acts ⟨some (.established peer send_conn_id recv_conn_id ack_number peer_window last_recv
      last_ack_sent), [], [], []⟩ actions
    ∃ chunks conn, host.conn = some conn ∧ Sends chunks host.written conn ∧
      ∀ datagram ∈ host.sent, Speaks chunks datagram := by
  intro host
  obtain ⟨chunks, conn, hconn, h⟩ := @Host.acts_sends [] ⟨some _, [], [], []⟩ _ rfl
    ⟨Link.sends_established peer send_conn_id recv_conn_id ack_number peer_window last_recv last_ack_sent, by simp,
      by simp⟩ actions
  exact ⟨chunks, conn, hconn, h.sends, h.speaks⟩

end swarmotter.utp

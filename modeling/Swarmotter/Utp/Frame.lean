import Swarmotter.Utp.Link

open trial (Keeps Leads Tries)

namespace swarmotter.utp

/-! What the parts of `drive` leave alone. -/

/-- The connection without what sending for the first time changes. -/
def UtpConnection.unqueued (self : UtpConnection) : UtpConnection :=
  { self with send_buf := [], seq_next := 0, in_flight := [], last_ack_sent := 0, fin_transmitted := false }

/-- The connection without what sending changes. -/
def UtpConnection.unsent (self : UtpConnection) : UtpConnection := { self.unqueued with cwnd := Ledbat.new }

/-- The connection without what the arrival of data changes. -/
def UtpConnection.unreceived (self : UtpConnection) : UtpConnection :=
  { self with recv_buf := [], ooo := [], ack_number := 0, recv_window := 0 }

/-- What has been received, and from whom. -/
def UtpConnection.received (self : UtpConnection) :
    net.SocketAddr × Nat × Nat × Bytes × Vec (UInt16 × Bytes) × Bool :=
  (self.peer, self.ack_number, self.recv_window, self.recv_buf, self.ooo, self.peer_fin)

section
variable {inv : Task → Prop} {io : Io}

/-- An invariant of the connection, whatever has been asked and sent. -/
def OnConn (p : UtpConnection → Prop) (task : Task) : Prop := p task.conn

variable {p : UtpConnection → Prop}

theorem keeps_connection : Keeps inv connection := Keeps.get _

theorem keeps_update {f : UtpConnection → UtpConnection} (h : ∀ conn, p conn → p (f conn)) :
    Keeps (OnConn p) (update f) :=
  Keeps.modify fun task => h task.conn

theorem keeps_now_micros : Keeps (OnConn p) (now_micros io) := ⟨fun _ h => h⟩

theorem keeps_now : Keeps (OnConn p) (now io) := ⟨fun _ h => h⟩

theorem keeps_send_to (seq : Nat) (bytes : Bytes) : Keeps (OnConn p) (send_to io seq bytes) := by
  constructor
  intro task htask
  unfold send_to
  split <;> exact htask

theorem keeps_send_packet (typ : UtpType) (seq : Nat) (payload : Bytes) :
    Keeps (OnConn p) (send_packet io typ seq payload) := by
  apply keeps_now_micros.bind
  intro now_ts
  apply keeps_connection.bind
  intro conn
  apply Keeps.lift_bind
  intro packet _
  exact keeps_send_to seq packet

theorem keeps_send_state : Keeps (OnConn p) (send_state io) := by
  apply keeps_connection.bind
  intro conn
  exact keeps_send_packet _ _ _

end

variable {payload : Bytes}

section
variable {io : Io}

theorem send_to_eq_ok {seq : Nat} {bytes : Bytes} {task task' : Task}
    (h : send_to io seq bytes task = (.ok (), task')) :
    task' = { task with calls := task.calls + 1, sent := task.sent ++ [⟨task.conn.peer, bytes, seq⟩] } := by
  unfold send_to at h
  split at h
  · cases h
  · cases h
    rfl

/-- What a packet that could be sent leaves behind. -/
theorem send_packet_eq_ok {typ : UtpType} {seq : Nat} {task task' : Task}
    (h : send_packet io typ seq payload task = (.ok (), task')) :
    ∃ packet now_ts,
      (task.conn.header typ now_ts seq).encode_with_extensions task.conn.ack_extensions payload = .ok packet ∧
      task'.conn = task.conn ∧ task'.sent = task.sent ++ [⟨task.conn.peer, packet, seq⟩] := by
  obtain ⟨now_ts, _, ⟨⟩, h⟩ := trial.bind_eq_ok_iff.mp h
  obtain ⟨conn, _, ⟨⟩, h⟩ := trial.bind_eq_ok_iff.mp h
  obtain ⟨packet, task₁, hencode, h⟩ := trial.bind_eq_ok_iff.mp h
  obtain ⟨hpacket, rfl⟩ := Prod.mk.inj hencode
  rw [send_to_eq_ok h]
  exact ⟨packet, _, hpacket, rfl, rfl⟩

/-- The loop of `try_send` ends when there is nothing to send or no room. -/
theorem send_loop_of_full {task : Task} {send_window in_flight_bytes : Nat}
    (h : min (min MAX_PAYLOAD task.conn.send_buf.length) (send_window - in_flight_bytes) = 0) (fuel : Nat) :
    send_loop io send_window fuel in_flight_bytes task = (.ok (), task) := by
  cases fuel with
  | zero => rfl
  | succ fuel => exact (trial.bind_of_ok rfl).trans (congrFun (if_pos h) task)

end

/-- A packet that is sent again keeps its place in flight meanwhile. -/
theorem keeps_retransmit_one {inv : Task → Prop} {io : Io} (hmicros : Keeps inv (now_micros io))
    (hsend : ∀ (task : Task) (p : InFlight) (now_ts : UInt32), inv task → p ∈ task.conn.in_flight →
      Keeps inv (send_to io p.seq ((task.conn.header .Data now_ts p.seq).encode p.payload)))
    (hset : ∀ (task : Task) (index instant : Nat) (p : InFlight), inv task → task.conn.in_flight[index]? = some p →
      inv { task with conn := { task.conn with
        in_flight := task.conn.in_flight.set index { p with sent_at := instant }
        cwnd := task.conn.cwnd.on_loss } })
    (rto instant index : Nat) : Keeps inv (retransmit_one io rto instant index) := by
  apply Leads.get_bind
  intro task htask
  cases hp : task.conn.in_flight[index]? with
  | none => exact (Keeps.pure _).start htask
  | some p =>
    let inPlace : Task → Prop := fun other =>
      inv other ∧ OnConn (fun conn => conn.in_flight = task.conn.in_flight) other
    have hforget : ∀ other, inPlace other → inv other := fun _ h => h.1
    dsimp only
    split
    · refine Leads.start ?_ (show inPlace task from ⟨htask, rfl⟩)
      have hfirst : Keeps inPlace (now_micros io) :=
        ⟨fun other hother => ⟨hmicros.final other hother.1, keeps_now_micros.final other hother.2⟩⟩
      apply hfirst.leads hforget
      intro now_ts
      have hsent := hsend task p now_ts htask (List.mem_of_getElem? hp)
      have hsecond : Keeps inPlace (send_to io p.seq ((task.conn.header .Data now_ts p.seq).encode p.payload)) :=
        ⟨fun other hother => ⟨hsent.final other hother.1, (keeps_send_to _ _).final other hother.2⟩⟩
      apply hsecond.leads hforget
      intro _
      constructor
      rintro other ⟨hother, hflight⟩
      exact hset other index instant p hother ((congrArg (·[index]?) hflight).trans hp)
    · exact (Keeps.pure _).start htask

/-- A packet whose timer is set anew stays what it is. -/
theorem map_set_in_flight {α : Type} {g : InFlight → α} {in_flight : Vec InFlight} {index : Nat} {p p' : InFlight}
    (hp : in_flight[index]? = some p) (hsame : g p' = g p) : (in_flight.set index p').map g = in_flight.map g := by
  have hget : (in_flight.map g)[index]? = some (g p) := by
    rw [List.getElem?_map, hp]
    rfl
  obtain ⟨hlt, hvalue⟩ := List.getElem?_eq_some_iff.mp hget
  rw [List.map_set, hsame, ← hvalue]
  exact List.set_getElem_self hlt

/-- An invariant that no packet which is due can break. -/
structure Spares (inv : Task → Prop) (io : Io) : Prop where
  now : Keeps inv (now io)
  send_new : ∀ n, Keeps inv (send_new io n)
  retransmit_one : ∀ rto instant index, Keeps inv (retransmit_one io rto instant index)
  send_state : Keeps inv (send_state io)
  last_ack_sent : ∀ instant, Keeps inv (update fun conn => { conn with last_ack_sent := instant })
  send_fin : Keeps inv (send_fin io)
  fin_transmitted : Keeps inv (update fun conn => { conn with fin_transmitted := true })

section
variable {inv : Task → Prop} {io : Io}

/-- An invariant of what sending leaves alone, and of what each packet says. -/
theorem Spares.of_update (hnow : Keeps inv (utp.now io))
    (hpacket : ∀ typ seq payload, Keeps inv (send_packet io typ seq payload))
    (hretransmit : ∀ rto instant index, Keeps inv (utp.retransmit_one io rto instant index))
    (hupdate : ∀ {f : UtpConnection → UtpConnection}, (∀ conn, (f conn).unqueued = conn.unqueued) →
      Keeps inv (update f)) : Spares inv io where
  now := hnow
  send_new n := by
    apply keeps_connection.bind
    intro conn
    apply Keeps.bind
    · exact hupdate fun _ => rfl
    intro _
    apply (hpacket _ _ _).bind
    intro _
    apply hnow.bind
    intro sent_at
    exact hupdate fun _ => rfl
  retransmit_one := hretransmit
  send_state := keeps_connection.bind fun _ => hpacket _ _ _
  last_ack_sent _ := hupdate fun _ => rfl
  send_fin := by
    apply keeps_connection.bind
    intro conn
    apply Keeps.bind
    · exact hupdate fun _ => rfl
    intro _
    exact hpacket _ _ _
  fin_transmitted := hupdate fun _ => rfl

theorem Spares.send_loop (h : Spares inv io) (send_window fuel in_flight_bytes : Nat) :
    Keeps inv (send_loop io send_window fuel in_flight_bytes) := by
  induction fuel generalizing in_flight_bytes with
  | zero => exact Keeps.pure ()
  | succ fuel ih =>
    apply keeps_connection.bind
    intro conn
    dsimp only
    split
    · exact Keeps.pure ()
    · apply (h.send_new _).bind
      intro _
      exact ih _

theorem Spares.try_send (h : Spares inv io) : Keeps inv (try_send io) := by
  apply keeps_connection.bind
  intro conn
  split
  · exact Keeps.pure ()
  · exact h.send_loop _ _ _

theorem keeps_retransmit (hnow : Keeps inv (now io))
    (hone : ∀ rto instant index, Keeps inv (retransmit_one io rto instant index)) : Keeps inv (retransmit io) := by
  apply keeps_connection.bind
  intro conn
  apply hnow.bind
  intro instant
  exact Keeps.for_each fun index _ => hone _ _ index

theorem keeps_maybe_send_ack (hnow : Keeps inv (now io)) (hstate : Keeps inv (send_state io))
    (hack : ∀ instant, Keeps inv (update fun conn => { conn with last_ack_sent := instant })) :
    Keeps inv (maybe_send_ack io) := by
  apply hnow.bind
  intro instant
  apply keeps_connection.bind
  intro conn
  split
  · apply hstate.bind
    intro _
    exact hack instant
  · exact Keeps.pure ()

theorem Spares.send_due (h : Spares inv io) : Keeps inv (send_due io) := by
  apply h.try_send.bind
  intro _
  apply (keeps_retransmit h.now h.retransmit_one).bind
  intro _
  apply (keeps_maybe_send_ack h.now h.send_state h.last_ack_sent).bind
  intro _
  apply keeps_connection.bind
  intro conn
  split
  · apply h.send_fin.bind
    intro _
    exact h.fin_transmitted
  · exact Keeps.pure ()

end

section
variable {io : Io} {before : UtpConnection}

/-- What has not been sent is as it was. -/
def Unsent (before : UtpConnection) : UtpConnection → Prop := fun conn => conn.unsent = before

theorem keeps_unsent_update {f : UtpConnection → UtpConnection} (h : ∀ conn, (f conn).unsent = conn.unsent) :
    Keeps (OnConn (Unsent before)) (update f) := by
  apply keeps_update
  intro conn hconn
  exact (h conn).trans hconn

theorem keeps_unsent_retransmit_one (rto instant index : Nat) :
    Keeps (OnConn (Unsent before)) (retransmit_one io rto instant index) := by
  apply keeps_retransmit_one keeps_now_micros
  · exact fun _ _ _ _ _ => keeps_send_to _ _
  · exact fun _ _ _ _ htask _ => htask

theorem spares_unsent : Spares (OnConn (Unsent before)) io :=
  Spares.of_update keeps_now keeps_send_packet keeps_unsent_retransmit_one fun h =>
    keeps_unsent_update fun conn => (congrArg UtpConnection.unsent (h conn) :)

/-- Whatever is sent, the connection hears, holds and delivers what it did. -/
theorem unsent_send_due (io : Io) (task : Task) : (send_due io task).2.conn.unsent = task.conn.unsent :=
  spares_unsent.send_due.final task rfl

end

theorem unreceived_read (conn : UtpConnection) (out_len : Nat) :
    (conn.read out_len).2.unreceived = conn.unreceived := by
  unfold UtpConnection.read
  split <;> rfl

theorem read_closed (conn : UtpConnection) (out_len : Nat) : (conn.read out_len).2.closed = conn.closed :=
  (congrArg UtpConnection.closed (unreceived_read conn out_len) :)

theorem read_local_fin_sent (conn : UtpConnection) (out_len : Nat) :
    (conn.read out_len).2.local_fin_sent = conn.local_fin_sent :=
  (congrArg UtpConnection.local_fin_sent (unreceived_read conn out_len) :)

/-- Writing changes the send buffer only. -/
theorem write_eq (conn : UtpConnection) (buf : Bytes) :
    (conn.write buf).2 = { conn with send_buf := (conn.write buf).2.send_buf } := by
  unfold UtpConnection.write
  split
  · rfl
  · split <;> rfl

theorem write_closed (conn : UtpConnection) (buf : Bytes) : (conn.write buf).2.closed = conn.closed :=
  (congrArg UtpConnection.closed (write_eq conn buf) :)

theorem write_local_fin_sent (conn : UtpConnection) (buf : Bytes) :
    (conn.write buf).2.local_fin_sent = conn.local_fin_sent :=
  (congrArg UtpConnection.local_fin_sent (write_eq conn buf) :)

theorem unreceived_handle_data (conn : UtpConnection) (seq : UInt16) (payload : Bytes) :
    (conn.handle_data seq payload).2.unreceived = conn.unreceived := by
  unfold UtpConnection.handle_data
  dsimp only
  split
  · split
    · rfl
    · rfl
  · split
    · rfl
    · rfl

variable {header : UtpHeader}

section
variable {io : Io}

/-- What a data packet makes of the connection. -/
def UtpConnection.on_data (self : UtpConnection) (header : UtpHeader) (payload : Bytes) (sack : Option Sack) :
    UtpConnection :=
  let handled := (self.ack_in_flight header.ack_number sack).handle_data header.seq_number payload
  { handled.2 with cwnd := handled.2.cwnd.on_ack }

theorem handle_typ_data (htyp : header.typ = .Data) (payload : Bytes) (sack : Option Sack) (task : Task) :
    handle_typ io header payload sack task =
      (.ok ((task.conn.ack_in_flight header.ack_number sack).handle_data header.seq_number payload).1,
        { task with conn := task.conn.on_data header payload sack }) := by
  unfold handle_typ
  rw [htyp]
  rfl

end

theorem seq_at_or_before_iff {seq ack : Nat} (h : serial.Close ack seq) :
    seq_at_or_before (serial.wrap seq) (serial.wrap ack) = true ↔ seq ≤ ack := by
  have hiff := h.wrap_sub_lt_iff
  obtain ⟨hack, hseq⟩ := h
  simp only [seq_at_or_before, Bool.or_eq_true, decide_eq_true_eq, beq_iff_eq, UInt16.lt_iff_toNat_lt]
  constructor
  · rintro (hsub | hsame)
    · exact hiff.mp hsub
    · rw [serial.wrap_inj (by omega) (by omega) hsame]
  · exact fun hle => Or.inl (hiff.mpr hle)

/-! Invariants of `drive`. -/

/-- An invariant that the changes which any packet may bring about cannot break. -/
structure Tolerates (inv : Task → Prop) (io : Io) : Prop where
  now_micros : Keeps inv (now_micros io)
  now : Keeps inv (now io)
  send_state : Keeps inv (send_state io)
  peer_window : ∀ n, Keeps inv (update fun conn => { conn with peer_window := n })
  cwnd : ∀ f : Ledbat → Ledbat, Keeps inv (update fun conn => { conn with cwnd := f conn.cwnd })
  last_recv : ∀ instant, Keeps inv (update fun conn => { conn with last_recv := instant })
  closed : Keeps inv (update fun conn => { conn with closed := true })
  acked : ∀ ack sack, Keeps inv (update fun conn => conn.ack_in_flight ack sack)

section
variable {inv : Task → Prop} {io : Io}

theorem Tolerates.on_conn {p : UtpConnection → Prop}
    (hp : ∀ conn peer_window cwnd last_recv closed, p conn → p { conn with peer_window, cwnd, last_recv, closed })
    (hacked : ∀ conn ack sack, p conn → p (conn.ack_in_flight ack sack)) : Tolerates (OnConn p) io where
  now_micros := keeps_now_micros
  now := keeps_now
  send_state := keeps_send_state
  peer_window _ := keeps_update fun conn => hp conn _ conn.cwnd conn.last_recv conn.closed
  cwnd _ := keeps_update fun conn => hp conn conn.peer_window _ conn.last_recv conn.closed
  last_recv _ := keeps_update fun conn => hp conn conn.peer_window conn.cwnd _ conn.closed
  closed := keeps_update fun conn => hp conn conn.peer_window conn.cwnd conn.last_recv _
  acked ack sack := keeps_update fun conn => hacked conn ack sack

variable {sack : Option Sack} {recv : Recv}

/-- A packet keeps the invariant if the changes that are particular to its type do. -/
theorem keeps_handle_typ (hstate : Keeps inv (utp.send_state io))
    (hacked : ∀ ack sack, Keeps inv (update fun conn => conn.ack_in_flight ack sack))
    (hon_ack : Keeps inv (update fun conn => { conn with cwnd := conn.cwnd.on_ack }))
    (hdata : header.typ = .Data → Keeps inv (update fun conn => conn.on_data header payload sack))
    (hfin : header.typ = .Fin → Keeps inv (update fun conn => conn.ack_fin header.seq_number))
    (hreset : header.typ = .Reset → Keeps inv (update fun conn => { conn with peer_fin := true, closed := true })) :
    Keeps inv (handle_typ io header payload sack) := by
  cases htyp : header.typ with
  | Data =>
    constructor
    intro task htask
    rw [handle_typ_data htyp]
    exact (hdata htyp).final task htask
  | State =>
    simp only [handle_typ, htyp]
    apply (hacked _ _).bind
    intro _
    apply hon_ack.bind
    intro _
    exact Keeps.pure _
  | Fin =>
    simp only [handle_typ, htyp]
    apply (hfin htyp).bind
    intro _
    apply hstate.bind
    intro _
    exact Keeps.pure _
  | Reset =>
    simp only [handle_typ, htyp]
    apply (hreset htyp).bind
    intro _
    exact Keeps.pure _
  | Syn =>
    simp only [handle_typ, htyp]
    apply hstate.bind
    intro _
    exact Keeps.pure _

theorem Tolerates.handle_typ (h : Tolerates inv io)
    (hdata : header.typ = .Data → Keeps inv (update fun conn => conn.on_data header payload sack))
    (hfin : header.typ = .Fin → Keeps inv (update fun conn => conn.ack_fin header.seq_number))
    (hreset : header.typ = .Reset → Keeps inv (update fun conn => { conn with peer_fin := true, closed := true })) :
    Keeps inv (handle_typ io header payload sack) :=
  keeps_handle_typ h.send_state h.acked (h.cwnd Ledbat.on_ack) hdata hfin hreset

variable {post : Task → Prop}

theorem Tolerates.handle_packet (h : Tolerates inv io) (hweaken : ∀ task, inv task → post task)
    (htyp : Leads inv post (utp.handle_typ io header payload sack)) :
    Leads inv post (handle_packet io header payload sack) := by
  apply keeps_connection.leads hweaken
  intro conn
  split
  · exact Leads.pure hweaken _
  · apply (h.peer_window _).leads hweaken
    intro _
    apply Keeps.leads _ hweaken
    · intro _
      exact htyp
    · apply h.now_micros.bind
      intro now_ts
      split
      · apply h.now.bind
        intro instant
        exact h.cwnd fun cwnd => cwnd.on_sample instant (now_ts - header.timestamp_micros)
      · exact Keeps.pure _

/-- One datagram is handled per call, so that the packet may give up for the rest of the call what the
    connection relied on before. -/
theorem Tolerates.handle_datagram (h : Tolerates inv io)
    (hclosed : Keeps post (update fun conn => { conn with closed := true }))
    (hweaken : ∀ task, inv task → post task) {bytes : Bytes}
    (hpacket : ∀ header payload sack, decode_datagram bytes = .ok (header, payload, sack) →
      Leads inv post (utp.handle_typ io header payload sack)) :
    Leads inv post (handle_datagram io bytes) := by
  unfold utp.handle_datagram
  cases hdecode : decode_datagram bytes with
  | error error => exact Leads.pure hweaken _
  | ok packet =>
    obtain ⟨header, payload, sack⟩ := packet
    apply h.now.leads hweaken
    intro instant
    apply (h.last_recv instant).leads hweaken
    intro _
    apply (h.handle_packet hweaken (hpacket header payload sack hdecode)).keep
    intro outcome
    apply keeps_connection.bind
    intro conn
    split
    · apply hclosed.bind
      intro _
      exact Keeps.pure _
    · exact Keeps.pure _

/-- What is received matters only if it comes from the peer and is understood. -/
theorem Tolerates.receive_packet (h : Tolerates inv io)
    (hclosed : Keeps post (update fun conn => { conn with closed := true }))
    (hweaken : ∀ task, inv task → post task)
    (hpacket : ∀ task source bytes, inv task → recv = .datagram source bytes → source = task.conn.peer →
      ∀ header payload sack, decode_datagram bytes = .ok (header, payload, sack) →
        Leads inv post (utp.handle_typ io header payload sack)) :
    Leads inv post (utp.receive io recv) := by
  cases recv with
  | timed_out => exact Leads.pure hweaken _
  | failed error => exact Leads.lift hweaken _
  | datagram source bytes =>
    apply Leads.get_bind
    intro task htask
    split
    · exact (Leads.pure hweaken _).start htask
    · rename_i hknown
      rw [not_or, not_not] at hknown
      exact (h.handle_datagram hclosed hweaken (hpacket task source bytes htask rfl hknown.1)).start htask

theorem Tolerates.receive (h : Tolerates inv io)
    (hpacket : ∀ header payload sack, Keeps inv (utp.handle_typ io header payload sack)) (recv : Recv) :
    Keeps inv (receive io recv) :=
  h.receive_packet h.closed (fun _ h => h) fun _ _ _ _ _ _ header payload sack _ => hpacket header payload sack

/-- A call of `drive` sends what is due and then receives, unless the connection is closed before. -/
theorem tries_drive {pre middle failed : Task → Prop} (hstart : ∀ task, pre task → post task)
    (hfailed : ∀ task, post task → failed task) (hnow : Keeps pre (utp.now io))
    (hclose : Leads pre post (update fun conn => { conn with closed := true }))
    (hsend : Tries pre (send_due io) (fun _ => middle) failed) (hmiddle : ∀ task, middle task → failed task)
    (hclose' : Leads middle post (update fun conn => { conn with closed := true }))
    (hreceive : Tries middle (utp.receive io recv) (fun _ => post) failed) :
    Tries pre (drive io recv) (fun _ => post) failed := by
  have hend : ∀ {before : Task → Prop}, Leads before post (update fun conn => { conn with closed := true }) →
      Tries before (do update fun conn => { conn with closed := true }; pure false : UtpM Bool)
        (fun _ => post) failed :=
    fun h => (h.keep fun _ => Keeps.pure _).tries hfailed
  have hpre : ∀ task, pre task → failed task := fun task htask => hfailed task (hstart task htask)
  apply (keeps_connection.tries hpre).bind
  intro conn
  split
  · exact Tries.pure hstart
  · apply (hnow.tries hpre).bind
    intro instant
    split
    · exact hend hclose
    · apply hsend.bind
      intro _
      apply (keeps_connection.tries hmiddle).bind
      intro conn
      split
      · exact hend hclose'
      · exact hreceive

theorem Tolerates.drive (h : Tolerates inv io) (hweaken : ∀ task, inv task → post task)
    (hsend : Keeps inv (send_due io)) (hreceive : Leads inv post (utp.receive io recv)) :
    Leads inv post (drive io recv) := by
  have hclosed : Leads inv post (update fun conn => { conn with closed := true }) :=
    ⟨fun task htask => hweaken _ (h.closed.final task htask)⟩
  exact (tries_drive hweaken (fun _ h => h) h.now hclosed (hsend.tries hweaken) hweaken hclosed
    (hreceive.tries fun _ h => h)).leads

end

section
variable {io : Io}

/-- Only the user closes the sending side. -/
def FinRequested (requested : Bool) : UtpConnection → Prop := fun conn => conn.local_fin_sent = requested

variable {requested : Bool}

theorem tolerates_fin_requested : Tolerates (OnConn (FinRequested requested)) io :=
  .on_conn (fun _ _ _ _ _ => id) fun _ _ _ => id

theorem keeps_fin_requested_drive (recv : Recv) : Keeps (OnConn (FinRequested requested)) (drive io recv) := by
  apply tolerates_fin_requested.drive (fun _ h => h)
  · constructor
    intro task htask
    exact (congrArg UtpConnection.local_fin_sent (unsent_send_due io task) :).trans htask
  · apply tolerates_fin_requested.receive
    intro header payload sack
    apply tolerates_fin_requested.handle_typ
    · intro _
      exact keeps_update fun conn hconn => (congrArg UtpConnection.local_fin_sent
        (unreceived_handle_data (conn.ack_in_flight header.ack_number sack) header.seq_number payload)).trans hconn
    · intro _
      exact keeps_update fun _ => id
    · intro _
      exact keeps_update fun _ => id

end

end swarmotter.utp

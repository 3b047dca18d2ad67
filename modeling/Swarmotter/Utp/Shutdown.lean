import Swarmotter.Utp.Ordered

open swarmotter.net
open trial (Keeps Leads EndsIn Tries)

namespace swarmotter.utp

/-! What has become of the bytes of a connection when it is marked closed. -/

/-- The bytes that the peer has not acknowledged. -/
def UtpConnection.outstanding (self : UtpConnection) : Bytes :=
  (self.in_flight.map InFlight.payload).flatten ++ self.send_buf

/-- The chunk has been sent in a data packet with its number. -/
def Transmitted (sent : List Datagram) (i : Nat) (payload : Bytes) : Prop :=
  ∃ datagram ∈ sent, ∃ header extensions,
    UtpHeader.decode_with_extensions (datagram.bytes.take 2048) = .ok (header, extensions, payload) ∧
      header.typ = .Data ∧ header.seq_number = serial.wrap (2 + i)

/-- What was cut has been sent, with `out` left to be acknowledged. The FIN is behind the last byte. -/
structure Accounted (closed : Bool) (out written : Bytes) (task : Task) : Prop where
  closed_eq : task.conn.closed = closed
  outstanding : task.conn.outstanding = out
  fin : task.conn.fin_transmitted = true → task.conn.send_buf = [] ∧ task.conn.local_fin_sent = true
  sent : ∃ chunks, Sends chunks written task.conn ∧
    ∀ i payload, chunks[i]? = some payload → Transmitted task.sent i payload

variable {payload : Bytes}

theorem Transmitted.mono {sent sent' : List Datagram} {i : Nat} (h : Transmitted sent i payload)
    (hsub : ∀ datagram ∈ sent, datagram ∈ sent') : Transmitted sent' i payload := by
  obtain ⟨datagram, hdatagram, hdecodes⟩ := h
  exact ⟨datagram, hsub datagram hdatagram, hdecodes⟩

variable {f : UtpConnection → UtpConnection} {recv : Recv}

section
variable {closed : Bool} {out written : Bytes} {io : Io}

theorem closed_of_accounted (task : Task) (h : Accounted closed out written task) :
    OnConn (fun conn => conn.closed = closed) task :=
  h.closed_eq

theorem keeps_accounted_now_micros : Keeps (Accounted closed out written) (now_micros io) :=
  ⟨fun _ h => ⟨h.1, h.2, h.3, h.4⟩⟩

theorem keeps_accounted_now : Keeps (Accounted closed out written) (now io) :=
  ⟨fun _ h => ⟨h.1, h.2, h.3, h.4⟩⟩

theorem keeps_accounted_send_to (seq : Nat) (bytes : Bytes) :
    Keeps (Accounted closed out written) (send_to io seq bytes) := by
  constructor
  intro task htask
  unfold send_to
  split
  · exact ⟨htask.closed_eq, htask.outstanding, htask.fin, htask.sent⟩
  · obtain ⟨chunks, hsends, hsent⟩ := htask.sent
    refine ⟨htask.closed_eq, htask.outstanding, htask.fin, chunks, hsends, fun i payload hchunk => ?_⟩
    exact (hsent i payload hchunk).mono fun _ => List.mem_append_left _

theorem keeps_accounted_send_packet (typ : UtpType) (seq : Nat) (payload : Bytes) :
    Keeps (Accounted closed out written) (send_packet io typ seq payload) := by
  apply keeps_accounted_now_micros.bind
  intro now_ts
  apply keeps_connection.bind
  intro conn
  apply Keeps.lift_bind
  intro packet _
  exact keeps_accounted_send_to seq packet

theorem keeps_accounted_send_state : Keeps (Accounted closed out written) (send_state io) := by
  apply keeps_connection.bind
  intro conn
  exact keeps_accounted_send_packet _ _ _

/-- The same, with a property that the connection has as long as it is only sent from. -/
structure AccountedWith (p : UtpConnection → Prop) (closed : Bool) (out written : Bytes) (task : Task) : Prop where
  accounted : Accounted closed out written task
  holds : OnConn p task

theorem keeps_accounted_with {α : Type} {p : UtpConnection → Prop} {op : UtpM α}
    (h : Keeps (Accounted closed out written) op) (hp : Keeps (OnConn p) op) :
    Keeps (AccountedWith p closed out written) op :=
  ⟨fun task htask => ⟨h.final task htask.accounted, hp.final task htask.holds⟩⟩

/-- The connection may be marked closed, with the same bytes outstanding. -/
theorem Accounted.congr {closed' : Bool} {task : Task} {conn : UtpConnection} (h : Accounted closed out written task)
    (hclosed : conn.closed = closed') (heq : conn.to_send = task.conn.to_send) :
    Accounted closed' out written { task with conn } := by
  obtain ⟨chunks, hsends, hsent⟩ := h.sent
  have hsends := hsends.congr heq
  simp only [UtpConnection.to_send, Prod.mk.injEq] at heq
  obtain ⟨hbuf, hflight, -, hlocal, htransmitted⟩ := heq
  refine ⟨hclosed, ?_, ?_, chunks, hsends, hsent⟩
  · rw [← h.outstanding, UtpConnection.outstanding, UtpConnection.outstanding, hflight, hbuf]
  · dsimp only
    rw [hbuf, hlocal, htransmitted]
    exact h.fin

/-- A change that does not touch the sending side. -/
theorem keeps_accounted_update (hclosed : ∀ conn, (f conn).closed = conn.closed)
    (h : ∀ conn, (f conn).to_send = conn.to_send) : Keeps (Accounted closed out written) (update f) :=
  Keeps.modify fun task htask => htask.congr ((hclosed task.conn).trans htask.closed_eq) (h task.conn)

theorem keeps_accounted_retransmit_one (rto instant index : Nat) :
    Keeps (Accounted closed out written) (retransmit_one io rto instant index) := by
  apply keeps_retransmit_one keeps_accounted_now_micros
  · exact fun _ _ _ _ _ => keeps_accounted_send_to _ _
  · intro task index instant p htask hp
    obtain ⟨chunks, hsends, hsent⟩ := htask.sent
    have hcarries := hsends.in_flight p (List.mem_of_getElem? hp)
    refine ⟨htask.closed_eq, ?_, htask.fin, chunks, hsends.set_in_flight hcarries index instant _, hsent⟩
    have hpayloads := @map_set_in_flight _ InFlight.payload _ _ _ { p with sent_at := instant } hp rfl
    exact (congrArg (fun payloads => payloads.flatten ++ task.conn.send_buf) hpayloads).trans htask.outstanding

theorem keeps_accounted_last_ack_sent (instant : Nat) :
    Keeps (Accounted closed out written) (update fun conn => { conn with last_ack_sent := instant }) :=
  keeps_accounted_update (fun _ => rfl) fun _ => rfl

/-- The FIN is sent when the send buffer is empty, whatever is in flight. -/
theorem keeps_accounted_maybe_send_fin : Keeps (Accounted closed out written) (maybe_send_fin io) := by
  apply Leads.get_bind
  intro task htask
  split
  · rename_i hdone
    obtain ⟨hlocal, -, hbuf⟩ := hdone
    obtain ⟨chunks, hsends, hsent⟩ := htask.sent
    have hnumbered : AccountedWith (fun conn => conn.send_buf = [] ∧ conn.local_fin_sent = true) closed out written
        { task with conn := { task.conn with seq_next := task.conn.seq_next + 1 } } := by
      refine ⟨⟨htask.closed_eq, htask.outstanding, htask.fin, chunks, ?_, hsent⟩, hbuf, hlocal⟩
      refine { hsends with next_ge := ?_, after_fin := fun _ => ⟨hbuf, hlocal⟩ }
      have := hsends.next_ge
      dsimp only
      omega
    have hfin : EndsIn (AccountedWith (fun conn => conn.send_buf = [] ∧ conn.local_fin_sent = true) closed out written)
        task (send_fin io) := by
      apply EndsIn.get_bind
      apply EndsIn.modify_bind
      exact (keeps_accounted_with (keeps_accounted_send_packet _ _ _) (keeps_send_packet _ _ _)).start hnumbered
    apply hfin.bind fun _ h => h.accounted
    intro _
    constructor
    rintro other ⟨hother, hempty⟩
    obtain ⟨chunks, hsends, hsent⟩ := hother.sent
    exact ⟨hother.closed_eq, hother.outstanding, fun _ => hempty, chunks, { hsends with }, hsent⟩
  · exact (Keeps.pure _).start htask

/-- Sending does not close the connection. -/
theorem leads_closed_send_new (n : Nat) :
    Leads (Accounted closed out written) (OnConn fun conn => conn.closed = closed) (send_new io n) := by
  constructor
  intro task htask
  have hunsent := ((@spares_unsent io task.conn.unsent).send_new n).final task rfl
  exact ((congrArg UtpConnection.closed hunsent :)).trans htask.closed_eq

variable {task : Task}

/-- A new packet moves its bytes from the send buffer to those in flight. -/
theorem Accounted.send_new {n : Nat} {task' : Task} (htask : Accounted closed out written task) (hpos : 0 < n)
    (hshort : n ≤ MAX_PAYLOAD) (hn : n ≤ task.conn.send_buf.length) (h : utp.send_new io n task = (.ok (), task')) :
    Accounted closed out written task' := by
  obtain ⟨_, _, ⟨⟩, h⟩ := trial.bind_eq_ok_iff.mp h
  obtain ⟨_, _, ⟨⟩, h⟩ := trial.bind_eq_ok_iff.mp h
  obtain ⟨⟨⟩, task₁, hsend, h⟩ := trial.bind_eq_ok_iff.mp h
  obtain ⟨sent_at, _, ⟨⟩, h⟩ := trial.bind_eq_ok_iff.mp h
  cases h
  obtain ⟨packet, now_ts, hencode, hconn, hsent'⟩ := send_packet_eq_ok hsend
  obtain ⟨chunks, hsends, hsent⟩ := htask.sent
  obtain ⟨hnext, hcut⟩ := hsends.take_payload hpos hshort hn
  have hcarries : Carries (chunks ++ [task.conn.send_buf.take n]) task.conn.seq_next (task.conn.send_buf.take n) :=
    ⟨chunks.length, hnext, by simp⟩
  refine ⟨?_, ?_, ?_, chunks ++ [task.conn.send_buf.take n], ?_, ?_⟩
  · simp only [hconn]
    exact htask.closed_eq
  · rw [← htask.outstanding]
    simp [UtpConnection.outstanding, hconn, UtpConnection.take_payload]
  · simp only [hconn]
    intro hdone
    have hempty := (htask.fin hdone).1
    rw [hempty, List.length_nil] at hn
    omega
  · simp only [hconn]
    exact hcut.push_in_flight hcarries _
  · intro i payload hchunk
    simp only [hsent']
    rcases Nat.lt_or_ge i chunks.length with hold | hnew
    · rw [List.getElem?_append_left hold] at hchunk
      exact (hsent i payload hchunk).mono fun _ => List.mem_append_left _
    · rw [List.getElem?_append_right hnew, List.getElem?_singleton] at hchunk
      obtain ⟨hzero, hpayload⟩ := Option.ite_none_right_eq_some.mp hchunk
      obtain rfl := Option.some.inj hpayload
      have hi : i = chunks.length := by omega
      refine ⟨_, List.mem_append_right _ List.mem_cons_self, _, _, decode_take_of_encode rfl hencode
        (length_ack_extensions _) ((List.length_take_le _ _).trans hshort), rfl, ?_⟩
      rw [hi, ← hnext]
      rfl

theorem tries_accounted_send_loop (send_window fuel in_flight_bytes : Nat) :
    Tries (Accounted closed out written) (send_loop io send_window fuel in_flight_bytes)
      (fun _ => Accounted closed out written) (OnConn fun conn => conn.closed = closed) := by
  induction fuel generalizing in_flight_bytes with
  | zero => exact Tries.pure fun _ h => h
  | succ fuel ih =>
    apply Tries.get_bind
    intro task htask
    dsimp only
    split
    · exact (Tries.pure fun _ h => h).start htask
    · rename_i hpos
      refine Tries.bind ⟨?_, ?_⟩ fun _ => ih _
      · rintro _ ⟨⟩ task' rfl hsend
        exact htask.send_new (by omega) (by omega) (by omega) hsend
      · rintro _ error task' rfl hsend
        exact (leads_closed_send_new _).of_eq htask hsend

theorem tries_accounted_try_send :
    Tries (Accounted closed out written) (try_send io) (fun _ => Accounted closed out written)
      (OnConn fun conn => conn.closed = closed) := by
  apply (keeps_connection.tries closed_of_accounted).bind
  intro conn
  split
  · exact Tries.pure fun _ h => h
  · exact tries_accounted_send_loop _ _ _

/-- What is due is sent, or the call fails and the connection is as open as it was. -/
theorem tries_accounted_send_due :
    Tries (Accounted closed out written) (send_due io) (fun _ => Accounted closed out written)
      (OnConn fun conn => conn.closed = closed) := by
  have hretransmit : Keeps (Accounted closed out written) (retransmit io) :=
    keeps_retransmit keeps_accounted_now keeps_accounted_retransmit_one
  have hack : Keeps (Accounted closed out written) (maybe_send_ack io) :=
    keeps_maybe_send_ack keeps_accounted_now keeps_accounted_send_state keeps_accounted_last_ack_sent
  apply tries_accounted_try_send.bind
  intro _
  apply (hretransmit.tries closed_of_accounted).bind
  intro _
  apply (hack.tries closed_of_accounted).bind
  intro _
  exact keeps_accounted_maybe_send_fin.tries closed_of_accounted

theorem handle_data_not_closed (conn : UtpConnection) (seq : UInt16) (payload : Bytes) :
    (conn.handle_data seq payload).1 ≠ .Closed := by
  unfold UtpConnection.handle_data
  dsimp only
  split
  · split <;> simp
  · split <;> simp

/-- A packet other than a FIN may acknowledge bytes, but does not let the connection close. -/
theorem tries_accounted_handle_typ {header : UtpHeader} {sack : Option Sack} (hreset : header.typ ≠ .Reset) :
    Tries (Accounted false out written) (handle_typ io header payload sack)
      (fun outcome task => task.conn.closed = false ∧ (outcome = .Closed → Accounted false out written task))
      (OnConn fun conn => conn.closed = false) := by
  cases htyp : header.typ with
  | Data =>
    constructor
    · intro task outcome task' htask hrun
      rw [handle_typ_data htyp] at hrun
      obtain ⟨houtcome, rfl⟩ := Prod.mk.inj hrun
      obtain rfl := Except.ok.inj houtcome
      refine ⟨?_, fun hdone => absurd hdone (handle_data_not_closed _ _ _)⟩
      exact ((congrArg UtpConnection.closed (unreceived_handle_data _ header.seq_number payload) :)).trans
        htask.closed_eq
    · intro task error task' htask hrun
      rw [handle_typ_data htyp] at hrun
      cases hrun
  | State =>
    simp only [handle_typ, htyp]
    constructor
    · rintro task _ _ htask ⟨⟩
      exact ⟨htask.closed_eq, by simp⟩
    · rintro task _ _ htask ⟨⟩
  | Fin =>
    simp only [handle_typ, htyp]
    have hfin : Keeps (Accounted false out written) (update fun conn => conn.ack_fin header.seq_number) :=
      keeps_accounted_update (fun _ => rfl) fun _ => rfl
    apply (hfin.tries closed_of_accounted).bind
    intro _
    apply (keeps_accounted_send_state.tries closed_of_accounted).bind
    intro _
    exact Tries.pure fun _ h => ⟨h.closed_eq, fun _ => h⟩
  | Reset => exact absurd htyp hreset
  | Syn =>
    simp only [handle_typ, htyp]
    apply (keeps_accounted_send_state.tries closed_of_accounted).bind
    intro _
    exact Tries.pure fun _ h => ⟨h.closed_eq, by simp⟩

theorem tries_accounted_handle_packet {header : UtpHeader} {sack : Option Sack} (hreset : header.typ ≠ .Reset) :
    Tries (Accounted false out written) (handle_packet io header payload sack)
      (fun outcome task => task.conn.closed = false ∧ (outcome = .Closed → Accounted false out written task))
      (OnConn fun conn => conn.closed = false) := by
  have hsample : Keeps (Accounted false out written) (sample_delay io header) := by
    apply keeps_accounted_now_micros.bind
    intro now_ts
    split
    · apply keeps_accounted_now.bind
      intro instant
      exact keeps_accounted_update (fun _ => rfl) fun _ => rfl
    · exact Keeps.pure _
  have hwindow : Keeps (Accounted false out written)
      (update fun conn => { conn with peer_window := header.window_size.toNat }) :=
    keeps_accounted_update (fun _ => rfl) fun _ => rfl
  apply (keeps_connection.tries closed_of_accounted).bind
  intro conn
  split
  · exact Tries.pure fun _ h => ⟨h.closed_eq, by simp⟩
  · apply (hwindow.tries closed_of_accounted).bind
    intro _
    apply (hsample.tries closed_of_accounted).bind
    intro _
    exact tries_accounted_handle_typ hreset

/-- A connection that is marked closed has sent its FIN. -/
structure ClosedBehind (out written : Bytes) (task : Task) : Prop where
  accounted : Accounted true out written task
  send_buf : task.conn.send_buf = []

theorem ClosedBehind.of_fin (h : Accounted false out written task) (hfin : task.conn.fin_transmitted = true) :
    ClosedBehind out written { task with conn := { task.conn with closed := true } } :=
  ⟨h.congr rfl rfl, (h.fin hfin).1⟩

theorem ClosedBehind.of_open (hopen : task.conn.closed = false) (hclosed : task.conn.closed = true) :
    ClosedBehind out written task :=
  absurd (hopen.symm.trans hclosed) (by decide)

theorem tries_accounted_handle_datagram {bytes : Bytes}
    (hreset : ∀ header payload sack, decode_datagram bytes = .ok (header, payload, sack) → header.typ ≠ .Reset) :
    Tries (Accounted false out written) (handle_datagram io bytes)
      (fun _ task => task.conn.closed = true → ClosedBehind out written task)
      (OnConn fun conn => conn.closed = false) := by
  unfold handle_datagram
  cases hdecode : decode_datagram bytes with
  | error error => exact Tries.pure fun _ h => .of_open h.closed_eq
  | ok packet =>
    obtain ⟨header, payload, sack⟩ := packet
    have hrecv (instant : Nat) : Keeps (Accounted false out written)
        (update fun conn => { conn with last_recv := instant }) :=
      keeps_accounted_update (fun _ => rfl) fun _ => rfl
    apply (keeps_accounted_now.tries closed_of_accounted).bind
    intro instant
    apply ((hrecv instant).tries closed_of_accounted).bind
    intro _
    apply (tries_accounted_handle_packet (hreset header payload sack hdecode)).bind
    intro outcome
    apply Tries.get_bind
    rintro task ⟨hfalse, haccounted⟩
    split
    · rename_i hdone
      constructor
      · rintro _ _ _ rfl ⟨⟩ -
        exact ClosedBehind.of_fin (haccounted hdone.1) hdone.2.2
      · rintro _ _ _ rfl ⟨⟩
    · refine Tries.pure ?_
      rintro _ rfl
      exact .of_open hfalse

theorem tries_accounted_receive {peer : SocketAddr}
    (hreset : ∀ bytes header payload sack, recv = .datagram peer bytes → decode_datagram bytes = .ok (header, payload,
      sack) → header.typ ≠ .Reset) :
    Tries (AccountedWith (fun conn => conn.peer = peer) false out written) (receive io recv)
      (fun _ task => task.conn.closed = true → ClosedBehind out written task)
      (OnConn fun conn => conn.closed = false) := by
  cases recv with
  | timed_out => exact Tries.pure fun _ h => .of_open h.accounted.closed_eq
  | failed error =>
    constructor
    · rintro task _ _ htask ⟨⟩
    · rintro task _ _ htask ⟨⟩
      exact htask.accounted.closed_eq
  | datagram source bytes =>
    apply Tries.get_bind
    intro task htask
    split
    · refine Tries.pure ?_
      rintro _ rfl
      exact .of_open htask.accounted.closed_eq
    · rename_i hknown
      rw [not_or, not_not, htask.holds] at hknown
      refine (tries_accounted_handle_datagram ?_).start htask.accounted
      intro header payload sack hdecode
      exact hreset bytes header payload sack (by rw [hknown.1]) hdecode

theorem tries_accounted_with_send_due {peer : SocketAddr} :
    Tries (AccountedWith (fun conn => conn.peer = peer) closed out written) (send_due io)
      (fun _ => AccountedWith (fun conn => conn.peer = peer) closed out written)
      (OnConn fun conn => conn.closed = closed) := by
  constructor
  · intro task _ task' htask hrun
    have hunsent := unsent_send_due io task
    rw [hrun] at hunsent
    exact ⟨tries_accounted_send_due.ok task _ task' htask.accounted hrun,
      ((congrArg UtpConnection.peer hunsent :)).trans htask.holds⟩
  · intro task error task' htask hrun
    exact tries_accounted_send_due.error task error task' htask.accounted hrun

/-- What `drive` does with a connection that is open and has not been idle for too long. -/
def drive_open (io : Io) (recv : Recv) : UtpM Bool := do
  send_due io
  let conn ← connection
  if conn.peer_fin ∧ conn.recv_buf = [] ∧ conn.local_fin_sent ∧ conn.fin_transmitted then do
    update fun conn => { conn with closed := true }
    pure false
  else receive io recv

theorem drive_of_open (hopen : task.conn.closed = false)
    (hidle : io.instant task.calls - task.conn.last_recv ≤ IDLE_TIMEOUT) :
    drive io recv task = drive_open io recv { task with calls := task.calls + 1 } := by
  unfold drive
  rw [trial.bind_of_ok (show connection task = (.ok task.conn, task) from rfl), if_neg (by simp [hopen]),
    trial.bind_of_ok (show now io task = (.ok (io.instant task.calls), { task with calls := task.calls + 1 }) from rfl),
    if_neg (by omega)]
  rfl

/-- One call of `drive` without a RESET and an idle timeout. If it marks the connection closed, the FIN has
    been sent and nothing that was outstanding before has been acknowledged. -/
theorem Accounted.drive_closed (htask : Accounted false out written task)
    (hidle : io.instant task.calls - task.conn.last_recv ≤ IDLE_TIMEOUT)
    (hreset : ∀ bytes header payload sack, recv = .datagram task.conn.peer bytes → decode_datagram bytes = .ok
      (header, payload, sack) → header.typ ≠ .Reset) (hclosed : (utp.drive io recv task).2.conn.closed = true) :
    ClosedBehind out written (utp.drive io recv task).2 := by
  have hdrive : Tries (AccountedWith (fun conn => conn.peer = task.conn.peer) false out written)
      (drive_open io recv) (fun _ task' => task'.conn.closed = true → ClosedBehind out written task')
      (OnConn fun conn => conn.closed = false) := by
    apply tries_accounted_with_send_due.bind
    intro _
    apply Tries.get_bind
    intro other hother
    split
    · rename_i hdone
      constructor
      · rintro _ _ _ rfl ⟨⟩ -
        exact ClosedBehind.of_fin hother.accounted hdone.2.2.2
      · rintro _ _ _ rfl ⟨⟩
    · exact (tries_accounted_receive hreset).start hother
  have hstart : AccountedWith (fun conn => conn.peer = task.conn.peer) false out written
      { task with calls := task.calls + 1 } :=
    ⟨⟨htask.closed_eq, htask.outstanding, htask.fin, htask.sent⟩, rfl⟩
  rcases hrun : utp.drive io recv task with ⟨error | alive, task'⟩
  all_goals rw [hrun] at hclosed; rw [drive_of_open htask.closed_eq hidle] at hrun
  · cases (hdrive.error _ error task' hstart hrun).symm.trans hclosed
  · exact hdrive.ok _ alive task' hstart hrun hclosed

end

/-! Whole runs. -/

/-- What was cut has been sent, whatever has been acknowledged of it. -/
def Kept (written : Bytes) (task : Task) : Prop := ∃ closed out, Accounted closed out written task

section
variable {written : Bytes} {io : Io}

theorem keeps_kept {α : Type} {op : UtpM α} (h : ∀ closed out, Keeps (Accounted closed out written) op) :
    Keeps (Kept written) op := by
  constructor
  rintro task ⟨closed, out, htask⟩
  exact ⟨closed, out, (h closed out).final task htask⟩

theorem keeps_kept_update (h : ∀ conn, (f conn).to_send = conn.to_send) : Keeps (Kept written) (update f) := by
  constructor
  rintro task ⟨closed, out, htask⟩
  exact ⟨_, out, htask.congr rfl (h task.conn)⟩

/-- An acknowledgement may take packets from those in flight. -/
theorem keeps_kept_acked {ack : UInt16} {sack : Option Sack}
    (h : ∀ conn, (f conn).to_send = (conn.ack_in_flight ack sack).to_send) : Keeps (Kept written) (update f) := by
  constructor
  rintro task ⟨closed, out, htask⟩
  obtain ⟨chunks, hsends, hsent⟩ := htask.sent
  have hacked : Accounted closed (task.conn.ack_in_flight ack sack).outstanding written
      { task with conn := task.conn.ack_in_flight ack sack } :=
    ⟨htask.closed_eq, rfl, htask.fin, chunks, hsends.ack_in_flight ack sack, hsent⟩
  exact ⟨_, _, hacked.congr rfl (h task.conn)⟩

theorem tolerates_kept (io : Io) : Tolerates (Kept written) io where
  now_micros := keeps_kept fun _ _ => keeps_accounted_now_micros
  now := keeps_kept fun _ _ => keeps_accounted_now
  send_state := keeps_kept fun _ _ => keeps_accounted_send_state
  peer_window _ := keeps_kept_update fun _ => rfl
  cwnd _ := keeps_kept_update fun _ => rfl
  last_recv _ := keeps_kept_update fun _ => rfl
  closed := keeps_kept_update fun _ => rfl
  acked _ _ := keeps_kept_acked fun _ => rfl

theorem keeps_kept_handle_typ (header : UtpHeader) (payload : Bytes) (sack : Option Sack) :
    Keeps (Kept written) (handle_typ io header payload sack) := by
  apply (tolerates_kept io).handle_typ
  · intro _
    exact keeps_kept_acked fun conn => (congrArg UtpConnection.to_send
      (unreceived_handle_data (conn.ack_in_flight header.ack_number sack) header.seq_number payload) :)
  · intro _
    exact keeps_kept_update fun _ => rfl
  · intro _
    exact keeps_kept_update fun _ => rfl

theorem tries_kept_drive (recv : Recv) :
    Tries (Kept written) (drive io recv) (fun _ => Kept written) (fun _ => True) := by
  have hsend : Tries (Kept written) (send_due io) (fun _ => Kept written) (fun _ => True) := by
    constructor
    · rintro task _ task' ⟨closed, out, htask⟩ hrun
      exact ⟨closed, out, tries_accounted_send_due.ok task _ task' htask hrun⟩
    · exact fun _ _ _ _ _ => trivial
  have hkept : Tolerates (Kept written) io := tolerates_kept io
  exact tries_drive (fun _ h => h) (fun _ _ => trivial) hkept.now hkept.closed hsend
    (fun _ _ => trivial) hkept.closed ((hkept.receive keeps_kept_handle_typ recv).tries fun _ _ => trivial)

end

/-- Whether the datagram is understood as a RESET. -/
def is_reset (bytes : Bytes) : Bool :=
  match decode_datagram bytes with
  | .ok (header, _, _) => header.typ == .Reset
  | .error _ => false

/-- An action that is not disturbed by an idle timeout or a RESET of the peer. -/
def Action.Quiet (conn : UtpConnection) : Action → Prop
  | .drive io recv =>
    io.instant 0 - conn.last_recv ≤ IDLE_TIMEOUT ∧
      match recv with
      | .datagram source bytes => source = conn.peer → is_reset bytes = false
      | _ => True
  | _ => True

instance (conn : UtpConnection) : DecidablePred (Action.Quiet conn)
  | .drive _ (.datagram source _) => inferInstanceAs (Decidable (_ ∧ (source = conn.peer → _)))
  | .drive _ .timed_out => inferInstanceAs (Decidable (_ ∧ True))
  | .drive _ (.failed _) => inferInstanceAs (Decidable (_ ∧ True))
  | .write _ => inferInstanceAs (Decidable True)
  | .read _ => inferInstanceAs (Decidable True)
  | .close => inferInstanceAs (Decidable True)

theorem Action.Quiet.no_reset {conn : UtpConnection} {io : Io} (h : (Action.drive io recv).Quiet conn) :
    ∀ bytes header payload sack, recv = .datagram conn.peer bytes →
      decode_datagram bytes = .ok (header, payload, sack) → header.typ ≠ .Reset := by
  rintro bytes header payload sack rfl hdecode
  have hreset := h.2 rfl
  simpa [is_reset, hdecode] using hreset

/-- An action that is not a failing call of `drive`. -/
def Action.succeeds (host : Host) (conn : UtpConnection) : Action → Bool
  | .drive io recv => (utp.drive io recv { conn, calls := 0, sent := host.sent }).1.isOk
  | _ => true

namespace Host

/-- A host right after the handshake. -/
def connected (conn : UtpConnection) (sent : List Datagram) : Host := ⟨some conn, sent, [], []⟩

/-- The states that a host reaches. A call of `drive` that fails ends the run. -/
inductive Reaches (start : Host) : Host → Prop
  | start : Reaches start start
  | act {host : Host} {conn : UtpConnection} (hreaches : Reaches start host) (action : Action)
      (hconn : host.conn = some conn) (hquiet : action.Quiet conn) (hsucceeds : action.succeeds host conn = true) :
      Reaches start (host.act conn action)

/-- Every byte that was accepted has been sent, in data packets with consecutive numbers. -/
def AllSent (host : Host) : Prop :=
  ∃ chunks : List Bytes, host.written = chunks.flatten ∧
    ∀ i payload, chunks[i]? = some payload → Transmitted host.sent i payload

/-- What was cut at a host has been sent. -/
def Keeping (host : Host) : Prop := ∀ conn ∈ host.conn, Kept host.written { conn, calls := 0, sent := host.sent }

section
variable {start host : Host} {conn : UtpConnection}

/-- Nothing is accepted after the FIN. -/
theorem fin_write (h : conn.fin_transmitted = true → conn.send_buf = [] ∧ conn.local_fin_sent = true) (buf : Bytes) :
    (conn.write buf).2.fin_transmitted = true →
      (conn.write buf).2.send_buf = [] ∧ (conn.write buf).2.local_fin_sent = true := by
  unfold UtpConnection.write
  split
  · exact h
  · rename_i hopen
    split
    · exact h
    · intro hdone
      exact absurd (Or.inl (h hdone).2) hopen

theorem keeping_act (h : host.Keeping) (hconn : host.conn = some conn) (action : Action)
    (hsucceeds : action.succeeds host conn = true) : (host.act conn action).Keeping := by
  have hkept := h conn hconn
  obtain ⟨closed, out, haccounted⟩ := h conn hconn
  obtain ⟨chunks, hsends, hsent⟩ := haccounted.sent
  cases action with
  | write buf =>
    rintro _ ⟨⟩
    exact ⟨_, _, rfl, rfl, fin_write haccounted.fin buf, chunks, hsends.write buf, hsent⟩
  | read out_len =>
    rintro _ ⟨⟩
    exact ⟨_, _, haccounted.congr rfl (congrArg UtpConnection.to_send (unreceived_read conn out_len) :)⟩
  | close =>
    rintro _ ⟨⟩
    exact ⟨_, _, rfl, rfl, fun hdone => ⟨(haccounted.fin hdone).1, rfl⟩, chunks,
      { hsends with after_fin := fun hne => ⟨(hsends.after_fin hne).1, rfl⟩ }, hsent⟩
  | drive io recv =>
    rintro _ ⟨⟩
    dsimp only [Action.succeeds] at hsucceeds
    rcases hrun : utp.drive io recv { conn, calls := 0, sent := host.sent } with ⟨error | alive, task'⟩
    · rw [hrun] at hsucceeds
      cases hsucceeds
    · obtain ⟨closed', out', hafter⟩ := (tries_kept_drive recv).ok _ alive task' hkept hrun
      simp only [act, hrun]
      exact ⟨closed', out', hafter.closed_eq, hafter.outstanding, hafter.fin, hafter.sent⟩

theorem Reaches.keeping (h : Reaches start host) (hstart : start.Keeping) : host.Keeping := by
  induction h with
  | start => exact hstart
  | act hreaches action hconn hquiet hsucceeds ih => exact keeping_act ih hconn action hsucceeds

theorem keeping_connected (peer : SocketAddr) (send_conn_id recv_conn_id ack_number : UInt16) (peer_window : UInt32)
    (last_recv last_ack_sent : Nat) (sent : List Datagram) :
    (connected (UtpConnection.established peer send_conn_id recv_conn_id ack_number peer_window last_recv last_ack_sent)
      sent).Keeping := by
  rintro _ ⟨⟩
  refine ⟨_, _, rfl, rfl, by simp [UtpConnection.established], [], Link.sends_established .., ?_⟩
  intro i payload hchunk
  simp at hchunk

end

/-- No packet in flight is empty. -/
theorem outstanding_eq_nil_iff {chunks : List Bytes} {written : Bytes} {conn : UtpConnection}
    (h : Sends chunks written conn) : conn.outstanding = [] ↔ conn.send_buf = [] ∧ conn.in_flight = [] := by
  rw [UtpConnection.outstanding, List.append_eq_nil_iff, List.flatten_eq_nil_iff]
  constructor
  · rintro ⟨hpayloads, hbuf⟩
    refine ⟨hbuf, List.eq_nil_iff_forall_not_mem.mpr fun p hp => ?_⟩
    obtain ⟨i, -, hchunk⟩ := h.in_flight p hp
    exact (h.short p.payload (List.mem_of_getElem? hchunk)).1 (hpayloads p.payload (List.mem_map_of_mem hp))
  · rintro ⟨hbuf, hflight⟩
    rw [hflight]
    exact ⟨by simp, hbuf⟩

/-- In every run, an action that marks the connection closed leaves nothing unsent; it leaves nothing
    unacknowledged exactly if there was nothing left to acknowledge when it began. -/
theorem closed_acknowledged_iff (peer : SocketAddr) (send_conn_id recv_conn_id ack_number : UInt16)
    (peer_window : UInt32) (last_recv last_ack_sent : Nat) (sent : List Datagram) (host : Host)
    (conn conn' : UtpConnection) (action : Action)
    (hreaches : Reaches (connected (UtpConnection.established peer send_conn_id recv_conn_id ack_number peer_window
      last_recv last_ack_sent) sent) host)
    (hconn : host.conn = some conn) (hopen : conn.closed = false) (hquiet : action.Quiet conn)
    (hconn' : (host.act conn action).conn = some conn') (hclosed : conn'.closed = true) :
    (host.act conn action).AllSent ∧ conn'.send_buf = [] ∧ conn'.in_flight = [] ↔
      conn.send_buf = [] ∧ conn.in_flight = [] := by
  obtain ⟨closed, out, haccounted⟩ :=
    hreaches.keeping (keeping_connected peer send_conn_id recv_conn_id ack_number peer_window last_recv last_ack_sent
      sent) conn hconn
  obtain ⟨chunks, hsends, -⟩ := haccounted.sent
  obtain rfl : closed = false := haccounted.closed_eq.symm.trans hopen
  have hbehind : ClosedBehind out (host.act conn action).written ⟨conn', 0, (host.act conn action).sent⟩ := by
    cases action with
    | write buf =>
      obtain rfl := Option.some.inj hconn'
      cases ((write_closed conn buf).trans hopen).symm.trans hclosed
    | read out_len =>
      obtain rfl := Option.some.inj hconn'
      cases ((read_closed conn out_len).trans hopen).symm.trans hclosed
    | close =>
      obtain rfl := Option.some.inj hconn'
      cases hopen.symm.trans hclosed
    | drive io recv =>
      obtain rfl := Option.some.inj hconn'
      obtain ⟨hafter, hbuf⟩ := haccounted.drive_closed hquiet.1 hquiet.no_reset hclosed
      exact ⟨⟨hafter.closed_eq, hafter.outstanding, hafter.fin, hafter.sent⟩, hbuf⟩
  obtain ⟨more, hsends', hsent'⟩ := hbehind.accounted.sent
  have hbuf' : conn'.send_buf = [] := hbehind.send_buf
  have hall : (host.act conn action).AllSent := by
    refine ⟨more, ?_, hsent'⟩
    rw [hsends'.written_eq, hbuf', List.append_nil]
  rw [← outstanding_eq_nil_iff hsends, haccounted.outstanding, ← hbehind.accounted.outstanding,
    outstanding_eq_nil_iff hsends']
  exact ⟨fun h => ⟨hbuf', h.2.2⟩, fun h => ⟨hall, h⟩⟩

/-! A host that has one byte to send. -/

def sample_conn : UtpConnection := UtpConnection.established (Link.sample_addr .acceptor) 8 7 1 4096 0 0

/-- A packet of the peer, with the given acknowledgement number. -/
def sample_packet (typ : UtpType) (ack_number : UInt16) : Bytes :=
  UtpHeader.encode ⟨typ, UTP_VERSION, 0, 7, 0, 0, 4096, 2, ack_number⟩ []

def sample_recv (typ : UtpType) (ack_number : UInt16) : Action :=
  .drive (Link.io_at 0) (.datagram (Link.sample_addr .acceptor) (sample_packet typ ack_number))

def sample_does (host : Host) (action : Action) : Host :=
  match host.conn with
  | some conn => host.act conn action
  | none => host

/-- The byte is written, and sent and acknowledged in between if there is time for it. -/
def sample_start (between : List Action) : Host :=
  sample_does (between.foldl sample_does (sample_does (connected sample_conn []) (.write [1]))) .close

theorem Reaches.sample_does {start host : Host} (h : Reaches start host) (action : Action)
    (hquiet : ∀ conn ∈ host.conn, action.Quiet conn ∧ action.succeeds host conn = true) :
    Reaches start (sample_does host action) := by
  unfold Host.sample_does
  split
  · rename_i conn hconn
    exact h.act action hconn (hquiet conn hconn).1 (hquiet conn hconn).2
  · exact h

theorem reaches_sample_start : Reaches (connected sample_conn []) (sample_start []) := by
  refine (Reaches.start.sample_does (.write [1]) ?_).sample_does .close ?_
  all_goals decide +kernel

theorem reaches_sample_acknowledged : Reaches (connected sample_conn []) (sample_start [sample_recv .State 1,
    sample_recv .State 2]) := by
  refine (((Reaches.start.sample_does (.write [1]) ?_).sample_does (sample_recv .State 1) ?_).sample_does
    (sample_recv .State 2) ?_).sample_does .close ?_
  all_goals decide +kernel

/-- The byte has been acknowledged when the FINs are exchanged. -/
theorem closed_acknowledged_iff_one_byte :
    ∃ conn conn', (sample_start [sample_recv .State 1, sample_recv .State 2]).conn = some conn ∧
      ((sample_start [sample_recv .State 1, sample_recv .State 2]).act conn (sample_recv .Fin 2)).conn = some conn' ∧
      conn'.closed = true ∧ conn.send_buf = [] ∧ conn.in_flight = [] ∧
      (((sample_start [sample_recv .State 1, sample_recv .State 2]).act conn (sample_recv .Fin 2)).AllSent ∧
        conn'.send_buf = [] ∧ conn'.in_flight = [] ↔ conn.send_buf = [] ∧ conn.in_flight = []) := by
  refine ⟨_, _, rfl, rfl, by decide +kernel, by decide +kernel, by decide +kernel, ?_⟩
  refine closed_acknowledged_iff (Link.sample_addr .acceptor) 8 7 1 4096 0 0 [] _ _ _ (sample_recv .Fin 2)
    reaches_sample_acknowledged rfl ?_ ?_ rfl ?_
  all_goals decide +kernel

/-- The peer's FIN arrives before its acknowledgement: the connection is marked closed, and the byte is
    never sent again. -/
theorem closed_with_byte_in_flight :
    Reaches (connected sample_conn []) (sample_start []) ∧
    ∃ conn conn', (sample_start []).conn = some conn ∧ conn.closed = false ∧ (sample_recv .Fin 1).Quiet conn ∧
      ((sample_start []).act conn (sample_recv .Fin 1)).conn = some conn' ∧ conn'.closed = true ∧
      conn'.in_flight = [⟨2, [1], 0⟩] := by
  refine ⟨reaches_sample_start, _, _, rfl, ?_, ?_, rfl, ?_, ?_⟩
  all_goals decide +kernel

end Host

end swarmotter.utp

import Swarmotter.Utp.Sender
import Swarmotter.Utp.Window

open trial (Keeps Leads EndsIn)

namespace swarmotter.utp

/-! What a connection says with every packet, whatever the packet is for. -/

structure Report where
  connection_id : UInt16
  timestamp_delta_micros : UInt32
  window_size : UInt32
  ack_number : UInt16

def UtpHeader.report (self : UtpHeader) : Report :=
  ⟨self.connection_id, self.timestamp_delta_micros, self.window_size, self.ack_number⟩

def UtpConnection.report (self : UtpConnection) : Report :=
  ⟨self.send_conn_id, self.cwnd.last_echo_delta, UInt32.ofNat self.recv_window, serial.wrap self.ack_number⟩

/-- The datagram says what the connection has to say. A packet that is sent again has no extensions. -/
def Reports (conn : UtpConnection) (datagram : Datagram) : Prop :=
  ∃ header extensions payload,
    UtpHeader.decode_with_extensions datagram.bytes = .ok (header, extensions, payload) ∧
      header.report = conn.report ∧ (extensions = [] ∨ extensions = conn.ack_extensions)

/-- What has been sent since `base` says what the connection has to say, which has not changed. -/
structure Reporting (before : UtpConnection) (base : List Datagram) (task : Task) : Prop where
  report : task.conn.report = before.report
  extensions : task.conn.ack_extensions = before.ack_extensions
  samples : task.conn.cwnd.current_samples = before.cwnd.current_samples
  sent : ∃ new, task.sent = base ++ new ∧ ∀ datagram ∈ new, Reports before datagram

section
variable {before : UtpConnection} {base : List Datagram} {io : Io} {task : Task}

theorem Reporting.start (task : Task) : Reporting task.conn task.sent task :=
  ⟨rfl, rfl, rfl, [], (List.append_nil _).symm, nofun⟩

theorem keeps_reporting_now_micros : Keeps (Reporting before base) (now_micros io) :=
  ⟨fun _ h => { h with }⟩

theorem keeps_reporting_now : Keeps (Reporting before base) (now io) := ⟨fun _ h => { h with }⟩

theorem keeps_reporting_update {f : UtpConnection → UtpConnection} (h : ∀ conn, (f conn).unqueued = conn.unqueued) :
    Keeps (Reporting before base) (update f) := by
  apply Keeps.modify
  intro task htask
  have hconn := h task.conn
  exact ⟨(congrArg UtpConnection.report hconn :).trans htask.report,
    (congrArg UtpConnection.ack_extensions hconn :).trans htask.extensions,
    (congrArg (·.cwnd.current_samples) hconn :).trans htask.samples, htask.sent⟩

theorem keeps_reporting_send_to {seq : Nat} {bytes : Bytes} (h : ∀ dest, Reports before ⟨dest, bytes, seq⟩) :
    Keeps (Reporting before base) (send_to io seq bytes) := by
  constructor
  intro task htask
  obtain ⟨new, hsent, hnew⟩ := htask.sent
  unfold send_to
  split
  · exact ⟨htask.report, htask.extensions, htask.samples, new, hsent, hnew⟩
  · refine ⟨htask.report, htask.extensions, htask.samples, new ++ [⟨task.conn.peer, bytes, seq⟩], ?_, ?_⟩
    · change task.sent ++ _ = _
      rw [hsent, List.append_assoc]
    · exact List.forall_mem_append.mpr ⟨hnew, List.forall_mem_singleton.mpr (h task.conn.peer)⟩

theorem reports_of_encode {conn : UtpConnection} {typ : UtpType} {now_ts : UInt32} {seq : Nat}
    {extensions : Vec UtpExtension} {payload packet : Bytes}
    (hencode : (conn.header typ now_ts seq).encode_with_extensions extensions payload = .ok packet)
    (hreport : conn.report = before.report) (hextensions : extensions = [] ∨ extensions = before.ack_extensions)
    (dest : net.SocketAddr) : Reports before ⟨dest, packet, seq⟩ :=
  ⟨_, _, _, decode_encode_with_extensions rfl hencode, hreport, hextensions⟩

theorem keeps_reporting_send_packet (typ : UtpType) (seq : Nat) (payload : Bytes) :
    Keeps (Reporting before base) (send_packet io typ seq payload) := by
  apply keeps_reporting_now_micros.bind
  intro now_ts
  apply Leads.get_bind
  intro task htask
  refine Leads.start ?_ htask
  apply Keeps.lift_bind
  intro packet hencode
  exact keeps_reporting_send_to (reports_of_encode hencode htask.report (.inr htask.extensions))

theorem keeps_reporting_retransmit_one (rto instant index : Nat) :
    Keeps (Reporting before base) (retransmit_one io rto instant index) := by
  apply keeps_retransmit_one keeps_reporting_now_micros
  · exact fun _ _ _ htask _ => keeps_reporting_send_to
      (reports_of_encode (encode_eq_encode_with_extensions _ _) htask.report (.inl rfl))
  · exact fun _ _ _ _ htask _ => ⟨htask.report, htask.extensions, htask.samples, htask.sent⟩

/-- Whatever is due is sent with the same report. -/
theorem spares_reporting : Spares (Reporting before base) io :=
  Spares.of_update keeps_reporting_now keeps_reporting_send_packet keeps_reporting_retransmit_one
    keeps_reporting_update

end

/-! The one-way delays that a connection measures and the ones that its packets carry. -/

/-- The delay that a datagram carries to the other side. -/
def Datagram.echo (self : Datagram) : Option UInt32 :=
  match UtpHeader.decode_with_extensions self.bytes with
  | .ok (header, _, _) => some header.timestamp_delta_micros
  | .error _ => none

/-- The part of `drive` that comes before the wait for a datagram, and whether it comes to that. -/
def drive_send (io : Io) : UtpM Bool := do
  let conn ← connection
  if conn.closed then pure false
  else do
    let instant ← now io
    if IDLE_TIMEOUT < instant - conn.last_recv then do
      update fun conn => { conn with closed := true }
      pure false
    else do
      send_due io
      let conn ← connection
      if conn.peer_fin ∧ conn.recv_buf = [] ∧ conn.local_fin_sent ∧ conn.fin_transmitted then do
        update fun conn => { conn with closed := true }
        pure false
      else pure true

theorem keeps_drive_send {inv : Task → Prop} {io : Io} (hnow : Keeps inv (now io))
    (hclosed : Keeps inv (update fun conn => { conn with closed := true })) (hdue : Keeps inv (send_due io)) :
    Keeps inv (drive_send io) := by
  apply keeps_connection.bind
  intro conn
  split
  · exact Keeps.pure _
  · apply hnow.bind
    intro instant
    split
    · apply hclosed.bind
      intro _
      exact Keeps.pure _
    · apply hdue.bind
      intro _
      apply keeps_connection.bind
      intro conn
      split
      · apply hclosed.bind
        intro _
        exact Keeps.pure _
      · exact Keeps.pure _

/-- The packet that a waiting connection takes from the datagram, if it is one of its own. -/
def UtpConnection.takes (self : UtpConnection) : Recv → Option UtpHeader
  | .datagram source bytes =>
    if source ≠ self.peer ∨ bytes = [] then none
    else
      match decode_datagram bytes with
      | .ok (header, _, _) =>
        if header.connection_id ≠ self.recv_conn_id ∧ header.typ ≠ .Reset then none else some header
      | .error _ => none
  | _ => none

/-- The delay of a packet that is measured: that of every data and state packet, and of any other that echoes one. -/
def measure (io : Io) (recv : Recv) (task : Task) : Option UInt32 :=
  match task.conn.takes recv with
  | some header =>
    if header.typ = .Data ∨ header.typ = .State ∨ header.timestamp_delta_micros ≠ 0 then
      some (io.micros (task.calls + 1) - header.timestamp_micros)
    else none
  | none => none

/-- A connection with its most recent measurement, and each datagram it has sent with the measurement that was the
most recent one at the time. -/
structure Endpoint where
  task : Task
  measured : Option UInt32
  log : List (Datagram × Option UInt32)

/-- The endpoint after a computation that has left the task. -/
def Endpoint.sends (self : Endpoint) (task : Task) : Endpoint :=
  { self with
    task
    log := self.log ++ (task.sent.drop self.task.sent.length).map fun datagram => (datagram, self.measured) }

/-- A packet is measured before anything is sent in reply. -/
def Endpoint.waits (self : Endpoint) (io : Io) (recv : Recv) : Endpoint :=
  { self with measured := (measure io recv self.task).or self.measured }.sends (receive io recv self.task).2

def Endpoint.act (self : Endpoint) : Action → Endpoint
  | .drive io recv =>
    let sent := self.sends (drive_send io self.task).2
    match (drive_send io self.task).1 with
    | .ok true => sent.waits io recv
    | _ => sent
  | action => { self with task := self.task.step (.act action) }

/-- The connection echoes the delay, and so does what has been sent since `base`. -/
structure Echoes (delay : UInt32) (samples : Vec UInt32) (base : List Datagram) (task : Task) : Prop where
  delta : task.conn.cwnd.last_echo_delta = delay
  samples : task.conn.cwnd.current_samples = samples
  sent : ∃ new, task.sent = base ++ new ∧ ∀ datagram ∈ new, datagram.echo = some delay

theorem Reports.echo {conn : UtpConnection} {datagram : Datagram} (h : Reports conn datagram) :
    datagram.echo = some conn.cwnd.last_echo_delta := by
  obtain ⟨header, extensions, payload, hdecode, hreport, -⟩ := h
  unfold Datagram.echo
  rw [hdecode]
  exact congrArg (fun report => some report.timestamp_delta_micros) hreport

section
variable {delay : UInt32} {samples : Vec UInt32} {base : List Datagram} {task task' : Task} {io : Io}

theorem Echoes.start (task : Task) :
    Echoes task.conn.cwnd.last_echo_delta task.conn.cwnd.current_samples task.sent task :=
  ⟨rfl, rfl, [], (List.append_nil _).symm, nofun⟩

theorem Echoes.reporting (h : Echoes delay samples base task) (hreporting : Reporting task.conn task.sent task') :
    Echoes delay samples base task' := by
  obtain ⟨new, hsent, hnew⟩ := h.sent
  obtain ⟨newer, hsent', hnewer⟩ := hreporting.sent
  refine ⟨?_, hreporting.samples.trans h.samples, new ++ newer, ?_, ?_⟩
  · exact (congrArg Report.timestamp_delta_micros hreporting.report :).trans h.delta
  · rw [hsent', hsent, List.append_assoc]
  · intro datagram hdatagram
    rcases List.mem_append.mp hdatagram with hold | hlater
    · exact hnew datagram hold
    · rw [(hnewer datagram hlater).echo, h.delta]

theorem keeps_echoes {α : Type} {op : UtpM α} (h : ∀ before base, Keeps (Reporting before base) op) :
    Keeps (Echoes delay samples base) op :=
  ⟨fun task htask => htask.reporting ((h task.conn task.sent).final task (.start task))⟩

theorem keeps_echoes_update {f : UtpConnection → UtpConnection}
    (hdelta : ∀ conn, (f conn).cwnd.last_echo_delta = conn.cwnd.last_echo_delta)
    (hsamples : ∀ conn, (f conn).cwnd.current_samples = conn.cwnd.current_samples) :
    Keeps (Echoes delay samples base) (update f) :=
  Keeps.modify fun task h => ⟨(hdelta task.conn).trans h.delta, (hsamples task.conn).trans h.samples, h.sent⟩

theorem keeps_echoes_drive_send : Keeps (Echoes delay samples base) (drive_send io) := by
  apply keeps_drive_send
  · exact keeps_echoes fun _ _ => keeps_reporting_now
  · exact keeps_echoes_update (fun _ => rfl) (fun _ => rfl)
  · exact keeps_echoes fun _ _ => spares_reporting.send_due

theorem keeps_echoes_handle_typ (header : UtpHeader) (payload : Bytes) (sack : Option Sack) :
    Keeps (Echoes delay samples base) (handle_typ io header payload sack) := by
  apply keeps_handle_typ
  · exact keeps_echoes fun _ _ => spares_reporting.send_state
  · exact fun _ _ => keeps_echoes_update (fun _ => rfl) (fun _ => rfl)
  · exact keeps_echoes_update (fun _ => rfl) (fun _ => rfl)
  · intro _
    have hcwnd (conn : UtpConnection) := congrArg UtpConnection.cwnd (unreceived_handle_data
      (conn.ack_in_flight header.ack_number sack) header.seq_number payload)
    exact keeps_echoes_update (fun conn => (congrArg Ledbat.last_echo_delta (hcwnd conn) :))
      fun conn => (congrArg Ledbat.current_samples (hcwnd conn) :)
  · exact fun _ => keeps_echoes_update (fun _ => rfl) (fun _ => rfl)
  · exact fun _ => keeps_echoes_update (fun _ => rfl) (fun _ => rfl)

/-- What is echoed once the packet has been taken. -/
def Ledbat.echoing (self : Ledbat) (header : UtpHeader) (now_ts : UInt32) : Ledbat :=
  if header.timestamp_delta_micros ≠ 0 then self.on_sample 0 (now_ts - header.timestamp_micros) else self

theorem handle_packet_echoes (io : Io) (task : Task) {header : UtpHeader}
    (htaken : ¬(header.connection_id ≠ task.conn.recv_conn_id ∧ header.typ ≠ .Reset)) (payload : Bytes)
    (sack : Option Sack) :
    EndsIn (Echoes (task.conn.cwnd.echoing header (io.micros task.calls)).last_echo_delta
      (task.conn.cwnd.echoing header (io.micros task.calls)).current_samples task.sent) task
        (handle_packet io header payload sack) := by
  apply EndsIn.get_bind
  rw [if_neg htaken]
  apply EndsIn.modify_bind
  refine EndsIn.bind ?_ (fun _ h => h) fun _ => keeps_echoes_handle_typ header payload sack
  refine EndsIn.ok_bind rfl ?_
  unfold Ledbat.echoing
  split
  · refine EndsIn.ok_bind rfl ?_
    exact ⟨⟨rfl, rfl, [], (List.append_nil _).symm, nofun⟩⟩
  · exact ⟨⟨rfl, rfl, [], (List.append_nil _).symm, nofun⟩⟩

/-- The controller once the wait for a datagram has ended. -/
def Task.listening (self : Task) (io : Io) (recv : Recv) : Ledbat :=
  match self.conn.takes recv with
  | some header => self.conn.cwnd.echoing header (io.micros (self.calls + 1))
  | none => self.conn.cwnd

theorem keeps_echoes_closing (outcome : RecvOutcome) :
    Keeps (Echoes delay samples base) (do
      let conn ← connection
      if outcome = .Closed ∧ conn.local_fin_sent ∧ conn.fin_transmitted then do
        update fun conn => { conn with closed := true }
        pure false
      else pure true) := by
  apply keeps_connection.bind
  intro conn
  split
  · apply Keeps.bind
    · exact keeps_echoes_update (fun _ => rfl) (fun _ => rfl)
    intro _
    exact Keeps.pure _
  · exact Keeps.pure _

theorem receive_echoes (io : Io) (recv : Recv) (task : Task) :
    EndsIn (Echoes (task.listening io recv).last_echo_delta (task.listening io recv).current_samples task.sent) task
      (receive io recv) := by
  cases recv with
  | timed_out => exact ⟨.start task⟩
  | failed error => exact ⟨.start task⟩
  | datagram source bytes =>
    apply EndsIn.get_bind
    by_cases hstray : source ≠ task.conn.peer ∨ bytes = []
    · have htakes : task.conn.takes (.datagram source bytes) = none := if_pos hstray
      rw [if_pos hstray, Task.listening, htakes]
      exact ⟨.start task⟩
    rw [if_neg hstray, handle_datagram]
    cases hdecode : decode_datagram bytes with
    | error error =>
      have htakes : task.conn.takes (.datagram source bytes) = none := by
        simp only [UtpConnection.takes, if_neg hstray, hdecode]
      rw [Task.listening, htakes]
      exact ⟨.start task⟩
    | ok packet =>
      obtain ⟨header, payload, sack⟩ := packet
      have htakes : task.conn.takes (.datagram source bytes) =
          if header.connection_id ≠ task.conn.recv_conn_id ∧ header.typ ≠ .Reset then none else some header := by
        simp only [UtpConnection.takes, if_neg hstray, hdecode]
      refine EndsIn.ok_bind rfl ?_
      apply EndsIn.modify_bind
      refine EndsIn.bind ?_ (fun _ h => h) keeps_echoes_closing
      rw [Task.listening, htakes]
      by_cases hother : header.connection_id ≠ task.conn.recv_conn_id ∧ header.typ ≠ .Reset
      · rw [if_pos hother]
        apply EndsIn.get_bind
        rw [if_pos hother]
        exact ⟨⟨rfl, rfl, [], (List.append_nil _).symm, nofun⟩⟩
      · rw [if_neg hother]
        exact handle_packet_echoes io ⟨{ task.conn with last_recv := io.instant task.calls }, task.calls + 1, task.sent⟩
          hother payload sack

end

/-! Runs. -/

/-- What the endpoint sends carries the most recent measurement, which is the last sample of the controller. -/
structure Endpoint.Echoing (endpoint : Endpoint) : Prop where
  logged : endpoint.log.map Prod.fst = endpoint.task.sent
  carried : ∀ entry ∈ endpoint.log, ∀ delay ∈ entry.2, entry.1.echo = some delay
  latest : ∀ delay ∈ endpoint.measured, endpoint.task.conn.cwnd.last_echo_delta = delay ∧
    endpoint.task.conn.cwnd.current_samples.getLast? = some delay

/-- The data and state packets that the endpoint takes echo a delay. -/
def Endpoint.HearsEcho (self : Endpoint) : Action → Prop
  | .drive _ recv => ∀ header ∈ self.task.conn.takes recv, header.typ = .Data ∨ header.typ = .State →
      header.timestamp_delta_micros ≠ 0
  | _ => True

/-- The endpoints that are reached by the actions that are allowed. -/
inductive Endpoint.Reaches (allowed : Endpoint → Action → Prop) (start : Endpoint) : Endpoint → Prop
  | start : Reaches allowed start start
  | step {endpoint : Endpoint} (action : Action) (hreaches : Reaches allowed start endpoint)
      (hallowed : allowed endpoint action) : Reaches allowed start (endpoint.act action)

section
variable {endpoint : Endpoint}

theorem Endpoint.Echoing.sends (h : endpoint.Echoing) {measured : Option UInt32} {delay : UInt32} {samples : Vec UInt32}
    {task : Task} (hechoes : Echoes delay samples endpoint.task.sent task)
    (hlatest : ∀ value ∈ measured, delay = value ∧ samples.getLast? = some value) :
    ({ endpoint with measured := measured }.sends task).Echoing := by
  obtain ⟨new, hsent, hnew⟩ := hechoes.sent
  have hlater : task.sent.drop endpoint.task.sent.length = new := by
    rw [hsent, List.drop_left]
  refine ⟨?_, ?_, ?_⟩
  · change (endpoint.log ++ (task.sent.drop endpoint.task.sent.length).map _).map Prod.fst = task.sent
    rw [hlater, List.map_append, h.logged, List.map_map, hsent]
    simp [Function.comp_def]
  · intro entry hentry value hvalue
    rcases List.mem_append.mp hentry with hold | hsince
    · exact h.carried entry hold value hvalue
    · obtain ⟨datagram, hdatagram, rfl⟩ := List.mem_map.mp hsince
      rw [hlater] at hdatagram
      rw [hnew datagram hdatagram, (hlatest value hvalue).1]
  · intro value hvalue
    obtain ⟨rfl, hlast⟩ := hlatest value hvalue
    refine ⟨hechoes.delta, ?_⟩
    change task.conn.cwnd.current_samples.getLast? = _
    rw [hechoes.samples]
    exact hlast

theorem getLast?_on_sample (cwnd : Ledbat) (instant : Nat) (delay : UInt32) :
    (cwnd.on_sample instant delay).current_samples.getLast? = some delay := by
  simp only [Ledbat.on_sample]
  split
  · rename_i hlong
    rw [List.drop_append_of_le_length (by simp [CURRENT_HISTORY] at hlong; omega), List.getLast?_concat]
  · exact List.getLast?_concat

/-- Sending changes neither the peer nor the connection id. -/
theorem takes_drive_send (io : Io) (task : Task) (recv : Recv) :
    (drive_send io task).2.conn.takes recv = task.conn.takes recv := by
  have hkeeps : Keeps (OnConn fun conn => conn.peer = task.conn.peer ∧ conn.recv_conn_id = task.conn.recv_conn_id)
      (drive_send io) := by
    apply keeps_drive_send keeps_now
    · exact keeps_update fun _ h => h
    · constructor
      intro other hother
      have hunsent := unsent_send_due io other
      exact ⟨(congrArg UtpConnection.peer hunsent :).trans hother.1,
        (congrArg UtpConnection.recv_conn_id hunsent :).trans hother.2⟩
  obtain ⟨hpeer, hid⟩ := hkeeps.final task ⟨rfl, rfl⟩
  cases recv with
  | timed_out => rfl
  | failed error => rfl
  | datagram source bytes => simp only [UtpConnection.takes, hpeer, hid]

/-- The measurement is what the controller takes and the connection echoes. -/
theorem latest_listening {task : Task} {measured : Option UInt32} (io : Io) (recv : Recv)
    (hhears : ∀ header ∈ task.conn.takes recv, header.typ = .Data ∨ header.typ = .State →
      header.timestamp_delta_micros ≠ 0)
    (hlatest : ∀ delay ∈ measured, task.conn.cwnd.last_echo_delta = delay ∧
      task.conn.cwnd.current_samples.getLast? = some delay) :
    ∀ delay ∈ (measure io recv task).or measured, (task.listening io recv).last_echo_delta = delay ∧
      (task.listening io recv).current_samples.getLast? = some delay := by
  intro delay hdelay
  unfold measure at hdelay
  unfold Task.listening
  cases htakes : task.conn.takes recv with
  | none =>
    rw [htakes] at hdelay
    exact hlatest delay hdelay
  | some header =>
    simp only [htakes] at hdelay ⊢
    unfold Ledbat.echoing
    by_cases hecho : header.timestamp_delta_micros ≠ 0
    · rw [if_pos (.inr (.inr hecho))] at hdelay
      rw [if_pos hecho, ← Option.some.inj hdelay]
      exact ⟨rfl, getLast?_on_sample _ _ _⟩
    · have hother : ¬(header.typ = .Data ∨ header.typ = .State ∨ header.timestamp_delta_micros ≠ 0) := by
        rintro (hdata | hstate | hechoes)
        · exact hecho (hhears header htakes (.inl hdata))
        · exact hecho (hhears header htakes (.inr hstate))
        · exact hecho hechoes
      rw [if_neg hother] at hdelay
      rw [if_neg hecho]
      exact hlatest delay hdelay

/-- The controller is left alone, and nothing is sent. -/
theorem Endpoint.Echoing.of_cwnd (h : endpoint.Echoing) {conn : UtpConnection}
    (hcwnd : conn.cwnd = endpoint.task.conn.cwnd) :
    Endpoint.Echoing { endpoint with task := { endpoint.task with conn } } :=
  ⟨h.logged, h.carried, by rw [hcwnd]; exact h.latest⟩

theorem Endpoint.Echoing.act (h : endpoint.Echoing) {action : Action} (hhears : endpoint.HearsEcho action) :
    (endpoint.act action).Echoing := by
  cases action with
  | write buf => exact h.of_cwnd (congrArg UtpConnection.cwnd (write_eq endpoint.task.conn buf) :)
  | read out_len => exact h.of_cwnd (congrArg UtpConnection.cwnd (unreceived_read endpoint.task.conn out_len) :)
  | close => exact ⟨h.logged, h.carried, h.latest⟩
  | drive io recv =>
    have hsent : (endpoint.sends (drive_send io endpoint.task).2).Echoing :=
      h.sends (keeps_echoes_drive_send.final endpoint.task (.start endpoint.task)) h.latest
    simp only [Endpoint.act]
    split
    · refine hsent.sends (receive_echoes io recv _).final (latest_listening io recv ?_ hsent.latest)
      intro header hheader
      change header ∈ (drive_send io endpoint.task).2.conn.takes recv at hheader
      rw [takes_drive_send] at hheader
      exact hhears header hheader
    · exact hsent

theorem Endpoint.Echoing.reaches {start : Endpoint} (h : start.Echoing)
    (hreaches : Endpoint.Reaches Endpoint.HearsEcho start endpoint) : endpoint.Echoing := by
  induction hreaches with
  | start => exact h
  | step action _ hallowed ih => exact ih.act hallowed

end

/-- In every run in which the data and state packets that are taken echo a delay, whatever is sent carries the most
recent measurement, and the controller has it as its last sample. -/
theorem echo_most_recent (peer : net.SocketAddr) (send_conn_id recv_conn_id ack_number : UInt16)
    (peer_window : UInt32) (last_recv last_ack_sent : Nat) {endpoint : Endpoint}
    (hreaches : Endpoint.Reaches Endpoint.HearsEcho ⟨⟨.established peer send_conn_id recv_conn_id ack_number peer_window
      last_recv last_ack_sent, 0, []⟩, none, []⟩ endpoint) :
    endpoint.log.map Prod.fst = endpoint.task.sent ∧
      (∀ entry ∈ endpoint.log, ∀ delay ∈ entry.2, entry.1.echo = some delay) ∧
      ∀ delay ∈ endpoint.measured, endpoint.task.conn.cwnd.current_samples.getLast? = some delay := by
  have hstart : Endpoint.Echoing ⟨⟨.established peer send_conn_id recv_conn_id ack_number peer_window last_recv
      last_ack_sent, 0, []⟩, none, []⟩ :=
    ⟨rfl, nofun, fun _ h => absurd h (Option.not_mem_none _)⟩
  have hechoing := hstart.reaches hreaches
  exact ⟨hechoing.logged, hechoing.carried, fun delay hdelay => (hechoing.latest delay hdelay).2⟩

/-- A clock that is ahead of the one of `io_at`. -/
def io_reading (instant : Nat) (micros : UInt32) : Io := { Link.io_at instant with micros := fun _ => micros }

def sample_endpoint : Endpoint := ⟨⟨.established (Link.sample_addr .acceptor) 8 7 1 4194304 0 0, 0, []⟩, none, []⟩

/-- The reply to the SYN of a connection, which comes a second time. -/
def sample_reply : Recv :=
  .datagram (Link.sample_addr .acceptor) ((syn_ack_header (syn_header 7 1000) 0).encode [])

def sample_measuring : Endpoint :=
  ((sample_endpoint.act (.drive (io_reading 0 1000) sample_reply)).act (.write [1])).act
    (.drive (io_reading 0 1000) .timed_out)

theorem echo_most_recent_second_reply :
    sample_measuring.log.map Prod.snd = [some 1000] ∧
      ∀ entry ∈ sample_measuring.log, ∀ delay ∈ entry.2, entry.1.echo = some delay := by
  have hhears : sample_endpoint.HearsEcho (.drive (io_reading 0 1000) sample_reply) := by
    change ∀ header ∈ sample_endpoint.task.conn.takes sample_reply, _
    decide +kernel
  have hlistens : Endpoint.Reaches Endpoint.HearsEcho sample_endpoint
      (sample_endpoint.act (.drive (io_reading 0 1000) sample_reply)) := .step _ .start hhears
  have hreaches : Endpoint.Reaches Endpoint.HearsEcho sample_endpoint sample_measuring :=
    (hlistens.step (.write [1]) trivial).step (.drive (io_reading 0 1000) .timed_out) fun _ h =>
      absurd h (Option.not_mem_none _)
  exact ⟨by decide +kernel, (echo_most_recent (Link.sample_addr .acceptor) 8 7 1 4194304 0 0 hreaches).2.1⟩

/-! The echo does not start by itself. -/

/-- The clock of the initiator is a millisecond ahead of that of the acceptor. -/
def sample_accepted : Link :=
  (Link.start Link.sample_addr 7 1000).hears_syn Link.sample_addr
    (Link.nth_sent (Link.start Link.sample_addr 7 1000 .initiator) 0)

/-- The handshake is completed, and the initiator sends a data packet. -/
def sample_sent_data : Link :=
  ((sample_accepted.hears_reply Link.sample_addr 7 (Link.nth_sent (sample_accepted .acceptor) 0)).does .initiator
    (.write [1])).does .initiator (.drive (io_reading 0 1000) .timed_out)

/-- The acceptor receives the packet, and sends its acknowledgement 200 milliseconds later. -/
def sample_receives : Action :=
  .drive (Link.io_at 0)
    (.datagram (Link.sample_addr .initiator) (Link.nth_sent (sample_sent_data .initiator) 1).bytes)

def sample_acknowledges : Action := .drive (Link.io_at 200000) .timed_out

def sample_acknowledged : Link :=
  (sample_sent_data.does .acceptor sample_receives).does .acceptor sample_acknowledges

def sample_moves : List Link.Move :=
  [.hears_syn (Link.nth_sent (Link.start Link.sample_addr 7 1000 .initiator) 0),
    .hears_reply (Link.nth_sent (sample_accepted .acceptor) 0), .does .initiator (.write [1]),
    .does .initiator (.drive (io_reading 0 1000) .timed_out), .does .acceptor sample_receives,
    .does .acceptor sample_acknowledges]

theorem reaches_sample_acknowledged {allowed : Link → Link → Prop}
    (h : (Link.start Link.sample_addr 7 1000).Plays Link.sample_addr 7 (fun reply => reply.seq = 1) allowed
      sample_moves) :
    Link.Reaches Link.sample_addr 7 (fun reply => reply.seq = 1) allowed sample_acknowledged := by
  have hmoves : sample_moves.foldl (Link.moved Link.sample_addr 7) (Link.start Link.sample_addr 7 1000) =
      sample_acknowledged := by
    simp only [sample_moves, List.foldl_cons, List.foldl_nil, Link.moved, sample_acknowledged, sample_sent_data,
      sample_accepted]
  rw [← hmoves]
  exact (Link.Reaches.start 1000).plays h

/-- The acceptor measures a delay that is not zero, and its acknowledgement carries none: the initiator has sent the
packet without an echo, because it has not taken any packet with one. -/
theorem echo_not_started :
    Link.Reaches Link.sample_addr 7 (fun reply => reply.seq = 1) (fun _ link' => link'.Orderly)
        sample_acknowledged ∧
      (sample_acknowledged .acceptor).sent.map Datagram.echo = [some 4294966296, some 0] ∧
      (sample_sent_data .acceptor).conn.map (fun conn =>
        (((Endpoint.mk ⟨conn, 0, (sample_sent_data .acceptor).sent⟩ none []).act sample_receives).act
          sample_acknowledges).log.map fun entry => (entry.1.echo, entry.2)) =
        some [(some 0, some 4294966296)] := by
  have hplays : (Link.start Link.sample_addr 7 1000).Plays Link.sample_addr 7 (fun reply => reply.seq = 1)
      (fun _ link' => link'.Orderly) sample_moves := by decide +kernel
  exact ⟨reaches_sample_acknowledged hplays, by decide +kernel, by decide +kernel⟩

end swarmotter.utp

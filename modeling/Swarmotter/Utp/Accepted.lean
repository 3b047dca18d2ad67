import Swarmotter.Utp.Frame

open swarmotter.net

namespace swarmotter.utp

inductive WriteCmd where
  | Bytes (b : Bytes)
  | Close
  deriving DecidableEq

/-- Where the driver task of a stream stands in its loop. -/
inductive Phase where
  /-- It takes the next write command, or goes on to drive the connection. -/
  | drain
  /-- It writes the rest `b[off..]` of a command. -/
  | write (rest : Bytes)
  | drive
  /-- It reads what was delivered. -/
  | pump (alive : Bool)
  /-- It waits for room in the read channel. -/
  | deliver (chunk : Bytes) (alive : Bool)
  /-- It has returned. -/
  | done
  deriving DecidableEq

/-- A stream with its driver task and the channels between the two. `read_buf` is what is left of
    the current chunk. The last two fields are histories: the bytes `poll_write` has reported as
    accepted, and the bytes the connection has taken into its send buffer. -/
structure UtpStream where
  task : Task
  phase : Phase
  write_channel : List WriteCmd
  read_channel : List Bytes
  read_buf : Bytes
  read_eof : Bool
  shutdown_started : Bool
  accepted : Bytes
  taken : Bytes

def READ_CHANNEL_CAP : Nat := 64

def UtpStream.spawn (conn : UtpConnection) : UtpStream where
  task := { conn, calls := 0, sent := [] }
  phase := .drain
  write_channel := []
  read_channel := []
  read_buf := []
  read_eof := false
  shutdown_started := false
  accepted := []
  taken := []

/-! The stream. -/

/-- The number of bytes accepted, or the message of the `BrokenPipe` error. -/
def UtpStream.poll_write (self : UtpStream) (buf : Bytes) : Except String Nat × UtpStream :=
  if buf = [] then (.ok 0, self)
  else if self.shutdown_started then (.error "uTP stream is shutting down", self)
  else if self.phase = .done then (.error "uTP driver closed", self)
  else
    (.ok buf.length, { self with
      write_channel := self.write_channel ++ [.Bytes buf]
      accepted := self.accepted ++ buf })

/-- A first call asks the driver to close; every call waits for the driver to end. -/
def UtpStream.poll_shutdown (self : UtpStream) : UtpStream :=
  if self.shutdown_started then self
  else { self with
    shutdown_started := true
    write_channel := if self.phase = .done then self.write_channel else self.write_channel ++ [.Close] }

/-- The bytes for a buffer of the given length, none if the stream has to wait. -/
def UtpStream.poll_read (self : UtpStream) (remaining : Nat) : Option Bytes × UtpStream :=
  if self.read_eof then (some [], self)
  else if self.read_buf ≠ [] then
    (some (self.read_buf.take remaining), { self with read_buf := self.read_buf.drop remaining })
  else
    match self.read_channel with
    | chunk :: rest =>
      if chunk = [] then (some [], { self with read_channel := rest, read_eof := true })
      else
        (some (chunk.take remaining), { self with read_channel := rest, read_buf := chunk.drop remaining })
    | [] => if self.phase = .done then (some [], { self with read_eof := true }) else (none, self)

/-! The driver task. -/

def UtpStream.with_conn (self : UtpStream) (conn : UtpConnection) : UtpStream :=
  { self with task := { self.task with conn } }

/-- The head of the loop `while let Ok(cmd) = write_rx.try_recv()`. -/
def UtpStream.try_recv (self : UtpStream) : UtpStream :=
  match self.write_channel with
  | [] => { self with phase := .drive }
  | .Bytes b :: rest => { self with write_channel := rest, phase := .write b }
  | .Close :: rest => { self with write_channel := rest }.with_conn self.task.conn.close

/-- One round of the loop that writes a command. The rest is left when nothing could be written. -/
def UtpStream.write_round (self : UtpStream) (rest : Bytes) : UtpStream :=
  if rest = [] then { self with phase := .drain }
  else
    let (n, conn) := self.task.conn.write rest
    if n = 0 then { self with phase := .drain }.with_conn conn
    else { self with phase := .write (rest.drop n), taken := self.taken ++ rest.take n }.with_conn conn

def UtpStream.drive_once (self : UtpStream) (io : Io) (recv : Recv) : UtpStream :=
  match drive io recv self.task with
  | (.ok alive, task) => { self with task, phase := .pump alive }
  | (.error _, task) => { self with task, phase := .done }

/-- One read of at most 16 KiB. -/
def UtpStream.pump_round (self : UtpStream) (alive : Bool) : UtpStream :=
  let (chunk, conn) := self.task.conn.read (16 * 1024)
  if chunk = [] then { self with phase := if alive then .drain else .done }.with_conn conn
  else { self with phase := .deliver chunk alive }.with_conn conn

def UtpStream.deliver (self : UtpStream) (chunk : Bytes) (alive : Bool) : UtpStream :=
  if self.read_channel.length < READ_CHANNEL_CAP then
    { self with read_channel := self.read_channel ++ [chunk], phase := .pump alive }
  else self

/-- The next step of the driver task. -/
def UtpStream.driver_step (self : UtpStream) (io : Io) (recv : Recv) : UtpStream :=
  match self.phase with
  | .drain => self.try_recv
  | .write rest => self.write_round rest
  | .drive => self.drive_once io recv
  | .pump alive => self.pump_round alive
  | .deliver chunk alive => self.deliver chunk alive
  | .done => self

/-! Runs. -/

/-- A call by the user of the stream, or a step of the driver with what the outside does in it. -/
inductive Event where
  | poll_write (buf : Bytes)
  | poll_shutdown
  | poll_read (remaining : Nat)
  | driver (io : Io) (recv : Recv)

def UtpStream.step (self : UtpStream) : Event → UtpStream
  | .poll_write buf => (self.poll_write buf).2
  | .poll_shutdown => self.poll_shutdown
  | .poll_read remaining => (self.poll_read remaining).2
  | .driver io recv => self.driver_step io recv

def UtpStream.run (self : UtpStream) (events : List Event) : UtpStream := events.foldl UtpStream.step self

/-! The bytes a stream has accepted: they are in the connection, or they wait, unless the connection's
send buffer was full when one of them was to be written. -/

def WriteCmd.bytes : WriteCmd → Vec UInt8
  | Bytes b => b
  | Close => []

/-- The bytes of the command that is being written. -/
def Phase.rest : Phase → Bytes
  | write rest => rest
  | _ => []

namespace UtpStream

/-- The bytes that wait in the command being processed and in the write channel. -/
def pending (self : UtpStream) : Bytes := self.phase.rest ++ self.write_channel.flatMap WriteCmd.bytes

/-- The connection is not closed and the driver runs. -/
def Open (self : UtpStream) : Prop := self.task.conn.closed = false ∧ self.phase ≠ .done

/-- No accepted byte is missing, there twice or out of its place. -/
def InOrder (self : UtpStream) : Prop := self.accepted = self.taken ++ self.pending

/-- The driver is about to write bytes of a command while the send buffer is full. -/
def WritesToFull (self : UtpStream) (event : Event) : Prop :=
  ∃ io recv, event = .driver io recv ∧ self.phase.rest ≠ [] ∧ self.task.conn.room = 0

/-- Before a shutdown nothing asks the connection to close. -/
structure Writable (stream : UtpStream) : Prop where
  no_fin : stream.task.conn.local_fin_sent = false
  no_close : .Close ∉ stream.write_channel
  no_shutdown : stream.shutdown_started = false

end UtpStream

theorem write_of_open {conn : UtpConnection} {buf : Bytes} (hclosed : conn.closed = false)
    (hfin : conn.local_fin_sent = false) (hbuf : buf ≠ []) :
    conn.write buf = (min buf.length conn.room,
      { conn with send_buf := conn.send_buf ++ buf.take (min buf.length conn.room) }) := by
  simp [UtpConnection.write, hclosed, hfin, hbuf]

theorem drive_of_closed {io : Io} {recv : Recv} {task : Task} (hclosed : task.conn.closed = true) :
    drive io recv task = (.ok false, task) := by
  unfold drive
  rw [trial.bind_of_ok (show connection task = (.ok task.conn, task) from rfl), if_pos hclosed]
  rfl

namespace UtpStream

/-- A step that moves none of the accepted bytes. -/
structure Quiet (stream : UtpStream) (event : Event) (stream' : UtpStream) : Prop where
  accepted : stream'.accepted = stream.accepted
  taken : stream'.taken = stream.taken
  channel : stream'.write_channel = stream.write_channel
  shutdown : stream'.shutdown_started = stream.shutdown_started
  rest : stream'.phase.rest = stream.phase.rest
  no_write : ∀ io recv, event = .driver io recv → stream.phase.rest = []
  fin : stream'.task.conn.local_fin_sent = stream.task.conn.local_fin_sent
  closed : stream.task.conn.closed = true → stream'.task.conn.closed = true
  done : stream.phase = .done → stream'.phase = .done

/-- What a step can do to the accepted bytes. -/
inductive Effect (stream : UtpStream) : Event → UtpStream → Prop
  | accept (buf : Bytes) : Effect stream (.poll_write buf)
      { stream with write_channel := stream.write_channel ++ [.Bytes buf], accepted := stream.accepted ++ buf }
  | shutdown : Effect stream .poll_shutdown stream.poll_shutdown
  | take (io : Io) (recv : Recv) (b : Bytes) (rest : List WriteCmd) (hphase : stream.phase = .drain)
      (hchannel : stream.write_channel = .Bytes b :: rest) :
      Effect stream (.driver io recv) { stream with write_channel := rest, phase := .write b }
  | close (io : Io) (recv : Recv) (rest : List WriteCmd) (hphase : stream.phase = .drain)
      (hchannel : stream.write_channel = .Close :: rest) :
      Effect stream (.driver io recv) ({ stream with write_channel := rest }.with_conn stream.task.conn.close)
  | write (io : Io) (recv : Recv) (rest : Bytes) (hphase : stream.phase = .write rest) :
      Effect stream (.driver io recv) (stream.write_round rest)
  | quiet (event : Event) (stream' : UtpStream) (h : Quiet stream event stream') : Effect stream event stream'

section
variable {stream : UtpStream} {event : Event}

theorem quiet_self (hevent : ∀ io recv, event = .driver io recv → stream.phase.rest = []) : Quiet stream event stream :=
  ⟨rfl, rfl, rfl, rfl, rfl, hevent, rfl, id, id⟩

theorem poll_write_effect (stream : UtpStream) (buf : Bytes) :
    Effect stream (.poll_write buf) (stream.poll_write buf).2 := by
  have hquiet : Effect stream (.poll_write buf) stream := .quiet _ _ (quiet_self (by simp))
  unfold poll_write
  split
  · exact hquiet
  · split
    · exact hquiet
    · split
      · exact hquiet
      · exact .accept buf

theorem poll_read_effect (stream : UtpStream) (remaining : Nat) :
    Effect stream (.poll_read remaining) (stream.poll_read remaining).2 := by
  have hself : Quiet stream (.poll_read remaining) stream := quiet_self (by simp)
  apply Effect.quiet
  unfold poll_read
  split
  · exact hself
  · split
    · exact { hself with }
    · split
      · split <;> exact { hself with }
      · split <;> exact { hself with }

theorem try_recv_effect (io : Io) (recv : Recv) (hphase : stream.phase = .drain) :
    Effect stream (.driver io recv) stream.try_recv := by
  unfold try_recv
  split
  · refine .quiet _ _ ⟨rfl, rfl, rfl, rfl, ?_, ?_, rfl, id, ?_⟩ <;> simp [hphase, Phase.rest]
  · rename_i b rest hchannel
    exact .take io recv b rest hphase hchannel
  · rename_i rest hchannel
    exact .close io recv rest hphase hchannel

theorem drive_once_effect (io : Io) (recv : Recv) (hphase : stream.phase = .drive) :
    Effect stream (.driver io recv) (stream.drive_once io recv) := by
  have hfin : (utp.drive io recv stream.task).2.conn.local_fin_sent = stream.task.conn.local_fin_sent :=
    (keeps_fin_requested_drive recv).final stream.task rfl
  have hclosed : stream.task.conn.closed = true → (utp.drive io recv stream.task).2.conn.closed = true := by
    intro hclosed
    rw [drive_of_closed hclosed]
    exact hclosed
  unfold drive_once
  rcases hrun : utp.drive io recv stream.task with ⟨error | alive, task⟩
  all_goals
    rw [hrun] at hfin hclosed
    refine .quiet _ _ ⟨rfl, rfl, rfl, rfl, ?_, ?_, hfin, hclosed, ?_⟩ <;> simp [hphase, Phase.rest]

theorem pump_round_effect {alive : Bool} (io : Io) (recv : Recv) (hphase : stream.phase = .pump alive) :
    Effect stream (.driver io recv) (stream.pump_round alive) := by
  have hfin := read_local_fin_sent stream.task.conn (16 * 1024)
  have hclosed := read_closed stream.task.conn (16 * 1024)
  unfold pump_round
  dsimp only
  split
  · refine .quiet _ _ ⟨rfl, rfl, rfl, rfl, ?_, ?_, hfin, hclosed.trans, ?_⟩
    · cases alive <;> simp [with_conn, hphase, Phase.rest]
    · simp [hphase, Phase.rest]
    · simp [hphase]
  · refine .quiet _ _ ⟨rfl, rfl, rfl, rfl, ?_, ?_, hfin, hclosed.trans, ?_⟩ <;> simp [with_conn, hphase, Phase.rest]

theorem deliver_effect {chunk : Bytes} {alive : Bool} (io : Io) (recv : Recv)
    (hphase : stream.phase = .deliver chunk alive) :
    Effect stream (.driver io recv) (stream.deliver chunk alive) := by
  have hrest : stream.phase.rest = [] := by simp [hphase, Phase.rest]
  unfold deliver
  split
  · refine .quiet _ _ ⟨rfl, rfl, rfl, rfl, ?_, ?_, rfl, id, ?_⟩ <;> simp [hphase, Phase.rest]
  · exact .quiet _ _ (quiet_self fun _ _ _ => hrest)

theorem step_effect (stream : UtpStream) (event : Event) : Effect stream event (stream.step event) := by
  cases event with
  | poll_write buf => exact poll_write_effect stream buf
  | poll_shutdown => exact .shutdown
  | poll_read remaining => exact poll_read_effect stream remaining
  | driver io recv =>
    change Effect stream _ (stream.driver_step io recv)
    unfold driver_step
    split
    case h_1 hphase => exact try_recv_effect io recv hphase
    case h_2 rest hphase => exact .write io recv rest hphase
    case h_3 hphase => exact drive_once_effect io recv hphase
    case h_4 alive hphase => exact pump_round_effect io recv hphase
    case h_5 chunk alive hphase => exact deliver_effect io recv hphase
    case h_6 hphase => exact .quiet _ _ (quiet_self fun _ _ _ => by simp [hphase, Phase.rest])

theorem write_round_conn (stream : UtpStream) (rest : Bytes) {field : UtpConnection → Bool}
    (hwrite : field (stream.task.conn.write rest).2 = field stream.task.conn) :
    field (stream.write_round rest).task.conn = field stream.task.conn := by
  unfold write_round
  split
  · rfl
  · dsimp only
    split <;> exact hwrite

theorem write_round_channel (stream : UtpStream) (rest : Bytes) :
    (stream.write_round rest).write_channel = stream.write_channel ∧
      (stream.write_round rest).shutdown_started = stream.shutdown_started ∧
      (stream.write_round rest).accepted = stream.accepted := by
  unfold write_round
  split
  · exact ⟨rfl, rfl, rfl⟩
  · dsimp only
    split <;> exact ⟨rfl, rfl, rfl⟩

/-- A round either writes as much as there is room for, or finds no room and gives up the rest. -/
theorem write_round_of_open (hopen : stream.Open) (hwritable : Writable stream) (rest : Bytes) :
    (stream.write_round rest).taken ++ (stream.write_round rest).phase.rest =
      stream.taken ++ if stream.task.conn.room = 0 then [] else rest := by
  unfold write_round
  split
  · rename_i hrest
    simp [hrest, Phase.rest]
  · rename_i hrest
    rw [write_of_open hopen.1 hwritable.no_fin hrest]
    dsimp only
    have hlength : 0 < rest.length := List.length_pos_iff.mpr hrest
    split
    · rename_i hzero
      rw [if_pos (by omega)]
      simp [with_conn, Phase.rest]
    · rename_i hsome
      rw [if_neg (by omega)]
      simp [with_conn, Phase.rest]

theorem Writable.step (h : Writable stream) (hevent : event ≠ .poll_shutdown) : Writable (stream.step event) := by
  obtain ⟨hfin, hclose, hshutdown⟩ := h
  generalize hstep : stream.step event = stream'
  cases hstep ▸ step_effect stream event with
  | accept buf => exact ⟨hfin, by simpa using hclose, hshutdown⟩
  | shutdown => exact absurd rfl hevent
  | take io recv b rest hphase hchannel =>
    rw [hchannel, List.mem_cons, not_or] at hclose
    exact ⟨hfin, hclose.2, hshutdown⟩
  | close io recv rest hphase hchannel =>
    rw [hchannel] at hclose
    exact absurd (List.mem_cons_self ..) hclose
  | write io recv rest hphase =>
    obtain ⟨hchannel, hstarted, -⟩ := write_round_channel stream rest
    exact ⟨(write_round_conn stream rest (write_local_fin_sent _ _)).trans hfin, hchannel ▸ hclose,
      hstarted.trans hshutdown⟩
  | quiet event stream' h => exact ⟨h.fin.trans hfin, h.channel ▸ hclose, h.shutdown.trans hshutdown⟩

/-- A connection that has been closed stays closed, and a driver that has returned does not run again. -/
theorem open_of_step (h : (stream.step event).Open) : stream.Open := by
  generalize hstep : stream.step event = stream' at h
  obtain ⟨hclosed, hdone⟩ := h
  cases hstep ▸ step_effect stream event with
  | accept buf => exact ⟨hclosed, hdone⟩
  | shutdown =>
    have hsame : stream.poll_shutdown.Open ↔ stream.Open := by
      unfold poll_shutdown
      split <;> exact Iff.rfl
    exact hsame.mp ⟨hclosed, hdone⟩
  | take io recv b rest hphase hchannel => exact ⟨hclosed, by simp [hphase]⟩
  | close io recv rest hphase hchannel => exact ⟨hclosed, by simp [hphase]⟩
  | write io recv rest hphase =>
    exact ⟨(write_round_conn stream rest (write_closed _ _)).symm.trans hclosed, by simp [hphase]⟩
  | quiet event stream' h =>
    refine ⟨?_, fun hphase => hdone (h.done hphase)⟩
    rw [← Bool.not_eq_true] at hclosed ⊢
    exact fun hbefore => hclosed (h.closed hbefore)

/-- A step keeps the accepted bytes in order unless it writes to a full send buffer. -/
theorem inOrder_step_iff (hwritable : Writable stream) (hopen : stream.Open) (hinOrder : stream.InOrder) :
    (stream.step event).InOrder ↔ ¬stream.WritesToFull event := by
  generalize hstep : stream.step event = stream'
  unfold InOrder pending at hinOrder ⊢
  cases hstep ▸ step_effect stream event with
  | accept buf => simp [WritesToFull, hinOrder, WriteCmd.bytes]
  | shutdown =>
    have hcmd : stream.poll_shutdown.write_channel.flatMap WriteCmd.bytes =
        stream.write_channel.flatMap WriteCmd.bytes := by
      simp [poll_shutdown, hwritable.no_shutdown, hopen.2, WriteCmd.bytes]
    simp only [hcmd, WritesToFull]
    simp [poll_shutdown, hwritable.no_shutdown, hinOrder]
  | take io recv b rest hphase hchannel =>
    simp [WritesToFull, hinOrder, hphase, hchannel, Phase.rest, WriteCmd.bytes]
  | close io recv rest hphase hchannel =>
    simp [WritesToFull, hinOrder, hphase, hchannel, Phase.rest, WriteCmd.bytes, with_conn]
  | write io recv rest hphase =>
    obtain ⟨hchannel, -, haccepted⟩ := write_round_channel stream rest
    rw [haccepted, hchannel, ← List.append_assoc, write_round_of_open hopen hwritable, hinOrder]
    simp only [hphase, Phase.rest, ← List.append_assoc, List.append_cancel_right_eq, WritesToFull]
    split
    · rename_i hroom
      simp [hroom]
    · rename_i hroom
      simp [hroom]
  | quiet event stream' h =>
    rw [h.accepted, h.taken, h.rest, h.channel]
    refine iff_of_true hinOrder ?_
    rintro ⟨io, recv, hevent, hrest, -⟩
    exact hrest (h.no_write io recv hevent)

theorem write_round_phase (stream : UtpStream) (rest : Bytes) : (stream.write_round rest).phase ≠ .done := by
  unfold write_round
  split
  · simp
  · dsimp only
    split <;> simp [with_conn]

/-- Giving up bytes neither closes the connection nor ends the driver. -/
theorem open_step_of_writesToFull (hopen : stream.Open) (hfull : stream.WritesToFull event) :
    (stream.step event).Open := by
  obtain ⟨io, recv, rfl, hrest, -⟩ := hfull
  change (stream.driver_step io recv).Open
  unfold driver_step
  split
  case h_2 rest hphase =>
    exact ⟨(write_round_conn stream rest (write_closed _ _)).trans hopen.1, write_round_phase stream rest⟩
  all_goals
    rename_i hphase
    simp [hphase, Phase.rest] at hrest

end

section
variable {conn : UtpConnection} {events : List Event}

theorem run_take_succ (stream : UtpStream) {k : Nat} {event : Event} (h : events[k]? = some event) :
    stream.run (events.take (k + 1)) = (stream.run (events.take k)).step event := by
  simp [run, List.take_add_one, h]

theorem writable_run (hfin : conn.local_fin_sent = false) (hevents : ∀ event ∈ events, event ≠ .poll_shutdown) :
    Writable ((spawn conn).run events) := by
  induction events using List.reverseRecOn with
  | nil => exact ⟨hfin, by simp [run, spawn], rfl⟩
  | append_singleton events event ih =>
    have hbefore := ih fun other hother => hevents other (by simp [hother])
    rw [run, List.foldl_append]
    exact hbefore.step (hevents event (by simp))

/-- In a run before shutdown the accepted bytes are, at every moment at which the connection is open, those
    the connection has taken followed by those that wait, exactly if the driver never writes a byte of a
    command while the send buffer is full. -/
theorem accepted_in_order_iff (conn : UtpConnection) (hfin : conn.local_fin_sent = false) (events : List Event)
    (hevents : ∀ event ∈ events, event ≠ .poll_shutdown) :
    (∀ k, ((spawn conn).run (events.take k)).Open → ((spawn conn).run (events.take k)).InOrder) ↔
      ∀ k, ∀ event ∈ events[k]?, ((spawn conn).run (events.take k)).Open →
        ¬((spawn conn).run (events.take k)).WritesToFull event := by
  have hwritable : ∀ k, Writable ((spawn conn).run (events.take k)) := fun k =>
    writable_run hfin fun event hevent => hevents event (List.mem_of_mem_take hevent)
  constructor
  · intro hinOrder k event hevent hopen hfull
    have hnext := hinOrder (k + 1)
    rw [run_take_succ _ hevent] at hnext
    have hstays := open_step_of_writesToFull hopen hfull
    exact (inOrder_step_iff (hwritable k) hopen (hinOrder k hopen)).mp (hnext hstays) hfull
  · intro hfits k
    induction k with
    | zero =>
      intro _
      rfl
    | succ k ih =>
      cases hevent : events[k]? with
      | none =>
        have hlength : events.length ≤ k := List.getElem?_eq_none_iff.mp hevent
        rw [List.take_of_length_le (by omega : events.length ≤ k + 1), ← List.take_of_length_le hlength]
        exact ih
      | some event =>
        rw [run_take_succ _ hevent]
        intro hopen
        have hbefore := open_of_step hopen
        exact (inOrder_step_iff (hwritable k) hbefore (ih hbefore)).mpr (hfits k event hevent hbefore)

/-- A connection between two hosts right after the handshake. -/
def sample_conn : UtpConnection :=
  UtpConnection.established ⟨.V4 ⟨#v[10, 0, 0, 5]⟩, 6881⟩ 8 7 1 4194304 0 0

/-- The driver takes a command and makes two rounds of its write loop. -/
def command_events (buf : Bytes) : List Event :=
  [.poll_write buf, .driver (Link.io_at 0) .timed_out, .driver (Link.io_at 0) .timed_out,
    .driver (Link.io_at 0) .timed_out]

/-- A short command fits, so that its bytes are in order at every moment, up to the one at which the
    connection has taken them all. -/
theorem accepted_in_order_iff_short_write :
    (∀ k, ((spawn sample_conn).run ((command_events [1, 2, 3]).take k)).Open →
        ((spawn sample_conn).run ((command_events [1, 2, 3]).take k)).InOrder) ∧
      ((spawn sample_conn).run (command_events [1, 2, 3])).Open ∧
      ((spawn sample_conn).run (command_events [1, 2, 3])).taken = [1, 2, 3] := by
  have hroom : ∀ k < 4, ((spawn sample_conn).run ((command_events [1, 2, 3]).take k)).task.conn.room ≠ 0 := by
    decide
  refine ⟨(accepted_in_order_iff sample_conn rfl _ (by simp [command_events])).mpr ?_, ⟨rfl, by decide⟩, rfl⟩
  rintro k event hevent - ⟨-, -, -, -, hfull⟩
  exact hroom k (List.getElem?_eq_some_iff.mp hevent).1 hfull

end

/-- A command that is longer than the send buffer loses its end. -/
theorem overflow_run {buf : Bytes} (hbuf : SEND_BUFFER_CAP < buf.length) :
    ((spawn sample_conn).run (command_events buf)).Open ∧
      ((spawn sample_conn).run (command_events buf)).accepted = buf ∧
      ((spawn sample_conn).run (command_events buf)).taken = buf.take SEND_BUFFER_CAP ∧
      ((spawn sample_conn).run (command_events buf)).pending = [] := by
  have hne : buf ≠ [] := by
    rintro rfl
    simp at hbuf
  have hrest : buf.drop SEND_BUFFER_CAP ≠ [] := by
    rw [← List.length_pos_iff, List.length_drop]
    omega
  have hroom : sample_conn.room = SEND_BUFFER_CAP := rfl
  have hfull : ({ sample_conn with send_buf := buf.take SEND_BUFFER_CAP } : UtpConnection).room = 0 := by
    simp only [UtpConnection.room, List.length_take]
    omega
  have haccept : (spawn sample_conn).step (.poll_write buf) =
      { spawn sample_conn with write_channel := [.Bytes buf], accepted := buf } := by
    simp [UtpStream.step, poll_write, hne, spawn]
  have hfirst : sample_conn.write buf =
      (SEND_BUFFER_CAP, { sample_conn with send_buf := buf.take SEND_BUFFER_CAP }) := by
    rw [write_of_open rfl rfl hne, hroom, Nat.min_eq_right hbuf.le]
    rfl
  have hsecond : ({ sample_conn with send_buf := buf.take SEND_BUFFER_CAP } : UtpConnection).write
      (buf.drop SEND_BUFFER_CAP) = (0, { sample_conn with send_buf := buf.take SEND_BUFFER_CAP }) := by
    rw [write_of_open rfl rfl hrest, hfull, Nat.min_zero, List.take_zero, List.append_nil]
  have hrun : (spawn sample_conn).run (command_events buf) = { spawn sample_conn with
        task := { conn := { sample_conn with send_buf := buf.take SEND_BUFFER_CAP }, calls := 0, sent := [] }
        accepted := buf, taken := buf.take SEND_BUFFER_CAP } := by
    simp only [run, command_events, List.foldl_cons, List.foldl_nil, haccept]
    simp only [UtpStream.step, driver_step, spawn, try_recv, write_round, hne, hrest, if_false, hfirst, with_conn,
      List.nil_append, hsecond, if_true, show SEND_BUFFER_CAP ≠ 0 by decide]
  rw [hrun]
  exact ⟨⟨rfl, by simp [spawn]⟩, rfl, rfl, rfl⟩

theorem not_inOrder_of_overflow {buf : Bytes} (hbuf : SEND_BUFFER_CAP < buf.length) :
    ¬((spawn sample_conn).run (command_events buf)).InOrder := by
  obtain ⟨-, haccepted, htaken, hpending⟩ := overflow_run hbuf
  intro hinOrder
  have hlength := congrArg List.length hinOrder
  rw [haccepted, htaken, hpending, List.append_nil, List.length_take] at hlength
  omega

/-- One write of a byte more than the send buffer holds: all of it is accepted, and its last byte is
    neither in the connection nor waiting. -/
theorem accepted_byte_dropped :
    ((spawn sample_conn).run (command_events (List.replicate (SEND_BUFFER_CAP + 1) 0))).Open ∧
      ¬((spawn sample_conn).run (command_events (List.replicate (SEND_BUFFER_CAP + 1) 0))).InOrder := by
  have hbuf : SEND_BUFFER_CAP < (List.replicate (SEND_BUFFER_CAP + 1) (0 : UInt8)).length := by
    rw [List.length_replicate]
    exact Nat.lt_succ_self _
  exact ⟨(overflow_run hbuf).1, not_inOrder_of_overflow hbuf⟩

end UtpStream

end swarmotter.utp

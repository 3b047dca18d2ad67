import Swarmotter.Lib.Tickets
import Swarmotter.Peer.Codec
import Swarmotter.Storage.Io

open swarmotter.meta swarmotter.storage swarmotter.peer

namespace swarmotter.engine.serve

def MAX_INBOUND_SERVE_QUEUE : Nat := 32

def MAX_SERVE_BLOCK_LENGTH : Nat := 128 * 1024

def SERVE_DRAIN_PER_ITERATION : Nat := 2

/-- The fields of a `Request` or `Cancel` message. -/
structure Block where
  piece : UInt32
  offset : UInt32
  length : UInt32
  deriving DecidableEq, Repr

structure InboundUploadQueue where
  queue : Vec Block

namespace InboundUploadQueue

def default : InboundUploadQueue := ⟨[]⟩

/-- Queue a request. It is ignored if the piece is not verified, the block is not inside it or too
    long, or the queue is full. -/
def offer (self : InboundUploadQueue) (request : Block) (shared_have : PieceBitfield) (piece_count : Nat)
    (piece_length_of : Nat → Nat) : Bool × InboundUploadQueue :=
  let index := request.piece.toNat
  if index ≥ piece_count ∨ shared_have.has index = false then (false, self)
  else if request.length = 0 ∨ request.length.toNat > MAX_SERVE_BLOCK_LENGTH then (false, self)
  else if request.offset.toNat + request.length.toNat > piece_length_of index then (false, self)
  else if self.queue.length ≥ MAX_INBOUND_SERVE_QUEUE then (false, self)
  else (true, ⟨self.queue ++ [request]⟩)

def cancel (self : InboundUploadQueue) (request : Block) : InboundUploadQueue :=
  ⟨self.queue.filter fun queued => queued ≠ request⟩

def clear (_ : InboundUploadQueue) : InboundUploadQueue := ⟨[]⟩

end InboundUploadQueue

/-- A peer session of a downloading torrent, as far as uploads go. -/
structure Session where
  inbound_serve : InboundUploadQueue
  /-- The messages that have been written to the peer. -/
  sent : Vec Message
  /-- The counter of the engine's state. -/
  uploaded : Nat
  shared_have : PieceBitfield
  /-- A failed write ends the session, and its queue with it. -/
  ended : Bool

/-- What a turn of serving meets: the files as they are then, and what writing to the peer returns. -/
structure Turn where
  disk : Disk
  write : Result Unit

namespace Session

variable (storage : StorageIo)

/-- Serve the first request of the queue. -/
def serve_one (self : Session) (turn : Turn) : Result Bool × Session :=
  match self.inbound_serve.queue with
  | [] => (.ok false, self)
  | request :: queue =>
    let popped := { self with inbound_serve := ⟨queue⟩ }
    match storage.read_block turn.disk request.piece.toNat request.offset.toNat request.length.toNat with
    | .error _ => (.ok true, popped)
    | .ok block =>
      match turn.write with
      | .error error => (.error error, popped)
      | .ok _ => (.ok true, { popped with
          sent := self.sent ++ [.Piece request.piece request.offset block]
          uploaded := u64.saturating_add self.uploaded request.length.toNat })

/-- The loop of `serve_bounded`. -/
def serve_turns (self : Session) : Vec Turn → Result Unit × Session
  | [] => (.ok (), self)
  | turn :: turns =>
    match self.serve_one storage turn with
    | (.error error, session) => (.error error, session)
    | (.ok false, session) => (.ok (), session)
    | (.ok true, session) => session.serve_turns turns

def serve_bounded (self : Session) (turns : Vector Turn SERVE_DRAIN_PER_ITERATION) : Result Unit × Session :=
  self.serve_turns storage turns.toList

end Session

/-- What happens in a session. A piece is completed by this session or by another one. -/
inductive Event where
  | Request (request : Block)
  | Cancel (request : Block)
  | Complete (piece_index : Nat)
  | Serve (turns : Vector Turn SERVE_DRAIN_PER_ITERATION)
  | Clear

section
variable (storage : StorageIo) (piece_length_of : Nat → Nat)

def Session.step (session : Session) (event : Event) : Session :=
  if session.ended then session
  else
    match event with
    | .Request request => { session with
        inbound_serve := (session.inbound_serve.offer request session.shared_have storage.torrent.piece_count
          piece_length_of).2 }
    | .Cancel request => { session with inbound_serve := session.inbound_serve.cancel request }
    | .Complete piece_index => { session with shared_have := session.shared_have.set piece_index }
    | .Serve turns =>
      match session.serve_bounded storage turns with
      | (.error _, session) => { session with inbound_serve := session.inbound_serve.clear, ended := true }
      | (.ok _, session) => session
    | .Clear => { session with inbound_serve := session.inbound_serve.clear }

def Session.start (shared_have : PieceBitfield) : Session := ⟨.default, [], 0, shared_have, false⟩

def Session.run (session : Session) (events : Vec Event) : Session :=
  events.foldl (Session.step storage piece_length_of) session

end

/-- The answers that a queue gives: a request is dropped, or sent with the block that is read for it. -/
inductive Serves (storage : StorageIo) : Vec Block → Vec Message → Vec Block → Vec Message → Prop where
  | done (queue sent) : Serves storage queue sent queue sent
  | drop (request) {queue sent queue' sent'} (hrest : Serves storage queue sent queue' sent') :
      Serves storage (request :: queue) sent queue' sent'
  | send {request : Block} {disk block queue sent queue' sent'}
      (hread : storage.read_block disk request.piece.toNat request.offset.toNat request.length.toNat = .ok block)
      (hrest : Serves storage queue (sent ++ [.Piece request.piece request.offset block]) queue' sent') :
      Serves storage (request :: queue) sent queue' sent'

section
variable {storage : StorageIo} {queue queue' queue'' : Vec Block} {sent sent' sent'' : Vec Message}

theorem Serves.trans (h : Serves storage queue sent queue' sent')
    (h' : Serves storage queue' sent' queue'' sent'') : Serves storage queue sent queue'' sent'' := by
  induction h with
  | done => exact h'
  | drop request _ ih => exact .drop request (ih h')
  | send hread _ ih => exact .send hread (ih h')

theorem Serves.length_queue_le (h : Serves storage queue sent queue' sent') : queue'.length ≤ queue.length := by
  induction h with
  | done => exact Nat.le_refl _
  | drop request _ ih => exact Nat.le_succ_of_le ih
  | send hread _ ih => exact Nat.le_succ_of_le ih

theorem Serves.length_sent_le (h : Serves storage queue sent queue' sent') : sent.length ≤ sent'.length := by
  induction h with
  | done => exact Nat.le_refl _
  | drop request _ ih => exact ih
  | send hread _ ih =>
    rw [List.length_append] at ih
    exact Nat.le_of_add_right_le ih

/-- Whatever is sent for the requests of a queue answers them, if each single block does. -/
theorem Serves.ledger {Waits : Nat → Block → Prop} {Answers : Nat → Nat → Message → Prop} {now : Nat}
    (h : Serves storage queue sent queue' sent')
    (hanswers : ∀ n request disk block, ∀ time < now, Waits time request →
      storage.read_block disk request.piece.toNat request.offset.toNat request.length.toNat = .ok block →
      sent.length ≤ n → n < sent'.length → Answers n time (.Piece request.piece request.offset block))
    (hledger : tickets.Ledger Waits Answers now queue sent) : tickets.Ledger Waits Answers now queue' sent' := by
  induction h with
  | done => exact hledger
  | drop request _ ih => exact ih hanswers hledger.tail
  | @send request disk block queue sent queue' sent' hread hrest ih =>
    have hmore : sent.length + 1 ≤ sent'.length := by simpa using hrest.length_sent_le
    refine ih ?_ (hledger.serve fun time hpast hwaits =>
      hanswers _ request disk block time hpast hwaits hread (Nat.le_refl _) hmore)
    intro n request' disk' block' time hpast hwaits hread' hfrom hto
    rw [List.length_append] at hfrom
    exact hanswers n request' disk' block' time hpast hwaits hread' (Nat.le_of_add_right_le hfrom) hto

theorem Session.serve_one_spec (storage : StorageIo) (session : Session) (turn : Turn) :
    ∃ queue sent uploaded,
    (session.serve_one storage turn).2 = { session with inbound_serve := ⟨queue⟩, sent := sent, uploaded := uploaded } ∧
      Serves storage session.inbound_serve.queue session.sent queue sent := by
  obtain ⟨⟨queue⟩, sent, uploaded, shared_have, ended⟩ := session
  cases queue with
  | nil => exact ⟨_, _, _, rfl, .done _ _⟩
  | cons request queue =>
    simp only [Session.serve_one]
    cases hread : storage.read_block turn.disk request.piece.toNat request.offset.toNat request.length.toNat with
    | error error => exact ⟨_, _, _, rfl, .drop _ (.done _ _)⟩
    | ok block =>
      cases hwrite : turn.write with
      | error error => exact ⟨_, _, _, rfl, .drop _ (.done _ _)⟩
      | ok _ => exact ⟨_, _, _, rfl, .send hread (.done _ _)⟩

theorem Session.serve_turns_spec (storage : StorageIo) (session : Session) (turns : Vec Turn) :
    ∃ queue sent uploaded,
    (session.serve_turns storage turns).2 =
        { session with inbound_serve := ⟨queue⟩, sent := sent, uploaded := uploaded } ∧
      Serves storage session.inbound_serve.queue session.sent queue sent := by
  induction turns generalizing session with
  | nil => exact ⟨_, _, _, rfl, .done _ _⟩
  | cons turn turns ih =>
    obtain ⟨queue, sent, uploaded, hone, hserves⟩ := session.serve_one_spec storage turn
    rw [Session.serve_turns]
    rcases hresult : session.serve_one storage turn with ⟨error | more, next⟩
    · rw [hresult] at hone
      exact ⟨_, _, _, hone, hserves⟩
    · rw [hresult] at hone
      obtain rfl : next = _ := hone
      cases more with
      | false => exact ⟨_, _, _, rfl, hserves⟩
      | true =>
        obtain ⟨queue', sent', uploaded', hrest, hserves'⟩ := ih _
        exact ⟨_, _, _, hrest, hserves.trans hserves'⟩

end

theorem InboundUploadQueue.offer_cases (self : InboundUploadQueue) (request : Block) (shared_have : PieceBitfield)
    (piece_count : Nat) (piece_length_of : Nat → Nat) :
    self.offer request shared_have piece_count piece_length_of = (false, self) ∨
      (self.offer request shared_have piece_count piece_length_of = (true, ⟨self.queue ++ [request]⟩) ∧
        request.piece.toNat < piece_count ∧ shared_have.has request.piece.toNat = true ∧
        0 < request.length.toNat ∧ request.length.toNat ≤ MAX_SERVE_BLOCK_LENGTH ∧
        request.offset.toNat + request.length.toNat ≤ piece_length_of request.piece.toNat ∧
        self.queue.length < MAX_INBOUND_SERVE_QUEUE) := by
  unfold InboundUploadQueue.offer
  dsimp only
  split
  · exact .inl rfl
  · rename_i hknown
    split
    · exact .inl rfl
    · rename_i hlength
      split
      · exact .inl rfl
      · rename_i hinside
        split
        · exact .inl rfl
        · rename_i hroom
          rw [not_or, Bool.not_eq_false, Nat.not_le] at hknown
          rw [not_or, ← UInt32.toNat_inj, Nat.not_lt] at hlength
          exact .inr ⟨rfl, hknown.1, hknown.2, Nat.pos_of_ne_zero hlength.1, hlength.2, Nat.not_lt.mp hinside,
            Nat.not_le.mp hroom⟩

/-- A block that is read has the length asked for and lies inside the piece. -/
theorem read_block_inside {storage : StorageIo} {disk : Disk} {index offset length : Nat} {block : Bytes}
    (h : storage.read_block disk index offset length = .ok block) :
    block.length = length ∧ ∃ start stop, storage.torrent.piece_byte_range index = some (start, stop) ∧
      start + offset + length ≤ stop := by
  simp only [StorageIo.read_block, eq_ok_iff] at h
  obtain ⟨⟨abs_start, abs_end⟩, hrange, slices, -, out, -, -, hlength, hout⟩ := h
  cases hout
  refine ⟨Decidable.not_not.mp hlength, ?_⟩
  simp only [StorageIo.checked_piece_range, eq_ok_iff] at hrange
  obtain ⟨⟨start, stop⟩, hpiece, piece_len, hpiece_len, -, -, stop_offset, hstop_offset, -, hinside, -⟩ := hrange
  rw [StorageIo.piece_range, ok_or_eq_ok_iff] at hpiece
  obtain ⟨hle, rfl⟩ := checked_sub_eq_some_iff.mp hpiece_len
  obtain ⟨-, rfl⟩ := checked_add_eq_some_iff.mp hstop_offset
  exact ⟨start, stop, hpiece, by omega⟩

section
variable {storage : StorageIo} {piece_length_of : Nat → Nat} {session : Session}

theorem Session.step_ended (hended : session.ended = true) (event : Event) :
    session.step storage piece_length_of event = session := by
  simp only [Session.step, hended, if_true]

/-- A serve step leaves what the requests it took have led to, and an empty queue if the session ends. -/
theorem Session.step_serve (hopen : session.ended = false)
    (turns : Vector Turn SERVE_DRAIN_PER_ITERATION) : ∃ queue next,
      session.step storage piece_length_of (.Serve turns) = next ∧
      Serves storage session.inbound_serve.queue session.sent queue next.sent ∧
      ((next.ended = false ∧ next.inbound_serve.queue = queue) ∨ next.inbound_serve.queue = []) := by
  obtain ⟨queue, sent, uploaded, hresult, hserves⟩ := session.serve_turns_spec storage turns.toList
  refine ⟨queue, _, rfl, ?_⟩
  simp only [Session.step, hopen, Bool.false_eq_true, if_false, Session.serve_bounded]
  rcases hturns : session.serve_turns storage turns.toList with ⟨error | _, next⟩
  all_goals
    rw [hturns] at hresult
    obtain rfl : next = _ := hresult
  · exact ⟨hserves, .inr rfl⟩
  · exact ⟨hserves, .inl ⟨hopen, rfl⟩⟩

/-- The queue is bounded, and empty once the session has ended. -/
structure Session.Bounded (session : Session) : Prop where
  length_le : session.inbound_serve.queue.length ≤ MAX_INBOUND_SERVE_QUEUE
  empty : session.ended = true → session.inbound_serve.queue = []

theorem Session.Bounded.step (h : session.Bounded) (event : Event) :
    (session.step storage piece_length_of event).Bounded := by
  cases hopen : session.ended with
  | true => rwa [Session.step_ended hopen]
  | false =>
    cases event with
    | Serve turns =>
      obtain ⟨queue, next, hnext, hserves, ⟨hnext_open, hqueue⟩ | hqueue⟩ := Session.step_serve hopen turns
      · rw [hnext]
        refine ⟨?_, fun hended => ?_⟩
        · rw [hqueue]
          exact hserves.length_queue_le.trans h.length_le
        · rw [hnext_open] at hended
          cases hended
      · rw [hnext]
        exact ⟨by simp [hqueue], fun _ => hqueue⟩
    | Request request =>
      simp only [Session.step, hopen, Bool.false_eq_true, if_false]
      refine ⟨?_, fun hended => by cases hended⟩
      rcases session.inbound_serve.offer_cases request session.shared_have storage.torrent.piece_count
        piece_length_of with hignored | ⟨hqueued, -, -, -, -, -, hroom⟩
      · rw [hignored]
        exact h.length_le
      · rw [hqueued, List.length_append]
        exact hroom
    | Cancel request =>
      simp only [Session.step, hopen, Bool.false_eq_true, if_false, InboundUploadQueue.cancel]
      exact ⟨(List.length_filter_le _ _).trans h.length_le, fun hended => by cases hended⟩
    | Complete piece_index =>
      simp only [Session.step, hopen, Bool.false_eq_true, if_false]
      exact ⟨h.length_le, fun hended => by cases hended⟩
    | Clear =>
      simp only [Session.step, hopen, Bool.false_eq_true, if_false, InboundUploadQueue.clear]
      exact ⟨Nat.zero_le _, fun _ => rfl⟩

theorem Session.Bounded.run (h : session.Bounded) (events : Vec Event) :
    (session.run storage piece_length_of events).Bounded := by
  induction events generalizing session with
  | nil => exact h
  | cons event events ih => exact ih (h.step event)

theorem Session.bounded_start (shared_have : PieceBitfield) : (start shared_have).Bounded :=
  ⟨Nat.zero_le _, fun _ => rfl⟩

end

section
variable (storage : StorageIo) (piece_length_of : Nat → Nat) (first : Session) (events : Vec Event)

/-- The session before the event number `time`. -/
def at_time (time : Nat) : Session := first.run storage piece_length_of (events.take time)

/-- The event number `time` is a request that may be answered: its piece is verified then, and its block
    lies inside it and has an allowed length. -/
structure Offered (time : Nat) (request : Block) : Prop where
  event : events[time]? = some (.Request request)
  in_torrent : request.piece.toNat < storage.torrent.piece_count
  verified : (at_time storage piece_length_of first events time).shared_have.has request.piece.toNat = true
  inside : request.offset.toNat + request.length.toNat ≤ piece_length_of request.piece.toNat
  pos : 0 < request.length.toNat
  le_max : request.length.toNat ≤ MAX_SERVE_BLOCK_LENGTH

/-- Between two times a request is not cancelled. -/
def NotCancelled (request : Block) (start stop : Nat) : Prop :=
  ∀ time, start < time → time < stop → events[time]? ≠ some (.Cancel request) ∧ events[time]? ≠ some .Clear

def Waits (now time : Nat) (request : Block) : Prop :=
  Offered storage piece_length_of first events time request ∧ NotCancelled events request time now

/-- The message number `n` is sent by a later serve step and carries the block that was asked for at
    `time`, which has not been cancelled in between. -/
def Answers (n time : Nat) (message : Message) : Prop :=
  ∃ request block later turns start stop,
    Offered storage piece_length_of first events time request ∧
    message = .Piece request.piece request.offset block ∧ block.length = request.length.toNat ∧
    storage.torrent.piece_byte_range request.piece.toNat = some (start, stop) ∧
    start + request.offset.toNat + block.length ≤ stop ∧
    time < later ∧ events[later]? = some (.Serve turns) ∧ NotCancelled events request time later ∧
    (at_time storage piece_length_of first events later).sent.length ≤ n ∧
    n < (at_time storage piece_length_of first events (later + 1)).sent.length

end

section
variable {storage : StorageIo} {piece_length_of : Nat → Nat} {first : Session} {events : Vec Event} {time now : Nat}
  {event : Event}

theorem at_time_succ (storage : StorageIo) (piece_length_of : Nat → Nat) (first : Session)
    (hevent : events[time]? = some event) :
    at_time storage piece_length_of first events (time + 1) =
      (at_time storage piece_length_of first events time).step storage piece_length_of event := by
  simp [at_time, Session.run, List.take_add_one, hevent, List.foldl_append]

theorem at_time_of_length_le (h : events.length ≤ time) :
    at_time storage piece_length_of first events time = first.run storage piece_length_of events := by
  rw [at_time, List.take_of_length_le h]

/-- A request goes on waiting over an event that does not cancel it. -/
theorem Waits.succ {request : Block} (hevent : events[now]? = some event)
    (h : Waits storage piece_length_of first events now time request) (hcancel : event ≠ .Cancel request)
    (hclear : event ≠ .Clear) : Waits storage piece_length_of first events (now + 1) time request := by
  refine ⟨h.1, fun middle hafter hbefore => ?_⟩
  rcases Nat.lt_succ_iff_lt_or_eq.mp hbefore with hearlier | rfl
  · exact h.2 middle hafter hearlier
  · rw [hevent]
    exact ⟨fun heq => hcancel (Option.some.inj heq), fun heq => hclear (Option.some.inj heq)⟩

/-- At every time the queue holds requests that wait, and what has been sent answers earlier ones. -/
theorem ledger_at_time (storage : StorageIo) (piece_length_of : Nat → Nat) (hbounded : first.Bounded)
    (hqueue : first.inbound_serve.queue = []) (hsent : first.sent = [])
    (hnow : now ≤ events.length) :
    tickets.Ledger (Waits storage piece_length_of first events now) (Answers storage piece_length_of first events) now
      (at_time storage piece_length_of first events now).inbound_serve.queue
      (at_time storage piece_length_of first events now).sent := by
  induction now with
  | zero =>
    change tickets.Ledger _ _ 0 first.inbound_serve.queue first.sent
    rw [hqueue, hsent]
    exact .empty
  | succ now ih =>
    have hledger := ih (Nat.le_of_succ_le hnow)
    obtain ⟨event, hevent⟩ : ∃ event, events[now]? = some event := ⟨_, List.getElem?_eq_getElem hnow⟩
    have hsucc := at_time_succ storage piece_length_of first hevent
    generalize hsession : at_time storage piece_length_of first events now = session at hledger hsucc
    have hnone : ∀ {queue sent}, tickets.Ledger (Waits storage piece_length_of first events now)
        (Answers storage piece_length_of first events) now queue sent →
        tickets.Ledger (Waits storage piece_length_of first events (now + 1))
          (Answers storage piece_length_of first events) (now + 1) [] sent := by
      intro queue sent hledger
      simpa using (hledger.filter (fun _ => false) (by simp)).later
    rw [hsucc]
    cases hopen : session.ended with
    | true =>
      have hempty : session.inbound_serve.queue = [] := by
        rw [← hsession] at hopen ⊢
        exact (hbounded.run _).empty hopen
      rw [Session.step_ended hopen, hempty]
      exact hnone hledger
    | false =>
      cases event with
      | Serve turns =>
        obtain ⟨queue, next, hnext, hserves, hafter⟩ := Session.step_serve hopen turns
        rw [hnext]
        have hserved := hserves.ledger (fun n request disk block time hpast hwaits hread hfrom hto => ?_) hledger
        · rcases hafter with ⟨-, hqueue⟩ | hqueue
          · rw [hqueue]
            exact hserved.later.mono fun time request hwaits => hwaits.succ hevent (by simp) (by simp)
          · rw [hqueue]
            exact hnone hserved
        · obtain ⟨hlength, start, stop, hrange, hinside⟩ := read_block_inside hread
          refine ⟨request, block, now, turns, start, stop, hwaits.1, rfl, hlength, hrange, ?_, hpast, hevent, hwaits.2,
            ?_, ?_⟩
          · rwa [hlength]
          · rwa [hsession]
          · rwa [hsucc, hnext]
      | Request request =>
        have hmono := hledger.mono fun time request hwaits => hwaits.succ hevent (by simp) (by simp)
        simp only [Session.step, hopen, Bool.false_eq_true, if_false]
        rcases session.inbound_serve.offer_cases request session.shared_have storage.torrent.piece_count
          piece_length_of with hignored | ⟨hqueued, hcount, hverified, hpos, hmax, hinside, -⟩
        · rw [hignored]
          exact hmono.later
        · rw [hqueued]
          refine hmono.push ⟨⟨hevent, hcount, ?_, hinside, hpos, hmax⟩, fun middle hafter hbefore => ?_⟩
          · rwa [hsession]
          · omega
      | Cancel request =>
        simp only [Session.step, hopen, Bool.false_eq_true, if_false]
        refine (hledger.filter (fun queued => queued ≠ request) fun time queued hother hwaits => ?_).later
        exact hwaits.succ hevent (fun heq => of_decide_eq_true hother (Event.Cancel.inj heq).symm) (by simp)
      | Complete piece_index =>
        simp only [Session.step, hopen, Bool.false_eq_true, if_false]
        exact (hledger.mono fun time request hwaits => hwaits.succ hevent (by simp) (by simp)).later
      | Clear =>
        simp only [Session.step, hopen, Bool.false_eq_true, if_false]
        exact hnone hledger

end

/-- Whatever a peer asks for and cancels, and whatever else happens in between, the queue is bounded.
    Each `Piece` message that is sent answers a request of its own, in the order of the requests: one for
    a block inside a piece that was verified when it was asked for, which was not cancelled since. -/
theorem sent_answers_requests (storage : StorageIo) (piece_length_of : Nat → Nat) (shared_have : PieceBitfield)
    (events : Vec Event) :
    (∀ time, (at_time storage piece_length_of (.start shared_have) events time).inbound_serve.queue.length ≤
      MAX_INBOUND_SERVE_QUEUE) ∧
    ∃ requested : Vec Nat, requested.Pairwise (· < ·) ∧
      requested.length = ((Session.start shared_have).run storage piece_length_of events).sent.length ∧
      ∀ n message, ((Session.start shared_have).run storage piece_length_of events).sent[n]? = some message →
        ∃ time, requested[n]? = some time ∧
          Answers storage piece_length_of (.start shared_have) events n time message := by
  have hbounded := Session.bounded_start shared_have
  refine ⟨fun time => (hbounded.run _).length_le, ?_⟩
  have hledger := ledger_at_time storage piece_length_of hbounded rfl rfl (Nat.le_refl events.length)
  rw [at_time_of_length_le (Nat.le_refl events.length)] at hledger
  obtain ⟨requested, waiting, hordered, -, -, hlength, hanswers⟩ := hledger
  refine ⟨requested, (List.pairwise_append.mp hordered).1, hlength, fun n message hmessage => ?_⟩
  have hn : n < requested.length := by
    rw [hlength]
    exact (List.getElem?_eq_some_iff.mp hmessage).1
  exact ⟨requested[n], List.getElem?_eq_getElem hn, hanswers n _ message (List.getElem?_eq_getElem hn) hmessage⟩

end swarmotter.engine.serve

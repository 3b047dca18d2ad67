import Swarmotter.Peer.Reader

open swarmotter.peer

namespace swarmotter.engine

namespace PeerSession

inductive Kind where
  | Parallel
  | Endgame
  deriving DecidableEq

/-- Where a session stands. In both of its waits a call of `read_message` is pending under a timeout. -/
inductive Phase where
  /-- At the head of the session loop. -/
  | Top
  /-- Waiting for a change of the peer's state. -/
  | StateWait (read : ReadMessage)
  /-- Waiting for the blocks of the pieces that were asked for. `failed` is an error that ends the
      session after the window. -/
  | Window (failed received_any : Bool) (read : ReadMessage)
  | Ended
  deriving DecidableEq

def Phase.read : Phase → Option ReadMessage
  | .StateWait read => some read
  | .Window _ _ read => some read
  | .Top => none
  | .Ended => none

/-- What the session decides over a message from the state that it shares with the other sessions. -/
structure Decision where
  /-- The message is a block that was asked for. -/
  recorded : Bool
  /-- A write to the peer or to the storage has failed, or the block is refused. -/
  failed : Bool
  /-- Nothing is left to wait for, or the time of the window is over. -/
  left : Bool
  deriving DecidableEq

end PeerSession

open PeerSession in
/-- A parallel or endgame session: what it knows of its peer, the messages that `read_message` has
    returned to it, and the bytes of the peer that no call has taken yet. -/
structure PeerSession where
  kind : Kind
  peer_choking : Bool
  peer_bf : Bool
  phase : Phase
  returned : Vec Message
  wire : Bytes

namespace PeerSession

inductive Event where
  /-- One turn of the session loop up to its wait. `stop`: the deadline is over, the torrent is
      complete or there is no work. `requested`: blocks were asked for. `failed`: a write has failed. -/
  | Turn (stop requested failed : Bool)
  /-- At most `n` bytes have arrived, or the peer has closed the stream behind its last message. -/
  | Read (n : Nat) (decision : Decision)
  /-- The timeout drops the pending call. -/
  | Timeout
  deriving DecidableEq

def start (kind : Kind) (messages : Vec Message) : PeerSession where
  kind := kind
  peer_choking := true
  peer_bf := false
  phase := .Top
  returned := []
  wire := messages.flatMap Message.encode

/-- The state of the peer after one of its messages. -/
def note_message (session : PeerSession) (message : Message) : PeerSession :=
  match message with
  | .Choke => { session with peer_choking := true }
  | .Unchoke => { session with peer_choking := false }
  | .Have _ => { session with peer_bf := true }
  | .Bitfield _ => { session with peer_bf := true }
  | _ => session

def turn (session : PeerSession) (stop requested failed : Bool) : Phase :=
  if stop then .Ended
  else
    match session.kind with
    | .Parallel =>
      if session.peer_choking = false ∧ session.peer_bf then
        if requested then .Window failed false .start else .Ended
      else .StateWait .start
    | .Endgame =>
      if session.peer_choking then .StateWait .start
      else if session.peer_bf = false ∨ failed then .Ended
      else if requested then .Window false false .start
      else .Top

/-- Behind the loop over the window. An endgame session always goes on. -/
def leave_window (kind : Kind) (failed received_any : Bool) : Phase :=
  match kind with
  | .Parallel => if failed then .Ended else if received_any then .Top else .Ended
  | .Endgame => .Top

/-- The phase after a message within the window. -/
def handle_block (kind : Kind) (failed received_any : Bool) (message : Message) (decision : Decision) : Phase :=
  let received_any := match message with
    | .Piece _ _ _ => received_any || decision.recorded
    | _ => received_any
  if decision.failed then .Ended
  else if message = .Choke ∨ decision.left then leave_window kind failed received_any
  else .Window failed received_any .start

/-- The call has returned. -/
def finish (session : PeerSession) (result : Result (Option Message)) (decision : Decision) : PeerSession :=
  match session.phase, result with
  | .StateWait _, .ok (some message) =>
    { session.note_message message with
      phase := if decision.failed then .Ended else .Top
      returned := session.returned ++ [message] }
  | .StateWait _, _ => { session with phase := .Ended }
  | .Window failed received_any _, .ok (some message) =>
    { session.note_message message with
      phase := handle_block session.kind failed received_any message decision
      returned := session.returned ++ [message] }
  -- the end of the stream and an error leave the window as its timeout does
  | .Window failed received_any _, _ => { session with phase := leave_window session.kind failed received_any }
  | _, _ => session

/-- The pending call goes on. -/
def resume (session : PeerSession) (read : ReadMessage) (bytes : Bytes) (decision : Decision) : PeerSession :=
  let session := { session with wire := session.wire.drop bytes.length }
  match read.advance (.Bytes bytes) with
  | .Ready result => session.finish result decision
  | .Pending next =>
    match session.phase with
    | .StateWait _ => { session with phase := .StateWait next }
    | .Window failed received_any _ => { session with phase := .Window failed received_any next }
    | _ => session

def step (session : PeerSession) : Event → PeerSession
  | .Turn stop requested failed =>
    match session.phase with
    | .Top => { session with phase := session.turn stop requested failed }
    | _ => session
  | .Read n decision =>
    match session.phase.read with
    | some read =>
      let bytes := session.wire.take (min n read.room)
      if bytes = [] ∧ session.wire ≠ [] then session else session.resume read bytes decision
    | none => session
  | .Timeout =>
    match session.phase with
    | .StateWait _ => { session with phase := .Ended }
    | .Window failed received_any _ => { session with phase := leave_window session.kind failed received_any }
    | _ => session

def run (session : PeerSession) (events : Vec Event) : PeerSession := events.foldl step session

/-- A call that is pending has taken a part of a frame. -/
def Torn (session : PeerSession) : Prop := ∃ read, session.phase.read = some read ∧ read.bytes ≠ []

/-- The messages so far are the first ones that the peer has sent, and while a call is pending,
    every byte of the peer is in one of them, taken by the call or still to come. -/
structure Intact (messages : Vec Message) (session : PeerSession) : Prop where
  ordered : session.returned <+: messages
  framed : ∀ read, session.phase.read = some read →
    session.returned.flatMap Message.encode ++ read.bytes ++ session.wire = messages.flatMap Message.encode

section
variable {session : PeerSession} {messages todo : Vec Message} {read : ReadMessage}

/-! A call that is not pending is started anew, or not at all. -/

theorem turn_read {stop requested failed : Bool} (h : (session.turn stop requested failed).read = some read) :
    read = .start := by
  unfold turn at h
  repeat' split at h
  all_goals cases h
  all_goals rfl

@[simp] theorem leave_window_read (kind : Kind) (failed received_any : Bool) :
    (leave_window kind failed received_any).read = none := by
  unfold leave_window
  repeat' split
  all_goals rfl

theorem handle_block_read {kind : Kind} {failed received_any : Bool} {message : Message} {decision : Decision}
    (h : (handle_block kind failed received_any message decision).read = some read) : read = .start := by
  unfold handle_block at h
  dsimp only at h
  split at h
  · cases h
  · split at h
    · rw [leave_window_read] at h
      cases h
    · exact (Option.some.inj h).symm

/-- Without a pending call, a step takes nothing from the stream. -/
structure Idle (session next : PeerSession) : Prop where
  returned : next.returned = session.returned
  wire : next.wire = session.wire
  read : ∀ read, next.phase.read = some read → read = .start

theorem step_idle (h : session.phase.read = none) (event : Event) : Idle session (session.step event) := by
  have hsame : Idle session session := by
    refine ⟨rfl, rfl, fun read hread => ?_⟩
    rw [h] at hread
    cases hread
  cases event with
  | Turn stop requested failed =>
    unfold step
    dsimp only
    split
    · exact ⟨rfl, rfl, fun read hread => turn_read hread⟩
    · exact hsame
  | Read n decision =>
    simp only [step, h]
    exact hsame
  | Timeout =>
    unfold step
    dsimp only
    split
    · exact ⟨rfl, rfl, fun read hread => by cases hread⟩
    · exact ⟨rfl, rfl, fun read hread => by rw [leave_window_read] at hread; cases hread⟩
    · exact hsame

theorem step_timeout (session : PeerSession) :
    Idle session (session.step .Timeout) ∧ (session.step .Timeout).phase.read = none := by
  cases hphase : session.phase with
  | StateWait read =>
    simp only [step, hphase]
    exact ⟨⟨rfl, rfl, fun read hread => by cases hread⟩, rfl⟩
  | Window failed received_any read =>
    simp only [step, hphase, leave_window_read, and_true]
    exact ⟨rfl, rfl, fun read hread => by rw [leave_window_read] at hread; cases hread⟩
  | _ =>
    have hidle : session.phase.read = none := by
      rw [hphase]
      rfl
    have hstep : session.step .Timeout = session := by
      simp only [step, hphase]
    exact ⟨step_idle hidle .Timeout, by rw [hstep, hidle]⟩

/-! As long as no frame is torn, the calls return one message after the other. -/

/-- The stream and the pending call hold exactly the messages that are left. -/
def Reads (todo : Vec Message) (wire : Bytes) : Option ReadMessage → Prop
  | none => wire = todo.flatMap Message.encode
  | some read => read.bytes ++ wire = todo.flatMap Message.encode ∧
    (read = .start ∨ ∃ message more, todo = message :: more ∧ read.Within message)

def Sound (messages : Vec Message) (session : PeerSession) : Prop :=
  ∃ todo, messages = session.returned ++ todo ∧ Reads todo session.wire session.phase.read

theorem Reads.of_start {wire : Bytes} (hwire : wire = todo.flatMap Message.encode) {next : Option ReadMessage}
    (h : ∀ read, next = some read → read = .start) : Reads todo wire next := by
  cases next with
  | none => exact hwire
  | some read =>
    obtain rfl := h read rfl
    exact ⟨hwire, Or.inl rfl⟩

theorem Sound.intact (h : session.Sound messages) : session.Intact messages := by
  obtain ⟨todo, rfl, hreads⟩ := h
  refine ⟨List.prefix_append _ _, fun read hread => ?_⟩
  rw [hread] at hreads
  rw [List.append_assoc, hreads.1, List.flatMap_append]

theorem Sound.of_idle (h : session.Sound messages) (hread : session.phase.read = none) {next : PeerSession}
    (hidle : Idle session next) : next.Sound messages := by
  obtain ⟨todo, hmessages, hreads⟩ := h
  rw [hread] at hreads
  refine ⟨todo, ?_, ?_⟩
  · rw [hidle.returned, hmessages]
  · exact .of_start (hidle.wire.trans hreads) hidle.read

/-- What a call that returns leaves behind. -/
theorem finish_message (hread : session.phase.read = some read) (message : Message) (decision : Decision) :
    (session.finish (.ok (some message)) decision).returned = session.returned ++ [message] ∧
    (session.finish (.ok (some message)) decision).wire = session.wire ∧
    ∀ next, (session.finish (.ok (some message)) decision).phase.read = some next → next = .start := by
  have hwire : (session.note_message message).wire = session.wire := by
    unfold note_message
    split <;> rfl
  cases hphase : session.phase with
  | StateWait other =>
    simp only [finish, hphase, hwire, true_and]
    intro next hnext
    split at hnext <;> cases hnext
  | Window failed received_any other =>
    simp only [finish, hphase, hwire, true_and]
    exact fun next hnext => handle_block_read hnext
  | _ =>
    rw [hphase] at hread
    cases hread

theorem finish_end (hread : session.phase.read = some read) (decision : Decision) :
    (session.finish (.ok none) decision).returned = session.returned ∧
    (session.finish (.ok none) decision).wire = session.wire ∧
    (session.finish (.ok none) decision).phase.read = none := by
  cases hphase : session.phase with
  | StateWait other =>
    simp only [finish, hphase, true_and]
    rfl
  | Window failed received_any other => simp only [finish, hphase, leave_window_read, and_self]
  | _ =>
    rw [hphase] at hread
    cases hread

theorem resume_pending {next : ReadMessage} {bytes : Bytes} (hread : session.phase.read = some read)
    (hadvance : read.advance (.Bytes bytes) = .Pending next) (decision : Decision) :
    (session.resume read bytes decision).returned = session.returned ∧
    (session.resume read bytes decision).wire = session.wire.drop bytes.length ∧
    (session.resume read bytes decision).phase.read = some next := by
  cases hphase : session.phase with
  | StateWait other =>
    simp only [resume, hadvance, hphase, true_and]
    rfl
  | Window failed received_any other =>
    simp only [resume, hadvance, hphase, true_and]
    rfl
  | _ =>
    rw [hphase] at hread
    cases hread

/-- At the end of the stream nothing is left, and the call has taken nothing. -/
theorem Reads.end_of_stream (h : Reads todo [] (some read)) : read = .start ∧ todo.flatMap Message.encode = [] := by
  obtain ⟨hbytes, hstart | ⟨message, more, rfl, hwithin⟩⟩ := h
  · subst hstart
    exact ⟨rfl, hbytes.symm⟩
  · have hlength := congrArg List.length hbytes
    have hlt := hwithin.lt
    rw [List.append_nil, List.flatMap_cons, List.length_append] at hlength
    omega

/-- While bytes are left, the call is within the next message. -/
theorem Reads.next_message {wire : Bytes} (h : Reads todo wire (some read)) (hwire : wire ≠ []) :
    ∃ message more, todo = message :: more ∧ read.Within message ∧
      read.bytes ++ wire = message.encode ++ more.flatMap Message.encode := by
  obtain ⟨hbytes, hread⟩ := h
  cases todo with
  | nil =>
    rw [List.flatMap_nil, List.append_eq_nil_iff] at hbytes
    exact absurd hbytes.2 hwire
  | cons message more =>
    refine ⟨message, more, rfl, ?_, hbytes⟩
    obtain rfl | ⟨_, _, htodo, hwithin⟩ := hread
    · exact ReadMessage.within_start message
    · obtain ⟨rfl, rfl⟩ := List.cons.inj htodo
      exact hwithin

theorem Sound.resume (hvalid : ∀ message ∈ messages, message.Valid) (h : session.Sound messages)
    (hread : session.phase.read = some read) {bytes : Bytes} (hbytes : bytes <+: session.wire)
    (hroom : bytes.length ≤ read.room) (hend : bytes = [] → session.wire = []) (decision : Decision) :
    (session.resume read bytes decision).Sound messages := by
  obtain ⟨todo, hmessages, hreads⟩ := h
  rw [hread] at hreads
  by_cases hwire : session.wire = []
  · -- the peer has closed the stream
    rw [hwire] at hreads
    obtain rfl : bytes = [] := List.prefix_nil.mp (hwire ▸ hbytes)
    obtain ⟨rfl, htodo⟩ := hreads.end_of_stream
    have hdrop : { session with wire := session.wire.drop 0 } = session := by rw [List.drop_zero]
    have hresume : session.resume .start [] decision = session.finish (.ok none) decision := by
      simp only [PeerSession.resume, ReadMessage.start, ReadMessage.advance, if_true, List.length_nil, hdrop]
    obtain ⟨hreturned, hrest, hnext⟩ := finish_end hread decision
    rw [hresume]
    refine ⟨todo, by rw [hreturned, hmessages], ?_⟩
    rw [hnext, hrest, hwire]
    exact htodo.symm
  · obtain ⟨message, more, rfl, hwithin, hstream⟩ := hreads.next_message hwire
    have hne : bytes ≠ [] := fun hempty => hwire (hend hempty)
    obtain ⟨rest, hrest⟩ := hbytes
    have hdrop : session.wire.drop bytes.length = rest := by rw [← hrest, List.drop_left]
    have hfront : read.bytes ++ bytes <+: message.encode := by
      have htaken : read.bytes ++ bytes <+: message.encode ++ more.flatMap Message.encode := by
        rw [← hstream, ← hrest, ← List.append_assoc]
        exact List.prefix_append _ _
      apply List.prefix_of_prefix_length_le htaken (List.prefix_append _ _)
      have hle := hwithin.room_le
      rw [List.length_append]
      omega
    have hmessage : message.Valid := hvalid message (by rw [hmessages]; simp)
    obtain ⟨next, hadvance, hnext, hnextbytes⟩ | ⟨hadvance, hframe⟩ := hwithin.advance hmessage hne hroom hfront
    · obtain ⟨hreturned, hwire', hread'⟩ := resume_pending hread hadvance decision
      refine ⟨message :: more, by rw [hreturned, hmessages], ?_⟩
      rw [hread', hwire', hdrop]
      refine ⟨?_, Or.inr ⟨message, more, rfl, hnext⟩⟩
      rw [hnextbytes, List.append_assoc, hrest, hstream, List.flatMap_cons]
    · have hread' : ({ session with wire := session.wire.drop bytes.length } : PeerSession).phase.read = some read :=
        hread
      obtain ⟨hreturned, hwire', hnext⟩ := finish_message hread' message decision
      have hresume : session.resume read bytes decision =
          ({ session with wire := session.wire.drop bytes.length } : PeerSession).finish (.ok (some message))
            decision := by
        simp only [PeerSession.resume, hadvance]
      rw [hresume]
      refine ⟨more, by rw [hreturned, hmessages, List.append_assoc, List.singleton_append], ?_⟩
      refine .of_start ?_ hnext
      rw [hwire', hdrop]
      rw [← hrest, ← List.append_assoc, hframe] at hstream
      exact List.append_cancel_left hstream

theorem Sound.step (hvalid : ∀ message ∈ messages, message.Valid) (h : session.Sound messages) (event : Event)
    (hboundary : event = .Timeout → ¬ session.Torn) : (session.step event).Sound messages := by
  cases hread : session.phase.read with
  | none => exact h.of_idle hread (step_idle hread event)
  | some read =>
    cases event with
    | Turn stop requested failed =>
      have hstep : session.step (.Turn stop requested failed) = session := by
        cases hphase : session.phase with
        | Top =>
          rw [hphase] at hread
          cases hread
        | _ => simp only [PeerSession.step, hphase]
      rwa [hstep]
    | Read n decision =>
      simp only [PeerSession.step, hread]
      split
      · exact h
      · rename_i hready
        apply h.resume hvalid hread (List.take_prefix _ _)
        · rw [List.length_take]
          omega
        · intro hempty
          exact not_not.mp fun hwire => hready ⟨hempty, hwire⟩
    | Timeout =>
      obtain ⟨hidle, hnext⟩ := step_timeout session
      have hbytes : read.bytes = [] := not_not.mp fun hne => hboundary rfl ⟨read, hread, hne⟩
      obtain ⟨todo, hmessages, hreads⟩ := h
      rw [hread] at hreads
      refine ⟨todo, by rw [hidle.returned, hmessages], ?_⟩
      rw [hnext, hidle.wire]
      have hwire := hreads.1
      rwa [hbytes] at hwire

/-! Whole runs. -/

/-- While no call is pending, no message is returned. -/
theorem run_idle {events : Vec Event} (h : ∀ before, before <+: events → (session.run before).phase.read = none) :
    (session.run events).returned = session.returned := by
  induction events generalizing session with
  | nil => rfl
  | cons event events ih =>
    have hread : session.phase.read = none := h [] List.nil_prefix
    rw [← (step_idle hread event).returned]
    exact ih fun before hbefore => h (event :: before) (List.cons_prefix_cons.mpr ⟨rfl, hbefore⟩)

/-- A timeout that drops a part of a frame is the end of reading. -/
def KeepsFrames (session : PeerSession) (events : Vec Event) : Prop :=
  ∀ before after, events = before ++ .Timeout :: after → (session.run before).Torn →
    ∀ later, later <+: after → (session.run (before ++ .Timeout :: later)).phase.read = none

theorem Sound.run (hvalid : ∀ message ∈ messages, message.Valid) (h : session.Sound messages) {events : Vec Event}
    (hkeeps : session.KeepsFrames events) : ∀ before, before <+: events → (session.run before).Intact messages := by
  induction events generalizing session with
  | nil =>
    intro before hbefore
    rw [List.prefix_nil.mp hbefore]
    exact h.intact
  | cons event events ih =>
    intro before hbefore
    cases before with
    | nil => exact h.intact
    | cons first before =>
      obtain ⟨rfl, hrest⟩ := List.cons_prefix_cons.mp hbefore
      by_cases htorn : first = .Timeout ∧ session.Torn
      · -- nothing is read after a torn frame
        obtain ⟨rfl, htorn⟩ := htorn
        have hdone := hkeeps [] events rfl htorn
        have hidle : ((session.step .Timeout).run before).returned = (session.step .Timeout).returned := by
          apply run_idle
          exact fun later hlater => hdone later (hlater.trans hrest)
        refine ⟨?_, fun read hread => ?_⟩
        · change ((session.step .Timeout).run before).returned <+: messages
          rw [hidle, (step_timeout session).1.returned]
          exact h.intact.ordered
        · rw [show (session.run (.Timeout :: before)).phase.read = none from hdone before hrest] at hread
          cases hread
      · have hboundary : first = .Timeout → ¬ session.Torn := fun hfirst hmid => htorn ⟨hfirst, hmid⟩
        refine ih (h.step hvalid first hboundary) ?_ before hrest
        intro front after hevents
        exact hkeeps (first :: front) after (by rw [hevents, List.cons_append])

/-- If bytes are missing, a new call cannot be intact. -/
theorem idle_of_missing {events : Vec Event} (hread : session.phase.read = none)
    (hmissing : session.returned.flatMap Message.encode ++ session.wire ≠ messages.flatMap Message.encode)
    (hintact : ∀ before, before <+: events → (session.run before).Intact messages) :
    ∀ later, later <+: events → (session.run later).phase.read = none := by
  induction events generalizing session with
  | nil =>
    intro later hlater
    rw [List.prefix_nil.mp hlater]
    exact hread
  | cons event events ih =>
    have hidle := step_idle hread event
    have hnext : (session.step event).phase.read = none := by
      cases hstarted : (session.step event).phase.read with
      | none => rfl
      | some read =>
        have hframed := (hintact [event] (List.cons_prefix_cons.mpr ⟨rfl, List.nil_prefix⟩)).framed read hstarted
        rw [hidle.read read hstarted] at hframed
        change (session.step event).returned.flatMap Message.encode ++ [] ++ (session.step event).wire = _ at hframed
        rw [hidle.returned, hidle.wire, List.append_nil] at hframed
        exact absurd hframed hmissing
    intro later hlater
    cases later with
    | nil => exact hread
    | cons first later =>
      obtain ⟨rfl, hrest⟩ := List.cons_prefix_cons.mp hlater
      refine ih hnext ?_ ?_ later hrest
      · rwa [hidle.returned, hidle.wire]
      · exact fun before hbefore => hintact (first :: before) (List.cons_prefix_cons.mpr ⟨rfl, hbefore⟩)

theorem start_sound (kind : Kind) (messages : Vec Message) : (start kind messages).Sound messages :=
  ⟨messages, rfl, rfl⟩

theorem run_append (session : PeerSession) (front rest : Vec Event) :
    session.run (front ++ rest) = (session.run front).run rest := List.foldl_append

/-- The calls of a session return the messages of the peer in order and lose no byte of a frame if and
    only if no call is started after a timeout has dropped a part of a frame. -/
theorem frames_intact_iff (kind : Kind) {messages : Vec Message} (hvalid : ∀ message ∈ messages, message.Valid)
    (events : Vec Event) :
    (∀ before, before <+: events → ((start kind messages).run before).Intact messages) ↔
      (start kind messages).KeepsFrames events := by
  constructor
  · intro hintact before after hevents ⟨read, hread, hbytes⟩
    obtain ⟨hidle, hnext⟩ := step_timeout ((start kind messages).run before)
    have hbefore := (hintact before ⟨_, hevents.symm⟩).framed read hread
    have hmissing : (((start kind messages).run before).step .Timeout).returned.flatMap Message.encode ++
        (((start kind messages).run before).step .Timeout).wire ≠ messages.flatMap Message.encode := by
      rw [hidle.returned, hidle.wire, ← hbefore]
      intro hsame
      have hlength := congrArg List.length hsame
      have hpos := List.length_pos_of_ne_nil hbytes
      simp only [List.length_append] at hlength
      omega
    have hlater (later : Vec Event) : (start kind messages).run (before ++ .Timeout :: later) =
        (((start kind messages).run before).step .Timeout).run later := by
      rw [run_append]
      rfl
    intro later hprefix
    rw [hlater]
    refine idle_of_missing hnext hmissing (fun front hfront => ?_) later hprefix
    rw [← hlater]
    apply hintact
    rw [hevents]
    exact List.prefix_append_right_inj _ |>.mpr (List.cons_prefix_cons.mpr ⟨rfl, hfront⟩)
  · exact (start_sound kind messages).run hvalid

/-- A peer with two pieces of one byte sends both. -/
def two_blocks : Vec Message := [.Bitfield [0xC0], .Unchoke, .Piece 1 0 [9], .Piece 0 0 [8]]

theorem two_blocks_valid : ∀ message ∈ two_blocks, message.Valid := by
  have hknown : ∀ message ∈ two_blocks, ∀ id payload, message ≠ .Unknown id payload := by
    intro message hmessage id payload h
    subst h
    simp [two_blocks] at hmessage
  intro message hmessage
  refine ⟨?_, ?_, fun id payload h => absurd h (hknown message hmessage id payload)⟩
  · revert message
    decide +kernel
  · simp only [two_blocks, List.mem_cons, List.not_mem_nil, or_false] at hmessage
    rcases hmessage with rfl | rfl | rfl | rfl <;> trivial

/-- The two blocks are asked for and the first of them comes. -/
def first_block : Vec Event :=
  let other : Decision := ⟨false, false, false⟩
  [.Turn false false false, .Read 4 other, .Read 2 other, .Turn false false false, .Read 4 other, .Read 1 other,
    .Turn false true false, .Read 4 other, .Read 10 ⟨true, false, false⟩]

/-- The window is over when nothing of the second block has come. It is asked for again, and comes. -/
def late_block : Vec Event :=
  first_block ++ [.Timeout, .Turn false true false, .Read 4 ⟨false, false, false⟩, .Read 10 ⟨false, false, false⟩]

theorem frames_intact_iff_late_block :
    ((start .Endgame two_blocks).run late_block).returned = two_blocks ∧
      ∀ before, before <+: late_block → ((start .Endgame two_blocks).run before).Intact two_blocks := by
  refine ⟨by decide +kernel, (frames_intact_iff .Endgame two_blocks_valid late_block).mpr ?_⟩
  rintro before after hevents ⟨read, hread, hbytes⟩
  -- the timeout is behind the first block, where the pending call has no bytes
  have hsole : ∀ k < 13, late_block[k]? = some .Timeout → k = 9 := by decide
  have hlength : before.length = 9 := by
    refine hsole _ ?_ (by simp [hevents])
    have hshorter := congrArg List.length hevents
    simp [late_block, first_block] at hshorter
    omega
  have hfront : before = first_block := by
    rw [← List.take_left' hlength, ← hevents]
    rfl
  have hempty : ∀ read ∈ ((start .Endgame two_blocks).run first_block).phase.read, read.bytes = [] := by
    decide +kernel
  exact absurd (hempty read (hfront ▸ hread)) hbytes

/-- The second block stalls behind the id of its message until the window is over, and the session
    asks for it again. The piece index of the stalled block is then read as a keepalive. -/
theorem torn_block_read_as_keepalive :
    let session := (start .Parallel two_blocks).run (first_block ++
      [.Read 4 ⟨false, false, false⟩, .Read 1 ⟨false, false, false⟩, .Timeout, .Turn false true false,
        .Read 4 ⟨false, false, false⟩])
    session.returned = [.Bitfield [0xC0], .Unchoke, .Piece 1 0 [9], .Keepalive] ∧
      ¬ session.returned <+: two_blocks := by
  decide +kernel

end

end PeerSession

end swarmotter.engine

import Swarmotter.Net.Gate

open swarmotter.net swarmotter.containment_gate

namespace swarmotter.netbinder

/-- The error of a call that a transition of the gate has cancelled. -/
def gate_cancelled_error (gate : ContainmentGate) : CoreError :=
  match gate.enforce with
  | .error error => error
  | .ok _ => .NetworkBlocked "torrent data plane cancelled by a containment transition"

/-- The wait of a call: the generation it was born under. The other two are not kept by the code: whether the gate
    allowed traffic at the step that read the generation, and whether it was blocked at a later one. -/
structure Wait where
  generation : UInt64
  read_allowed : Bool
  blocked_later : Bool
  deriving DecidableEq

/-- Where a call of `send_to`, `recv_from` or `accept` on a gated socket stands. The three run the same steps and
    differ in the socket operation they poll. -/
inductive Call where
  | Entered
  /-- `enforce` has passed, the generation is not read yet. -/
  | Admitted
  /-- The first branch of the biased `select!` is polled next: `cancelled_since`. -/
  | Checking (wait : Wait)
  /-- It was pending, and the socket is polled next. -/
  | Polling (wait : Wait)
  /-- Both were pending. -/
  | Suspended (wait : Wait)
  | Returned (result : Result Unit)
  deriving DecidableEq

/-- A block is seen by every wait that has begun. -/
def Call.note_block : Call → Call
  | .Checking wait => .Checking { wait with blocked_later := true }
  | .Polling wait => .Polling { wait with blocked_later := true }
  | .Suspended wait => .Suspended { wait with blocked_later := true }
  | call => call

def Call.wait : Call → Option Wait
  | .Checking wait => some wait
  | .Polling wait => some wait
  | .Suspended wait => some wait
  | _ => none

/-- The gate and the calls that run beside each other. -/
structure World where
  gate : ContainmentGate
  calls : Nat → Call

/-- One atomic step: of a call, or of whoever holds the gate. -/
inductive Event where
  | Enforce (call : Nat)
  | Generation (call : Nat)
  | Cancelled (call : Nat)
  /-- The socket is polled: it is ready with a result, or pending. -/
  | Socket (call : Nat) (ready : Option (Result Unit))
  /-- The task of a suspended call is polled again. -/
  | Wake (call : Nat)
  | Block (status : NetworkContainmentStatus) (detail : String)
  | Allow
  | Stop

namespace World

def set (world : World) (call : Nat) (next : Call) : World :=
  { world with calls := Function.update world.calls call next }

/-- The gate has been blocked. -/
def deny (world : World) (gate : ContainmentGate) : World :=
  ⟨gate, fun call => (world.calls call).note_block⟩

/-- A step that its call is not at changes nothing. -/
def step (world : World) : Event → World
  | .Enforce call =>
    match world.calls call with
    | .Entered =>
      match world.gate.enforce with
      | .ok _ => world.set call .Admitted
      | .error error => world.set call (.Returned (.error error))
    | _ => world
  | .Generation call =>
    match world.calls call with
    | .Admitted => world.set call (.Checking ⟨world.gate.generation, world.gate.traffic_allowed, false⟩)
    | _ => world
  | .Cancelled call =>
    match world.calls call with
    | .Checking wait =>
      if world.gate.generation ≠ wait.generation
      then world.set call (.Returned (.error (gate_cancelled_error world.gate)))
      else world.set call (.Polling wait)
    | _ => world
  | .Socket call ready =>
    match world.calls call with
    | .Polling wait =>
      match ready with
      | some result => world.set call (.Returned result)
      | none => world.set call (.Suspended wait)
    | _ => world
  | .Wake call =>
    match world.calls call with
    | .Suspended wait => world.set call (.Checking wait)
    | _ => world
  | .Block status detail => world.deny (world.gate.block status detail)
  | .Allow => { world with gate := world.gate.allow }
  | .Stop => world.deny world.gate.stop

/-- Any number of calls before their first step. -/
def start (gate : ContainmentGate) : World := ⟨gate, fun _ => .Entered⟩

def run (world : World) (events : List Event) : World := events.foldl step world

end World

/-- The step denies traffic. -/
def Event.denies : Event → Bool
  | .Block _ _ => true
  | .Stop => true
  | _ => false

/-- The step does not deny traffic between the `enforce` of a call and its read of the generation. -/
def Clear (world : World) (event : Event) : Prop :=
  event.denies = true → ∀ call, world.calls call ≠ .Admitted

/-- All steps of a run are clear. -/
def Undisturbed : World → List Event → Prop
  | _, [] => True
  | world, event :: events => Clear world event ∧ Undisturbed (world.step event) events

/-- The gate allowed traffic when the wait began, and if it does not any more, it was blocked since. -/
structure Wait.Sound (gate : ContainmentGate) (wait : Wait) : Prop where
  read_allowed : wait.read_allowed = true
  blocked_later : gate.traffic_allowed = false → wait.blocked_later = true

/-- What the steps of an undisturbed run keep. -/
structure World.Sound (world : World) : Prop where
  admitted : ∀ call, world.calls call = .Admitted → world.gate.traffic_allowed = true
  waits : ∀ call wait, (world.calls call).wait = some wait → wait.Sound world.gate

section
variable {world : World}

theorem sound_start (gate : ContainmentGate) : (World.start gate).Sound where
  admitted := fun _ h => by cases h
  waits := fun _ _ h => by cases h

/-- A step of one call leaves the others where they are. -/
theorem World.Sound.set (h : world.Sound) {call : Nat} {next : Call}
    (hadmitted : next = .Admitted → world.gate.traffic_allowed = true)
    (hwait : ∀ wait, next.wait = some wait → wait.Sound world.gate) : (world.set call next).Sound where
  admitted := by
    intro other hother
    simp only [World.set, Function.update_apply] at hother ⊢
    split at hother
    · exact hadmitted hother
    · exact h.admitted other hother
  waits := by
    intro other wait hother
    simp only [World.set, Function.update_apply] at hother ⊢
    split at hother
    · exact hwait wait hother
    · exact h.waits other wait hother

theorem note_block_eq_admitted_iff {call : Call} : call.note_block = .Admitted ↔ call = .Admitted := by
  cases call <;> simp [Call.note_block]

theorem wait_note_block {call : Call} :
    call.note_block.wait = call.wait.map fun wait => { wait with blocked_later := true } := by
  cases call <;> rfl

theorem World.Sound.deny (h : world.Sound) (hclear : ∀ call, world.calls call ≠ .Admitted) (gate : ContainmentGate) :
    (world.deny gate).Sound where
  admitted := fun call hcall => absurd (note_block_eq_admitted_iff.mp hcall) (hclear call)
  waits := by
    intro call wait hwait
    rw [World.deny, wait_note_block, Option.map_eq_some_iff] at hwait
    obtain ⟨before, hbefore, rfl⟩ := hwait
    exact ⟨(h.waits call before hbefore).read_allowed, fun _ => rfl⟩

theorem World.Sound.allow (h : world.Sound) : World.Sound { world with gate := world.gate.allow } := by
  by_cases hallowed : world.gate.traffic_allowed = true
  · rw [ContainmentGate.allow_of_traffic_allowed hallowed]
    exact h
  · refine ⟨fun call hcall => absurd (h.admitted call hcall) hallowed, fun call wait hwait => ?_⟩
    have hsound := h.waits call wait hwait
    exact ⟨hsound.read_allowed, fun _ => hsound.blocked_later (Bool.not_eq_true _ ▸ hallowed)⟩

/-- What one clear step keeps. -/
theorem World.Sound.step (h : world.Sound) {event : Event} (hclear : Clear world event) : (world.step event).Sound := by
  cases event with
  | Enforce call =>
    cases hcall : world.calls call <;> simp only [World.step, hcall] <;> try exact h
    cases henforce : world.gate.enforce with
    | ok _ => exact h.set (fun _ => ContainmentGate.enforce_eq_ok_iff.mp henforce) (fun _ hwait => by cases hwait)
    | error error => exact h.set (fun hnext => by cases hnext) (fun _ hwait => by cases hwait)
  | Generation call =>
    cases hcall : world.calls call <;> simp only [World.step, hcall] <;> try exact h
    refine h.set (fun hnext => by cases hnext) fun wait hwait => ?_
    obtain rfl := Option.some.inj hwait
    have hallowed := h.admitted call hcall
    exact ⟨hallowed, fun hdenied => by rw [hallowed] at hdenied; cases hdenied⟩
  | Cancelled call =>
    cases hcall : world.calls call <;> simp only [World.step, hcall] <;> try exact h
    split
    · exact h.set (fun hnext => by cases hnext) (fun _ hwait => by cases hwait)
    · exact h.set (fun hnext => by cases hnext) (fun wait hwait => h.waits call wait (by rw [hcall]; exact hwait))
  | Socket call ready =>
    cases hcall : world.calls call <;> simp only [World.step, hcall] <;> try exact h
    cases ready with
    | some result => exact h.set (fun hnext => by cases hnext) (fun _ hwait => by cases hwait)
    | none =>
      exact h.set (fun hnext => by cases hnext) (fun wait hwait => h.waits call wait (by rw [hcall]; exact hwait))
  | Wake call =>
    cases hcall : world.calls call <;> simp only [World.step, hcall] <;> try exact h
    exact h.set (fun hnext => by cases hnext) (fun wait hwait => h.waits call wait (by rw [hcall]; exact hwait))
  | Block status detail => exact h.deny (hclear rfl) _
  | Allow => exact h.allow
  | Stop => exact h.deny (hclear rfl) _

theorem World.Sound.run (h : world.Sound) {events : List Event} (hclear : Undisturbed world events) :
    (world.run events).Sound := by
  induction events generalizing world with
  | nil => exact h
  | cons event events ih => exact ih (h.step hclear.1) hclear.2

end

/-- In a run in which traffic is never denied between the `enforce` of a call and its read of the generation, a call
    that polls its socket has read the generation of an open gate; and if the gate is closed at the poll, it was
    blocked after the wait began. -/
theorem polls_under_open_generation {gate : ContainmentGate} {events : List Event}
    (h : Undisturbed (World.start gate) events) {call : Nat} {wait : Wait}
    (hcall : ((World.start gate).run events).calls call = .Polling wait) :
    wait.read_allowed = true ∧
      (((World.start gate).run events).gate.traffic_allowed = false → wait.blocked_later = true) := by
  have hsound := ((sound_start gate).run h).waits call wait (by rw [hcall]; rfl)
  exact ⟨hsound.read_allowed, hsound.blocked_later⟩

/-- A block before the first poll of the socket. -/
theorem polls_under_open_generation_blocked :
    ∃ wait, ((World.start (.new true)).run [.Enforce 0, .Generation 0, .Cancelled 0,
        .Block .InterfaceDown "path removed"]).calls 0 = .Polling wait ∧
      wait.read_allowed = true ∧ wait.blocked_later = true := by
  have hclear : Undisturbed (World.start (.new true)) [.Enforce 0, .Generation 0, .Cancelled 0,
      .Block .InterfaceDown "path removed"] := by
    refine ⟨nofun, nofun, nofun, fun _ call => ?_, trivial⟩
    by_cases hcall : call = 0
    · subst hcall
      decide
    · simp [World.start, World.step, World.set, ContainmentGate.new, ContainmentGate.enforce,
        ContainmentGate.traffic_allowed, hcall]
  have hcall : ((World.start (.new true)).run [.Enforce 0, .Generation 0, .Cancelled 0,
      .Block .InterfaceDown "path removed"]).calls 0 = .Polling ⟨0, true, true⟩ := rfl
  have hpolls := polls_under_open_generation hclear hcall
  exact ⟨⟨0, true, true⟩, hcall, hpolls.1, hpolls.2 (by decide)⟩

/-- The gate is blocked after `enforce` has passed. The call reads the generation of the blocked gate, sees no further
    transition and sends. -/
theorem sends_under_blocked_gate :
    let before := (World.start (.new true)).run
      [.Enforce 0, .Block .InterfaceDown "path removed", .Generation 0, .Cancelled 0]
    before.calls 0 = .Polling ⟨1, false, false⟩ ∧
    before.gate.traffic_allowed = false ∧
    (before.step (.Socket 0 (some (.ok ())))).calls 0 = .Returned (.ok ()) := by
  decide

end swarmotter.netbinder

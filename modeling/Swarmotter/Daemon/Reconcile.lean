import Mathlib.Data.Nat.Init

namespace swarmotter.daemon

/-! Requests to reconcile the queue, and the task that serves them. -/

structure QueueReconcileState where
  scheduled : Bool
  dirty : Bool

/-- Where `run_scheduled_reconcile_queue` is: in the debounce, before the lock at the top of its loop, before the call
of `reconcile_queue`, in this call, or before the lock at the end of its loop. -/
inductive ReconcileTask where
  | Debouncing
  | Clearing
  | Starting
  | Running
  | Finishing
  deriving DecidableEq

/-- The shared state, the calls that have yet to spawn their task, and the tasks. -/
structure Reconciler where
  queue_reconcile : QueueReconcileState
  spawning : Nat
  tasks : List ReconcileTask

inductive ReconcileEvent where
  | Call
  | Spawn
  | Task (index : Nat)
  deriving DecidableEq

namespace Reconciler

def init : Reconciler := ⟨⟨false, false⟩, 0, []⟩

/-- `schedule_reconcile_queue` under the lock. -/
def schedule_reconcile_queue (self : Reconciler) : Reconciler :=
  if self.queue_reconcile.scheduled then { self with queue_reconcile.dirty := true }
  else { self with queue_reconcile := ⟨true, false⟩, spawning := self.spawning + 1 }

/-- The next step of a task. The last one gives the lock back and is the end of the task. -/
def run_scheduled_reconcile_queue (self : Reconciler) (index : Nat) : Reconciler :=
  match self.tasks[index]? with
  | some .Debouncing => { self with tasks := self.tasks.set index .Clearing }
  | some .Clearing => { self with queue_reconcile.dirty := false, tasks := self.tasks.set index .Starting }
  | some .Starting => { self with tasks := self.tasks.set index .Running }
  | some .Running => { self with tasks := self.tasks.set index .Finishing }
  | some .Finishing =>
    if self.queue_reconcile.dirty then
      { self with queue_reconcile.dirty := false, tasks := self.tasks.set index .Clearing }
    else { self with queue_reconcile.scheduled := false, tasks := self.tasks.eraseIdx index }
  | none => self

def step (self : Reconciler) : ReconcileEvent → Reconciler
  | .Call => self.schedule_reconcile_queue
  | .Spawn =>
    if self.spawning = 0 then self
    else { self with spawning := self.spawning - 1, tasks := self.tasks ++ [.Debouncing] }
  | .Task index => self.run_scheduled_reconcile_queue index

/-- The state before each event of a run. -/
def trace (events : Nat → ReconcileEvent) : Nat → Reconciler
  | 0 => init
  | n + 1 => (trace events n).step (events n)

/-- A run of `reconcile_queue` starts with this event. -/
def Starts (self : Reconciler) (event : ReconcileEvent) : Prop :=
  ∃ index, event = .Task index ∧ self.tasks[index]? = some .Starting

/-- Calls spawn their tasks, and tasks go on: the debounce ends, the lock is given, `reconcile_queue` returns. -/
structure Fair (events : Nat → ReconcileEvent) : Prop where
  spawns : ∀ n, 0 < (trace events n).spawning → ∃ m, n ≤ m ∧ events m = .Spawn
  runs : ∀ n index, index < (trace events n).tasks.length → ∃ m, n ≤ m ∧ events m = .Task index

/-- There is one task, or a call that will spawn it, exactly while it is scheduled. -/
inductive Single : Reconciler → Prop
  | idle (dirty : Bool) : Single ⟨⟨false, dirty⟩, 0, []⟩
  | spawning (dirty : Bool) : Single ⟨⟨true, dirty⟩, 1, []⟩
  | task (dirty : Bool) (task : ReconcileTask) : Single ⟨⟨true, dirty⟩, 0, [task]⟩

/-- How many steps lead to the next start that is due, or zero if none is. -/
def distance (self : Reconciler) : Nat :=
  if 0 < self.spawning then 5
  else
    match self.tasks, self.queue_reconcile.dirty with
    | [.Debouncing], _ => 3
    | [.Clearing], _ => 2
    | [.Starting], _ => 1
    | [.Running], true => 4
    | [.Finishing], true => 3
    | _, _ => 0

/-- The step that brings it nearer. -/
def due (self : Reconciler) : ReconcileEvent := if 0 < self.spawning then .Spawn else .Task 0

section
variable {self : Reconciler} {event : ReconcileEvent} {events : Nat → ReconcileEvent}

theorem Single.step (h : Single self) (event : ReconcileEvent) : Single (self.step event) := by
  cases event with
  | Call =>
    cases h with
    | idle dirty => exact .spawning false
    | spawning dirty => exact .spawning true
    | task dirty task => exact .task true task
  | Spawn =>
    cases h with
    | idle dirty => exact .idle dirty
    | spawning dirty => exact .task dirty .Debouncing
    | task dirty task => exact .task dirty task
  | Task index =>
    cases h with
    | idle dirty => exact .idle dirty
    | spawning dirty => exact .spawning dirty
    | task dirty task =>
      cases index with
      | succ index => exact .task dirty task
      | zero =>
        cases task with
        | Debouncing => exact .task dirty .Clearing
        | Clearing => exact .task false .Starting
        | Starting => exact .task dirty .Running
        | Running => exact .task dirty .Finishing
        | Finishing =>
          cases dirty with
          | false => exact .idle false
          | true => exact .task false .Clearing

theorem single_trace (events : Nat → ReconcileEvent) (n : Nat) : Single (trace events n) := by
  induction n with
  | zero => exact .idle false
  | succ n ih => exact ih.step (events n)

theorem Single.length_tasks_le (h : Single self) : self.tasks.length ≤ 1 := by
  cases h with
  | idle dirty => exact Nat.zero_le 1
  | spawning dirty => exact Nat.zero_le 1
  | task dirty task => exact Nat.le_refl 1

/-- After a call a start is due. -/
theorem Single.distance_call (h : Single self) : 0 < (self.step .Call).distance := by
  cases h with
  | idle dirty => cases dirty <;> decide
  | spawning dirty => cases dirty <;> decide
  | task dirty task => cases task <;> cases dirty <;> decide

/-- A start that is due stays due until it happens, and comes nearer with the step that leads to it. -/
theorem Single.starts_or_nearer (h : Single self) (hdue : 0 < self.distance) (event : ReconcileEvent) :
    self.Starts event ∨ 0 < (self.step event).distance ∧ (self.step event).distance ≤ self.distance ∧
      (event = self.due → (self.step event).distance < self.distance) := by
  cases h with
  | idle dirty => cases dirty <;> exact absurd hdue (by decide)
  | spawning dirty =>
    cases event with
    | Task index => exact .inr ⟨hdue, Nat.le_refl _, nofun⟩
    | _ => cases dirty <;> exact .inr (by decide)
  | task dirty task =>
    cases event with
    | Task index =>
      cases index with
      | zero =>
        cases task with
        | Starting => exact .inl ⟨0, rfl, rfl⟩
        | _ => cases dirty <;> first | exact .inr (by decide) | exact absurd hdue (by decide)
      | succ index => exact .inr ⟨hdue, Nat.le_refl _, nofun⟩
    | _ => cases task <;> cases dirty <;> first | exact .inr (by decide) | exact absurd hdue (by decide)

theorem Single.due_eq (h : Single self) : self.due = if self.distance = 5 then .Spawn else .Task 0 := by
  cases h with
  | idle dirty => cases dirty <;> rfl
  | spawning dirty => rfl
  | task dirty task => cases task <;> cases dirty <;> rfl

theorem Fair.due (h : Fair events) {n : Nat} (hdue : 0 < (trace events n).distance) :
    ∃ m, n ≤ m ∧ events m = (trace events n).due := by
  unfold Reconciler.due
  split
  · rename_i hspawning
    exact h.spawns n hspawning
  · rename_i hspawning
    refine h.runs n 0 (List.length_pos_iff.mpr fun hnone => ?_)
    simp [distance, hspawning, hnone] at hdue

/-- As long as nothing starts, a start stays due and gets no farther. -/
theorem starts_or_stays {n m : Nat} (hnm : n ≤ m) (hdue : 0 < (trace events n).distance) :
    (∃ k, n ≤ k ∧ k < m ∧ (trace events k).Starts (events k)) ∨
      0 < (trace events m).distance ∧ (trace events m).distance ≤ (trace events n).distance := by
  induction m, hnm using Nat.le_induction with
  | base => exact .inr ⟨hdue, Nat.le_refl _⟩
  | succ m hnm ih =>
    rcases ih with ⟨k, hnk, hkm, hstarts⟩ | ⟨hpos, hle⟩
    · exact .inl ⟨k, hnk, Nat.lt_succ_of_lt hkm, hstarts⟩
    · rcases (single_trace events m).starts_or_nearer hpos (events m) with hstarts | ⟨hpos', hle', -⟩
      · exact .inl ⟨m, hnm, Nat.lt_succ_self m, hstarts⟩
      · exact .inr ⟨hpos', Nat.le_trans hle' hle⟩

theorem Fair.starts (h : Fair events) {n : Nat} (hdue : 0 < (trace events n).distance) :
    ∃ m, n ≤ m ∧ (trace events m).Starts (events m) := by
  -- by the distance: the step that is due is taken, and before it the distance does not grow
  generalize hplace : (trace events n).distance = place at hdue
  induction place using Nat.strong_induction_on generalizing n with
  | _ place ih =>
    subst hplace
    obtain ⟨m, hnm, hevent⟩ := h.due hdue
    rcases starts_or_stays hnm hdue with ⟨k, hnk, -, hstarts⟩ | ⟨hpos, hle⟩
    · exact ⟨k, hnk, hstarts⟩
    · obtain ⟨k, hmk, hstarts⟩ : ∃ k, m ≤ k ∧ (trace events k).Starts (events k) := by
        rcases Nat.lt_or_eq_of_le hle with hlt | heq
        · exact ih _ hlt rfl hpos
        · rw [(single_trace events n).due_eq, ← heq, ← (single_trace events m).due_eq] at hevent
          rcases (single_trace events m).starts_or_nearer hpos (events m) with hstarts | ⟨hpos', -, hnearer⟩
          · exact ⟨m, Nat.le_refl m, hstarts⟩
          · obtain ⟨k, hk, hstarts⟩ := @ih _ (Nat.lt_of_lt_of_le (hnearer hevent) hle) (m + 1) rfl hpos'
            exact ⟨k, Nat.le_of_succ_le hk, hstarts⟩
      exact ⟨k, Nat.le_trans hnm hmk, hstarts⟩

/-- There is never more than one task, and if calls spawn their tasks and tasks go on, each call is followed by a run of
`reconcile_queue` that starts after it. -/
theorem reconcile_follows_call (events : Nat → ReconcileEvent) :
    (∀ n, (trace events n).tasks.length ≤ 1) ∧
      (Fair events → ∀ n, events n = .Call → ∃ m, n < m ∧ (trace events m).Starts (events m)) := by
  constructor
  · exact fun n => (single_trace events n).length_tasks_le
  · intro hfair n hcall
    have hdue : 0 < (trace events (n + 1)).distance := by
      rw [trace, hcall]
      exact (single_trace events n).distance_call
    obtain ⟨m, hm, hstarts⟩ := hfair.starts hdue
    exact ⟨m, hm, hstarts⟩

/-- A call, its task, and the task again and again. -/
def served (n : Nat) : ReconcileEvent := if n = 0 then .Call else if n = 1 then .Spawn else .Task 0

theorem spawning_served (n : Nat) : (trace served (n + 2)).spawning = 0 := by
  induction n with
  | zero => rfl
  | succ n ih =>
    rw [trace, ← ih]
    generalize trace served (n + 2) = self
    change (self.run_scheduled_reconcile_queue 0).spawning = self.spawning
    unfold run_scheduled_reconcile_queue
    split <;> first | rfl | (split <;> rfl)

theorem fair_served : Fair served where
  spawns n hspawning := by
    match n, hspawning with
    | 1, _ => exact ⟨1, Nat.le_refl 1, rfl⟩
    | n + 2, hspawning => exact absurd hspawning (by rw [spawning_served]; decide)
  runs n index hindex := by
    have hle := (single_trace served n).length_tasks_le
    obtain rfl : index = 0 := by omega
    exact ⟨n + 2, Nat.le_add_right n 2, by simp [served]⟩

theorem reconcile_follows_call_served : ∃ m, 0 < m ∧ (trace served m).Starts (served m) :=
  (reconcile_follows_call served).2 fair_served 0 rfl

end

end Reconciler

end swarmotter.daemon

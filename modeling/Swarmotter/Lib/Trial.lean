import Mathlib.Logic.Basic

/-! Computations that return a value or fail and, in both cases, may have changed a state. -/

namespace trial

variable {σ ε ε' α β ι : Type}

/-- What a computation does from a state: its outcome and the state it leaves. -/
def Trial (σ ε α : Type) := σ → Except ε α × σ

instance : Monad (Trial σ ε) where
  pure value state := (.ok value, state)
  bind op next state :=
    match op state with
    | (.ok value, middle) => next value middle
    | (.error error, middle) => (.error error, middle)

/-- A reading of the state. -/
def get (f : σ → α) : Trial σ ε α := fun state => (.ok (f state), state)

/-- A change of the state that cannot fail. -/
def modify (f : σ → σ) : Trial σ ε Unit := fun state => (.ok (), f state)

/-- A computation that does not touch the state. -/
def lift (result : Except ε α) : Trial σ ε α := fun state => (result, state)

/-- The same computation with another kind of error. -/
def map_err (f : ε → ε') (op : Trial σ ε α) : Trial σ ε' α := fun state =>
  match op state with
  | (.ok value, state') => (.ok value, state')
  | (.error error, state') => (.error (f error), state')

/-- A computation whose outcome, good or bad, is a value of the next one. -/
def attempt (op : Trial σ ε α) : Trial σ ε' (Except ε α) := fun state => (.ok (op state).1, (op state).2)

/-- A loop over a list, which ends at the first failure. -/
def for_each (body : ι → Trial σ ε Unit) : List ι → Trial σ ε Unit
  | [] => pure ()
  | item :: rest => do
    body item
    for_each body rest

section
variable {state state' : σ} {op : Trial σ ε α} {next : α → Trial σ ε β} {value : α} {error : ε} {result : Except ε α}
  {f : ε → ε'}

theorem bind_of_ok (h : op state = (.ok value, state')) : (op >>= next) state = next value state' := by
  change (match op state with
    | (.ok value, middle) => next value middle
    | (.error error, middle) => (.error error, middle)) = _
  rw [h]

theorem bind_of_error (h : op state = (.error error, state')) : (op >>= next) state = (.error error, state') := by
  change (match op state with
    | (.ok value, middle) => next value middle
    | (.error error, middle) => (.error error, middle)) = _
  rw [h]

theorem bind_eq_ok_iff {value : β} :
    (op >>= next) state = (.ok value, state') ↔
      ∃ first middle, op state = (.ok first, middle) ∧ next first middle = (.ok value, state') := by
  rcases hop : op state with ⟨error | first, middle⟩
  · simp [bind_of_error hop]
  · rw [bind_of_ok hop]
    constructor
    · intro hnext
      exact ⟨first, middle, rfl, hnext⟩
    · rintro ⟨_, _, heq, hnext⟩
      cases heq
      exact hnext

theorem bind_assoc {γ : Type} {last : β → Trial σ ε γ} :
    (op >>= next >>= last) = op >>= fun value => next value >>= last := by
  funext state
  rcases hop : op state with ⟨error | value, middle⟩
  · rw [bind_of_error hop, bind_of_error (bind_of_error hop)]
  · rw [bind_of_ok hop]
    rcases hnext : next value middle with ⟨error | value', middle'⟩
    · rw [bind_of_error hnext, bind_of_error ((bind_of_ok hop).trans hnext)]
    · rw [bind_of_ok hnext, bind_of_ok ((bind_of_ok hop).trans hnext)]

theorem eq_of_outcome (h : (op state).1 = result) : op state = (result, (op state).2) :=
  Prod.ext h rfl

theorem bind_eq_error_iff :
    (op >>= next) state = (.error error, state') ↔ op state = (.error error, state') ∨
      ∃ first middle, op state = (.ok first, middle) ∧ next first middle = (.error error, state') := by
  rcases hop : op state with ⟨failure | first, middle⟩
  · simp [bind_of_error hop]
  · rw [bind_of_ok hop]
    constructor
    · intro hnext
      exact Or.inr ⟨first, middle, rfl, hnext⟩
    · rintro (heq | ⟨_, _, heq, hnext⟩)
      · cases heq
      · cases heq
        exact hnext

theorem lift_eq_ok_iff :
    (lift result : Trial σ ε α) state = (.ok value, state') ↔ result = .ok value ∧ state' = state := by
  simp [lift, eq_comm]

theorem lift_ok_bind (value : α) (state : σ) : ((lift (.ok value) : Trial σ ε α) >>= next) state = next value state :=
  bind_of_ok rfl

theorem lift_error_bind (error : ε) (state : σ) :
    ((lift (.error error) : Trial σ ε α) >>= next) state = (.error error, state) :=
  bind_of_error rfl

theorem attempt_eq_ok_iff :
    (attempt op : Trial σ ε' (Except ε α)) state = (.ok result, state') ↔ op state = (result, state') := by
  simp [attempt, Prod.ext_iff]

theorem attempt_bind {next : Except ε α → Trial σ ε' β} (h : op state = (result, state')) :
    (attempt op >>= next) state = next result state' :=
  bind_of_ok (attempt_eq_ok_iff.mpr h)

theorem map_err_eq_ok_iff : map_err f op state = (.ok value, state') ↔ op state = (.ok value, state') := by
  rcases hop : op state with ⟨failure | first, middle⟩ <;> simp [map_err, hop]

theorem map_err_eq_error_iff {error : ε'} :
    map_err f op state = (.error error, state') ↔ ∃ cause, op state = (.error cause, state') ∧ error = f cause := by
  rcases hop : op state with ⟨failure | first, middle⟩
  · simp only [map_err, hop, Prod.mk.injEq, Except.error.injEq]
    constructor
    · rintro ⟨rfl, rfl⟩
      exact ⟨failure, ⟨rfl, rfl⟩, rfl⟩
    · rintro ⟨_, ⟨rfl, rfl⟩, rfl⟩
      exact ⟨rfl, rfl⟩
  · simp [map_err, hop]

/-- A loop of which no round does anything. -/
theorem for_each_eq_ok {body : ι → Trial σ ε Unit} {items : List ι}
    (h : ∀ item ∈ items, body item state = (.ok (), state)) : for_each body items state = (.ok (), state) := by
  induction items with
  | nil => rfl
  | cons item rest ih =>
    refine (bind_of_ok (h item List.mem_cons_self)).trans ?_
    exact ih fun later hlater => h later (List.mem_cons_of_mem _ hlater)

theorem pure_eq_ok_iff {value' : α} :
    (pure value : Trial σ ε α) state = (.ok value', state') ↔ value' = value ∧ state' = state := by
  change (Except.ok value, state) = _ ↔ _
  simp [eq_comm]

end

/-! Preconditions and postconditions. -/

/-- From a state with the first property the computation ends in one with the second, whether it succeeds
    or not. -/
structure Leads (pre post : σ → Prop) (op : Trial σ ε α) : Prop where
  final : ∀ state, pre state → post (op state).2

/-- A computation that keeps an invariant. -/
abbrev Keeps (inv : σ → Prop) (op : Trial σ ε α) : Prop := Leads inv inv op

/-- The same for the computation started in one state. -/
structure EndsIn (post : σ → Prop) (state : σ) (op : Trial σ ε α) : Prop where
  final : post (op state).2

section
variable {inv pre post : σ → Prop} {state : σ} {op : Trial σ ε α} {next : α → Trial σ ε β} {f : σ → α}
  {result : Except ε α}

theorem Leads.start (h : Leads pre post op) (hstate : pre state) : EndsIn post state op :=
  ⟨h.final state hstate⟩

theorem EndsIn.bind (hop : EndsIn pre state op)
    (hweaken : ∀ state, pre state → post state) (hnext : ∀ value, Leads pre post (next value)) :
    EndsIn post state (op >>= next) := by
  have hmiddle := hop.final
  rcases hrun : op state with ⟨error | value, middle⟩
  · rw [hrun] at hmiddle
    exact ⟨by rw [bind_of_error hrun]; exact hweaken middle hmiddle⟩
  · rw [hrun] at hmiddle
    exact ⟨by rw [bind_of_ok hrun]; exact (hnext value).final middle hmiddle⟩

/-- The property that is left is reached in the second computation. -/
theorem Keeps.leads (hop : Keeps pre op)
    (hweaken : ∀ state, pre state → post state) (hnext : ∀ value, Leads pre post (next value)) :
    Leads pre post (op >>= next) :=
  ⟨fun _ hstate => ((hop.start hstate).bind hweaken hnext).final⟩

/-- The property is reached in the first computation. -/
theorem Leads.keep (hop : Leads pre post op)
    (hnext : ∀ value, Keeps post (next value)) : Leads pre post (op >>= next) :=
  ⟨fun _ hstate => ((hop.start hstate).bind (fun _ h => h) hnext).final⟩

theorem Keeps.bind (hop : Keeps inv op) (hnext : ∀ value, Keeps inv (next value)) : Keeps inv (op >>= next) :=
  Leads.keep hop hnext

theorem Leads.pure (hweaken : ∀ state, pre state → post state) (value : α) :
    Leads pre post (pure value : Trial σ ε α) :=
  ⟨hweaken⟩

theorem Leads.lift (hweaken : ∀ state, pre state → post state) (result : Except ε α) :
    Leads pre post (lift result : Trial σ ε α) :=
  ⟨hweaken⟩

theorem Keeps.pure (value : α) : Keeps inv (pure value : Trial σ ε α) :=
  ⟨fun _ hstate => hstate⟩

theorem Keeps.get (f : σ → α) : Keeps inv (get f : Trial σ ε α) :=
  ⟨fun _ hstate => hstate⟩

theorem Keeps.modify {f : σ → σ} (h : ∀ state, inv state → inv (f state)) : Keeps inv (modify f : Trial σ ε Unit) :=
  ⟨h⟩

/-- What follows a reading may rely on the state that was read. -/
theorem Leads.get_bind (h : ∀ state, pre state → EndsIn post state (next (f state))) :
    Leads pre post (trial.get f >>= next) :=
  ⟨fun state hstate => (h state hstate).final⟩

theorem EndsIn.get_bind (h : EndsIn post state (next (f state))) : EndsIn post state (trial.get f >>= next) :=
  ⟨h.final⟩

theorem EndsIn.modify_bind {f : σ → σ} {next : Unit → Trial σ ε β}
    (h : EndsIn post (f state) (next ())) : EndsIn post state (trial.modify f >>= next) :=
  ⟨h.final⟩

theorem EndsIn.ok_bind {value : α} {middle : σ} (hop : op state = (.ok value, middle))
    (h : EndsIn post middle (next value)) : EndsIn post state (op >>= next) :=
  ⟨by rw [bind_of_ok hop]; exact h.final⟩

theorem Keeps.lift_bind (h : ∀ value, result = .ok value → Keeps inv (next value)) :
    Keeps inv (trial.lift result >>= next) := by
  constructor
  intro state hstate
  cases result with
  | error error => exact hstate
  | ok value => exact (h value rfl).final state hstate

theorem Keeps.for_each {body : ι → Trial σ ε Unit} {items : List ι}
    (hbody : ∀ item ∈ items, Keeps inv (body item)) : Keeps inv (for_each body items) := by
  induction items with
  | nil => exact Keeps.pure ()
  | cons item rest ih =>
    apply (hbody item List.mem_cons_self).bind
    intro _
    exact ih fun later hlater => hbody later (List.mem_cons_of_mem _ hlater)

end

/-- From a state with the first property the computation ends in one with the second if it succeeds, and in
    one with the third if it fails. -/
structure Tries (pre : σ → Prop) (op : Trial σ ε α) (post : α → σ → Prop) (failed : σ → Prop) : Prop where
  ok : ∀ state value state', pre state → op state = (.ok value, state') → post value state'
  error : ∀ state error state', pre state → op state = (.error error, state') → failed state'

section
variable {pre inv failed : σ → Prop} {post : β → σ → Prop} {op : Trial σ ε α} {next : α → Trial σ ε β}
  {state state' : σ} {result : Except ε α} {middle : α → σ → Prop}

theorem Leads.of_eq (h : Leads pre inv op) (hstate : pre state) (hop : op state = (result, state')) : inv state' := by
  have hfinal := h.final state hstate
  rw [hop] at hfinal
  exact hfinal

theorem Leads.tries (h : Leads pre inv op) (hfailed : ∀ state, inv state → failed state) :
    Tries pre op (fun _ => inv) failed :=
  ⟨fun _ _ _ hstate hop => h.of_eq hstate hop, fun _ _ _ hstate hop => hfailed _ (h.of_eq hstate hop)⟩

theorem Tries.leads (h : Tries pre op (fun _ => inv) inv) : Leads pre inv op := by
  constructor
  intro state hstate
  rcases hop : op state with ⟨error | value, state'⟩
  · exact h.error state error state' hstate hop
  · exact h.ok state value state' hstate hop

theorem Tries.pure {post : α → σ → Prop} {value : α} (h : ∀ state, pre state → post value state) :
    Tries pre (pure value : Trial σ ε α) post failed := by
  constructor
  · rintro state _ _ hstate ⟨⟩
    exact h state hstate
  · rintro state _ _ hstate ⟨⟩

theorem Tries.bind (hop : Tries pre op middle failed) (hnext : ∀ value, Tries (middle value) (next value) post failed) :
    Tries pre (op >>= next) post failed := by
  constructor
  · intro state value state' hstate hrun
    obtain ⟨first, between, hfirst, hrest⟩ := bind_eq_ok_iff.mp hrun
    exact (hnext first).ok between value state' (hop.ok state first between hstate hfirst) hrest
  · intro state error state' hstate hrun
    obtain hfirst | ⟨first, between, hfirst, hrest⟩ := bind_eq_error_iff.mp hrun
    · exact hop.error state error state' hstate hfirst
    · exact (hnext first).error between error state' (hop.ok state first between hstate hfirst) hrest

theorem Tries.weaken {post post' : α → σ → Prop} {failed' : σ → Prop} (h : Tries pre op post failed)
    (hpost : ∀ value state, post value state → post' value state) (hfailed : ∀ state, failed state → failed' state) :
    Tries pre op post' failed' :=
  ⟨fun _ _ _ hstate hop => hpost _ _ (h.ok _ _ _ hstate hop),
    fun _ _ _ hstate hop => hfailed _ (h.error _ _ _ hstate hop)⟩

theorem Tries.anyway {post : α → σ → Prop} (h : Tries pre op post failed) : Tries pre op post fun _ => True :=
  h.weaken (fun _ _ hstate => hstate) fun _ _ => trivial

theorem Tries.of_eq {op op' : Trial σ ε β} (h : Tries pre op post failed) (hstate : pre state)
    (heq : op' state' = op state) : Tries (fun other => other = state') op' post failed := by
  constructor
  · rintro _ value last rfl hrun
    exact h.ok state value last hstate (heq ▸ hrun)
  · rintro _ error last rfl hrun
    exact h.error state error last hstate (heq ▸ hrun)

/-- What is done may rely on the state. -/
theorem Tries.of_forall {op : Trial σ ε β}
    (h : ∀ state, pre state → Tries (fun other => other = state) op post failed) :
    Tries pre op post failed :=
  ⟨fun state value state' hstate => (h state hstate).ok state value state' rfl,
    fun state error state' hstate => (h state hstate).error state error state' rfl⟩

/-- What follows a reading may rely on the state that was read. -/
theorem Tries.get_bind {f : σ → α}
    (h : ∀ state, pre state → Tries (fun other => other = state) (next (f state)) post failed) :
    Tries pre (trial.get f >>= next) post failed :=
  Tries.of_forall fun state hstate => (h state hstate).of_eq rfl rfl

theorem Tries.lift_error {error : ε} (h : ∀ state, pre state → failed state) :
    Tries pre (lift (.error error) : Trial σ ε β) post failed := by
  constructor
  · rintro state _ _ hstate ⟨⟩
  · rintro state _ _ hstate ⟨⟩
    exact h state hstate

theorem Tries.lift_bind (hok : ∀ value, result = .ok value → Tries pre (next value) post failed)
    (herror : ∀ error, result = .error error → ∀ state, pre state → failed state) :
    Tries pre (lift result >>= next) post failed := by
  cases result with
  | error error => exact Tries.lift_error (herror error rfl)
  | ok value => exact hok value rfl

theorem Tries.for_each {body : ι → Trial σ ε Unit} {items : List ι}
    (hbody : ∀ item ∈ items, Tries inv (body item) (fun _ => inv) failed) :
    Tries inv (for_each body items) (fun _ => inv) failed := by
  induction items with
  | nil => exact Tries.pure fun _ h => h
  | cons item rest ih =>
    exact (hbody item List.mem_cons_self).bind fun _ => ih fun later hlater =>
      hbody later (List.mem_cons_of_mem _ hlater)

theorem Tries.map_err {post : α → σ → Prop} {f : ε → ε'} (h : Tries pre op post failed) :
    Tries pre (map_err f op) post failed := by
  constructor
  · intro state value state' hstate hop
    exact h.ok state value state' hstate (map_err_eq_ok_iff.mp hop)
  · intro state error state' hstate hop
    obtain ⟨cause, hcause, -⟩ := map_err_eq_error_iff.mp hop
    exact h.error state cause state' hstate hcause

/-- The computation goes on whether the first part succeeds or not. -/
theorem Tries.attempt_bind {between : σ → Prop} {next : Except ε α → Trial σ ε' β}
    (h : Tries pre op middle between) (hok : ∀ value, Tries (middle value) (next (.ok value)) post failed)
    (herror : ∀ error, Tries between (next (.error error)) post failed) :
    Tries pre (attempt op >>= next) post failed := by
  refine Tries.of_forall fun state hstate => ?_
  rcases hop : op state with ⟨error | value, state'⟩
  · exact (herror error).of_eq (h.error state error state' hstate hop) (trial.attempt_bind hop)
  · exact (hok value).of_eq (h.ok state value state' hstate hop) (trial.attempt_bind hop)

/-- A computation that cannot fail. -/
theorem Tries.succeeds {op : Trial σ ε β} (h : Tries pre op post failed) (hstate : pre state)
    (hnever : ∀ state, ¬ failed state) : ∃ value state', op state = (.ok value, state') ∧ post value state' := by
  rcases hop : op state with ⟨error | value, state'⟩
  · exact absurd (h.error state error state' hstate hop) (hnever state')
  · exact ⟨value, state', rfl, h.ok state value state' hstate hop⟩

theorem Tries.start {op : Trial σ ε β} (h : Tries pre op post failed) (hstate : pre state) :
    Tries (fun other => other = state) op post failed :=
  h.of_eq hstate rfl

end

end trial

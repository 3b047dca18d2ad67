import Mathlib.Tactic.ByContra

/-! Two machines that talk over a queue in each direction. -/

namespace duplex

variable {σ τ μ : Type}

/-- The two machines, what is under way to each of them, and all that each of them has sent. -/
structure Net (σ τ μ : Type) where
  left : σ
  right : τ
  to_left : List μ
  to_right : List μ
  left_sent : List μ
  right_sent : List μ

/-- Both sides have sent their greeting and neither has read anything. -/
def Net.start (left : σ) (right : τ) (left_greeting right_greeting : List μ) : Net σ τ μ :=
  ⟨left, right, right_greeting, left_greeting, left_greeting, right_greeting⟩

section
variable (hear_left : σ → μ → σ × List μ) (hear_right : τ → μ → τ × List μ)

/-- One of the machines takes the next message of its queue. -/
inductive Step : Net σ τ μ → Net σ τ μ → Prop where
  | left {net : Net σ τ μ} {message : μ} {rest : List μ} (hnext : net.to_left = message :: rest) :
    Step net { net with
      left := (hear_left net.left message).1
      to_left := rest
      to_right := net.to_right ++ (hear_left net.left message).2
      left_sent := net.left_sent ++ (hear_left net.left message).2 }
  | right {net : Net σ τ μ} {message : μ} {rest : List μ} (hnext : net.to_right = message :: rest) :
    Step net { net with
      right := (hear_right net.right message).1
      to_right := rest
      to_left := net.to_left ++ (hear_right net.right message).2
      right_sent := net.right_sent ++ (hear_right net.right message).2 }

/-- The states that can be reached in a number of steps, in whatever order the machines take them. -/
inductive Run (start : Net σ τ μ) : Nat → Net σ τ μ → Prop where
  | start : Run start 0 start
  | step {n : Nat} {net next : Net σ τ μ} (hrun : Run start n net) (hstep : Step hear_left hear_right net next) :
    Run start (n + 1) next

end

section
variable {hear_left : σ → μ → σ × List μ} {hear_right : τ → μ → τ × List μ} {start net : Net σ τ μ} {n : Nat}

theorem Run.invariant {inv : Net σ τ μ → Prop} (h : Run hear_left hear_right start n net) (hstart : inv start)
    (hstep : ∀ net next, inv net → Step hear_left hear_right net next → inv next) : inv net := by
  induction h with
  | start => exact hstart
  | step _ hnext ih => exact hstep _ _ ih hnext

/-- Every message is read once: the steps taken and the messages under way make up what has been sent. -/
theorem Run.count {left : σ} {right : τ} {left_greeting right_greeting : List μ}
    (h : Run hear_left hear_right (.start left right left_greeting right_greeting) n net) :
    n + net.to_left.length + net.to_right.length = net.left_sent.length + net.right_sent.length := by
  induction h with
  | start =>
    simp only [Net.start]
    omega
  | step _ hnext ih =>
    cases hnext with
    | left hnext | right hnext =>
      rw [hnext] at ih
      simp only [List.length_append, List.length_cons] at ih ⊢
      omega

/-- Nothing happens any more when nothing is under way. -/
theorem stuck_iff : (∀ next, ¬ Step hear_left hear_right net next) ↔ net.to_left = [] ∧ net.to_right = [] := by
  constructor
  · intro hstuck
    constructor
    · cases hleft : net.to_left with
      | nil => rfl
      | cons message rest => exact absurd (.left hleft) (hstuck _)
    · cases hright : net.to_right with
      | nil => rfl
      | cons message rest => exact absurd (.right hright) (hstuck _)
  · rintro ⟨hleft, hright⟩ next hstep
    cases hstep with
    | left hnext => simp [hleft] at hnext
    | right hnext => simp [hright] at hnext

/-- If no run is longer than some bound, some run comes to an end. -/
theorem Run.exists_stuck {bound : Nat} (hbound : ∀ n net, Run hear_left hear_right start n net → n ≤ bound) :
    ∃ n net, Run hear_left hear_right start n net ∧ ∀ next, ¬ Step hear_left hear_right net next := by
  by_contra hnone
  push Not at hnone
  have hlong : ∀ n, ∃ net, Run hear_left hear_right start n net := by
    intro n
    induction n with
    | zero => exact ⟨start, .start⟩
    | succ n ih =>
      obtain ⟨net, hrun⟩ := ih
      obtain ⟨next, hstep⟩ := hnone n net hrun
      exact ⟨next, .step hrun hstep⟩
  obtain ⟨net, hrun⟩ := hlong (bound + 1)
  have hle := hbound _ _ hrun
  omega

end

end duplex

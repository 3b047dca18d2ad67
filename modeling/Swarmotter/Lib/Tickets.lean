import Mathlib.Data.List.Forall2

/-! Queues seen through the times at which their entries came: entries leave in the order in which they
came, and each of them leaves at most once. -/

namespace tickets

variable {ρ μ : Type}

/-- At the time `now` the entries of `queue` wait since times in ascending order, each as `Waits` says.
    The answers given so far belong to entries of earlier times, each as `Answers` says of its number,
    the time of its entry and itself. -/
def Ledger (Waits : Nat → ρ → Prop) (Answers : Nat → Nat → μ → Prop) (now : Nat) (queue : List ρ)
    (answers : List μ) : Prop :=
  ∃ answered waiting : List Nat, (answered ++ waiting).Pairwise (· < ·) ∧
    (∀ time ∈ answered ++ waiting, time < now) ∧ List.Forall₂ Waits waiting queue ∧
    answered.length = answers.length ∧
    ∀ n time answer, answered[n]? = some time → answers[n]? = some answer → Answers n time answer

section
variable {Waits Waits' : Nat → ρ → Prop} {Answers : Nat → Nat → μ → Prop} {now : Nat} {entry : ρ} {queue : List ρ}
  {answer : μ} {answers : List μ}

theorem Ledger.empty : Ledger Waits Answers now [] [] :=
  ⟨[], [], by simp, by simp, .nil, rfl, by simp⟩

theorem Ledger.later (h : Ledger Waits Answers now queue answers) : Ledger Waits Answers (now + 1) queue answers := by
  obtain ⟨answered, waiting, hordered, hpast, hwaits, hlength, hanswers⟩ := h
  exact ⟨answered, waiting, hordered, fun time htime => Nat.lt_succ_of_lt (hpast time htime), hwaits, hlength, hanswers⟩

theorem Ledger.push (h : Ledger Waits Answers now queue answers) (hentry : Waits now entry) :
    Ledger Waits Answers (now + 1) (queue ++ [entry]) answers := by
  obtain ⟨answered, waiting, hordered, hpast, hwaits, hlength, hanswers⟩ := h
  refine ⟨answered, waiting ++ [now], ?_, ?_, List.rel_append hwaits (.cons hentry .nil), hlength, hanswers⟩
  · rw [← List.append_assoc, List.pairwise_append]
    exact ⟨hordered, List.pairwise_singleton _ _, fun time htime last hlast => by
      rw [List.mem_singleton.mp hlast]
      exact hpast time htime⟩
  · intro time htime
    rw [← List.append_assoc, List.mem_append, List.mem_singleton] at htime
    rcases htime with htime | rfl
    · exact Nat.lt_succ_of_lt (hpast time htime)
    · exact Nat.lt_succ_self time

theorem forall₂_filter (keep : ρ → Bool)
    (hkeep : ∀ time entry, keep entry = true → Waits time entry → Waits' time entry)
    {times : List Nat} (h : List.Forall₂ Waits times queue) :
    ∃ kept, kept.Sublist times ∧ List.Forall₂ Waits' kept (queue.filter keep) := by
  induction h with
  | nil => exact ⟨[], .refl _, .nil⟩
  | @cons time entry times queue hentry hrest ih =>
    obtain ⟨kept, hsub, hkept⟩ := ih
    cases hentry' : keep entry with
    | true =>
      rw [List.filter_cons_of_pos hentry']
      exact ⟨time :: kept, hsub.cons_cons time, .cons (hkeep time entry hentry' hentry) hkept⟩
    | false =>
      rw [List.filter_cons_of_neg (by simp [hentry'])]
      exact ⟨kept, hsub.cons time, hkept⟩

/-- Taking entries out of the queue, wherever they stand. What remains may be known to wait for a new
    reason. -/
theorem Ledger.filter (h : Ledger Waits Answers now queue answers) (keep : ρ → Bool)
    (hkeep : ∀ time entry, keep entry = true → Waits time entry → Waits' time entry) :
    Ledger Waits' Answers now (queue.filter keep) answers := by
  obtain ⟨answered, waiting, hordered, hpast, hwaits, hlength, hanswers⟩ := h
  obtain ⟨kept, hsub, hkept⟩ := forall₂_filter keep hkeep hwaits
  have hall := hsub.append_left answered
  exact ⟨answered, kept, hordered.sublist hall, fun time htime => hpast time (hall.subset htime), hkept, hlength,
    hanswers⟩

theorem Ledger.mono (h : Ledger Waits Answers now queue answers)
    (hmono : ∀ time entry, Waits time entry → Waits' time entry) : Ledger Waits' Answers now queue answers := by
  simpa using h.filter (fun _ => true) fun time entry _ => hmono time entry

/-- The first entry leaves without an answer. -/
theorem Ledger.tail (h : Ledger Waits Answers now (entry :: queue) answers) :
    Ledger Waits Answers now queue answers := by
  obtain ⟨answered, _, hordered, hpast, hqueue, hlength, hanswers⟩ := h
  obtain ⟨time, waiting, hentry, hwaits, rfl⟩ := List.forall₂_cons_right_iff.mp hqueue
  have hall := (List.sublist_cons_self time waiting).append_left answered
  exact ⟨answered, waiting, hordered.sublist hall, fun time htime => hpast time (hall.subset htime), hwaits, hlength,
    hanswers⟩

/-- The first entry leaves with an answer. -/
theorem Ledger.serve (h : Ledger Waits Answers now (entry :: queue) answers)
    (hanswer : ∀ time < now, Waits time entry → Answers answers.length time answer) :
    Ledger Waits Answers now queue (answers ++ [answer]) := by
  obtain ⟨answered, _, hordered, hpast, hqueue, hlength, hanswers⟩ := h
  obtain ⟨time, waiting, hentry, hwaits, rfl⟩ := List.forall₂_cons_right_iff.mp hqueue
  have hmove : answered ++ [time] ++ waiting = answered ++ time :: waiting := by simp
  refine ⟨answered ++ [time], waiting, hmove ▸ hordered, hmove ▸ hpast, hwaits, by simp [hlength], ?_⟩
  intro n time' answer' htime hgiven
  by_cases hn : n < answered.length
  · rw [List.getElem?_append_left hn] at htime
    rw [List.getElem?_append_left (hlength ▸ hn)] at hgiven
    exact hanswers n time' answer' htime hgiven
  · have hlast : n = answers.length := by
      have := (List.getElem?_eq_some_iff.mp hgiven).1
      rw [List.length_append, List.length_singleton] at this
      omega
    subst hlast
    rw [← hlength] at htime
    simp only [List.getElem?_concat_length, Option.some.injEq] at htime hgiven
    subst htime hgiven
    exact hanswer time (hpast time (by simp)) hentry

end

end tickets

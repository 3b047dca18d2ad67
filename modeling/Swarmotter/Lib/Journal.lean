import Mathlib.Data.List.Basic

/-! Steps that were done one after the other and are kept in that order, so that they can be taken back. -/

namespace journal

variable {ι σ : Type}

/-- The items of a list were done in their order, from the first state to the last one. -/
inductive Done (step : ι → σ → σ → Prop) (base : σ) : List ι → σ → Prop where
  | nil : Done step base [] base
  | push {items : List ι} {item : ι} {middle after : σ} (hdone : Done step base items middle)
      (hstep : step item middle after) : Done step base (items ++ [item]) after

variable {step : ι → σ → σ → Prop} {base after : σ} {items : List ι}

/-- A change of the states that no item notices. -/
theorem Done.map (h : Done step base items after) {f : σ → σ}
    (hf : ∀ item ∈ items, ∀ s t, step item s t → step item (f s) (f t)) : Done step (f base) items (f after) := by
  induction h with
  | nil => exact .nil
  | @push items item middle after _ hstep ih =>
    refine .push (ih fun earlier hearlier => hf earlier (List.mem_append_left _ hearlier)) ?_
    exact hf item (List.mem_append_right _ List.mem_cons_self) _ _ hstep

/-- A relation between items and states that each step establishes for its item and keeps for the ones before. -/
theorem Done.forall_mem (h : Done step base items after) (holds : ι → σ → Prop)
    (hnew : ∀ item ∈ items, ∀ s t, step item s t → holds item t)
    (hkeep : ∀ item ∈ items, ∀ s t, step item s t → ∀ earlier ∈ items, holds earlier s → holds earlier t) :
    ∀ item ∈ items, holds item after := by
  induction h with
  | nil => exact nofun
  | @push items item middle after _ hstep ih =>
    have hitem : item ∈ items ++ [item] := List.mem_append_right _ List.mem_cons_self
    have hmiddle := ih (fun earlier hearlier => hnew earlier (List.mem_append_left _ hearlier))
      fun earlier hearlier s t hs other hother => hkeep earlier (List.mem_append_left _ hearlier) s t hs other
        (List.mem_append_left _ hother)
    intro other hother
    cases List.mem_append.mp hother with
    | inl hearlier => exact hkeep item hitem _ _ hstep other hother (hmiddle other hearlier)
    | inr hlast =>
      obtain rfl := List.mem_singleton.mp hlast
      exact hnew other hitem _ _ hstep

end journal

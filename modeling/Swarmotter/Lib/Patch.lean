import Mathlib.Data.List.Nodup

namespace patch

/-- Cells together with the values that are to be stored in them. -/
abbrev Patch (κ β : Type) := List (κ × β)

section

variable {κ β : Type} {get before after : κ → Option β} {whole front rest left right : Patch κ β}

/-- Every cell of the patch has its value. -/
def Holds (get : κ → Option β) (patch : Patch κ β) : Prop :=
  ∀ cell value, (cell, value) ∈ patch → get cell = some value

/-- No cell is given two different values. -/
def Agree (left right : Patch κ β) : Prop :=
  ∀ cell v w, (cell, v) ∈ left → (cell, w) ∈ right → v = w

/-- The store `after` is the store `before` with the patch written. A cell outside the patch
    keeps its value; one that had none may have got one. -/
structure Wrote (before after : κ → Option β) (patch : Patch κ β) : Prop where
  stored : Holds after patch
  kept : ∀ cell value, cell ∉ patch.map Prod.fst → before cell = some value → after cell = some value

/-- A writer of `whole` that still has `rest` to write: what comes before it is in place. -/
def Progress (get : κ → Option β) (whole rest : Patch κ β) : Prop :=
  ∃ done, whole = done ++ rest ∧ Holds get done

theorem holds_append : Holds get (left ++ right) ↔ Holds get left ∧ Holds get right := by
  constructor
  · intro h
    exact ⟨fun cell value hmem => h cell value (List.mem_append_left right hmem),
      fun cell value hmem => h cell value (List.mem_append_right left hmem)⟩
  · rintro ⟨hleft, hright⟩ cell value hmem
    cases List.mem_append.mp hmem with
    | inl hmem => exact hleft cell value hmem
    | inr hmem => exact hright cell value hmem

theorem Agree.mono {left' right' : Patch κ β} (h : Agree left right) (hleft : left' ⊆ left)
    (hright : right' ⊆ right) : Agree left' right' :=
  fun cell v w hv hw => h cell v w (hleft hv) (hright hw)

/-- What is in place stays in place under every write that agrees with it. -/
theorem Wrote.holds (h : Wrote before after left) (hagree : Agree left right) (hright : Holds before right) :
    Holds after right := by
  intro cell value hmem
  by_cases hcell : cell ∈ left.map Prod.fst
  · obtain ⟨⟨other, stored⟩, hentry, rfl⟩ := List.mem_map.mp hcell
    rw [h.stored other stored hentry, hagree other stored value hentry hmem]
  · exact h.kept cell value hcell (hright cell value hmem)

/-- What was in place anyway may be counted as written. -/
theorem Wrote.append (h : Wrote before after left) (hright : Holds after right) :
    Wrote before after (left ++ right) := by
  refine ⟨holds_append.mpr ⟨h.stored, hright⟩, fun cell value hout hbefore => ?_⟩
  apply h.kept cell value _ hbefore
  intro hmem
  apply hout
  rw [List.map_append]
  exact List.mem_append_left _ hmem

theorem Progress.start : Progress get whole whole :=
  ⟨[], rfl, nofun⟩

theorem Progress.finished (h : Progress get whole []) : Holds get whole := by
  obtain ⟨done, hwhole, hdone⟩ := h
  rwa [hwhole, List.append_nil]

theorem Progress.suffix (h : Progress get whole rest) : rest ⊆ whole := by
  obtain ⟨done, hwhole, -⟩ := h
  rw [hwhole]
  exact List.subset_append_right done rest

/-- The writer's own step: the front of what is left is now in place. -/
theorem Progress.step (h : Progress before whole (front ++ rest)) (hwrote : Wrote before after front)
    (hself : Agree whole whole) : Progress after whole rest := by
  have hfront : front ⊆ whole := List.Subset.trans (List.subset_append_left front rest) h.suffix
  obtain ⟨done, hwhole, hdone⟩ := h
  refine ⟨done ++ front, by rw [hwhole, List.append_assoc], holds_append.mpr ⟨?_, hwrote.stored⟩⟩
  have hsub : done ⊆ whole := by
    rw [hwhole]
    exact List.subset_append_left done _
  exact hwrote.holds (hself.mono hfront hsub) hdone

end

end patch

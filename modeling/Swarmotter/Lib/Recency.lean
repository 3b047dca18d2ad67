import Mathlib.Order.Basic

/-! The uses of things in the order of time: each is opened once and then used again some times. -/

namespace recency

inductive Use (α : Type) where
  | Opened (item : α)
  | Hit (item : α)
  deriving DecidableEq

variable {α : Type}

def Use.item : Use α → α
  | .Opened item | .Hit item => item

def Use.opened : Use α → Option α
  | .Opened item => some item
  | .Hit _ => none

/-- One thing was used after the last use of another. -/
def UsedSince (log : List (Use α)) (item other : α) : Prop :=
  ∃ rest, rest <:+ log ∧ (∃ use ∈ rest, use.item = other) ∧ ∀ use ∈ rest, use.item ≠ item

/-- One thing was opened after another. -/
def OpenedAfter (log : List (Use α)) (item other : α) : Prop :=
  ∃ rest, rest <:+ log ∧ .Opened other ∈ rest ∧ .Opened item ∉ rest

section
variable {log : List (Use α)} {item other : α}

theorem mem_opened : item ∈ log.filterMap Use.opened ↔ .Opened item ∈ log := by
  rw [List.mem_filterMap]
  constructor
  · rintro ⟨use, huse, hitem⟩
    cases use with
    | Opened found =>
      cases hitem
      exact huse
    | Hit found => exact nomatch hitem
  · exact fun h => ⟨_, h, rfl⟩

theorem lt_of_ordered [Preorder α] (h : (log.filterMap Use.opened).Pairwise (· < ·)) {before rest : List (Use α)}
    (hlog : log = before ++ rest)
    (hitem : .Opened item ∈ before) (hother : .Opened other ∈ rest) : item < other := by
  rw [hlog, List.filterMap_append, List.pairwise_append] at h
  exact h.2.2 item (mem_opened.mpr hitem) other (mem_opened.mpr hother)

/-- Where things are opened in their order, one is opened after the smaller ones. -/
theorem openedAfter_iff [Preorder α] (h : (log.filterMap Use.opened).Pairwise (· < ·)) (hitem : .Opened item ∈ log)
    (hother : .Opened other ∈ log) :
    OpenedAfter log item other ↔ item < other := by
  constructor
  · rintro ⟨rest, ⟨before, hlog⟩, hin, hnot⟩
    rw [← hlog] at hitem
    exact lt_of_ordered h hlog.symm ((List.mem_append.mp hitem).resolve_right hnot) hin
  · intro hlt
    obtain ⟨before, rest, hlog⟩ := List.append_of_mem hitem
    have hsplit : log = (before ++ [.Opened item]) ++ rest := by rw [hlog, List.append_assoc, List.singleton_append]
    refine ⟨rest, ⟨_, hsplit.symm⟩, ?_, ?_⟩
    · rw [hlog] at hother
      rcases List.mem_append.mp hother with hearly | hlate
      · exact absurd (lt_of_ordered h hlog hearly List.mem_cons_self) (lt_asymm hlt)
      · rcases List.mem_cons.mp hlate with heq | hrest
        · cases heq
          exact absurd hlt (lt_irrefl _)
        · exact hrest
    · intro hagain
      exact absurd (lt_of_ordered h hsplit (List.mem_append_right _ List.mem_cons_self) hagain) (lt_irrefl _)

theorem exists_last {p : Use α → Prop} [DecidablePred p] (h : ∃ use ∈ log, p use) :
    ∃ before use rest, log = before ++ use :: rest ∧ p use ∧ ∀ later ∈ rest, ¬p later := by
  induction log with
  | nil =>
    obtain ⟨use, huse, -⟩ := h
    exact absurd huse List.not_mem_nil
  | cons first log ih =>
    by_cases hlater : ∃ use ∈ log, p use
    · obtain ⟨before, use, rest, rfl, huse, hrest⟩ := ih hlater
      exact ⟨first :: before, use, rest, rfl, huse, hrest⟩
    · obtain ⟨use, huse, hp⟩ := h
      rcases List.mem_cons.mp huse with rfl | hmem
      · exact ⟨[], use, log, rfl, hp, fun later hmem hp => hlater ⟨later, hmem, hp⟩⟩
      · exact absurd ⟨use, hmem, hp⟩ hlater

/-- A thing that was opened later was used since the last use of an earlier one exactly if it was used after each time
that the earlier one was used again. -/
theorem usedSince_iff [DecidableEq α] (hafter : OpenedAfter log item other) (hitem : .Opened item ∈ log) :
    UsedSince log item other ↔ ∀ rest, (.Hit item :: rest) <:+ log → ∃ use ∈ rest, use.item = other := by
  constructor
  · rintro ⟨since, hsince, ⟨use, huse, hother⟩, hnot⟩ rest hrest
    rcases List.suffix_or_suffix_of_suffix hsince hrest with hshort | hlong
    · rcases List.suffix_cons_iff.mp hshort with rfl | hshort
      · exact absurd rfl (hnot _ List.mem_cons_self)
      · exact ⟨use, hshort.subset huse, hother⟩
    · exact absurd rfl (hnot (.Hit item) (hlong.subset List.mem_cons_self))
  · intro hhits
    obtain ⟨before, use, rest, hlog, huse, hlast⟩ :=
      @exists_last α log (fun use => use.item = item) _ ⟨_, hitem, rfl⟩
    have hsuffix : (use :: rest) <:+ log := ⟨before, hlog.symm⟩
    have hrest : rest <:+ log := (List.suffix_cons use rest).trans hsuffix
    refine ⟨rest, hrest, ?_, hlast⟩
    cases use with
    | Hit found =>
      cases huse
      exact hhits rest hsuffix
    | Opened found =>
      cases huse
      obtain ⟨late, hlate, hin, hnot⟩ := hafter
      rcases List.suffix_or_suffix_of_suffix hlate hsuffix with hshort | hlong
      · rcases List.suffix_cons_iff.mp hshort with rfl | hshort
        · exact absurd List.mem_cons_self hnot
        · exact ⟨_, hshort.subset hin, rfl⟩
      · exact absurd (hlong.subset List.mem_cons_self) hnot

end

end recency

import Mathlib.Algebra.GroupWithZero.Nat
import Mathlib.Data.List.Range
import Mathlib.Data.List.Nodup
import Mathlib.Data.List.Sort
import Mathlib.Algebra.Order.BigOperators.Group.List

namespace extents

/-- A run of cells of one segment. -/
structure Extent where
  segment : Nat
  offset : Nat
  length : Nat
  deriving DecidableEq

/-- Segments of the given lengths lie one after another in an address space. `cut` maps the window
    from `start` to `stop` to the runs it covers; the first segment has the number `index` and
    begins at `base`. -/
def cut (start stop : Nat) : Nat → Nat → List Nat → List Extent
  | _, _, [] => []
  | index, base, len :: lens =>
    if start < base + len ∧ base < stop then
      ⟨index, max base start - base, min (base + len) stop - max base start⟩ ::
        cut start stop (index + 1) (base + len) lens
    else cut start stop (index + 1) (base + len) lens

/-- The cells of a run, each as a segment and an offset. -/
def Extent.cells (extent : Extent) : List (Nat × Nat) :=
  (List.range' extent.offset extent.length).map fun k => (extent.segment, k)

def cells (extents : List Extent) : List (Nat × Nat) := extents.flatMap Extent.cells

/-- Every cell with its address, in the order of the addresses. -/
def addressed : Nat → Nat → List Nat → List (Nat × (Nat × Nat))
  | _, _, [] => []
  | index, base, len :: lens =>
    (List.range len).map (fun k => (base + k, (index, k))) ++ addressed (index + 1) (base + len) lens

/-- Every cell of the segments. -/
def all_cells (lens : List Nat) : List (Nat × Nat) := (addressed 0 0 lens).map Prod.snd

/-- The entries of `addressed` whose address is in the window. -/
def window (start stop : Nat) (entries : List (Nat × (Nat × Nat))) : List (Nat × (Nat × Nat)) :=
  entries.filter fun entry => start ≤ entry.1 ∧ entry.1 < stop

variable {lens : List Nat}

section
variable {start stop index base : Nat} {lens : List Nat}

/-- The part of a range inside a window is a range. -/
theorem filter_range' (start stop base n : Nat) :
    (List.range' base n).filter (fun a => start ≤ a ∧ a < stop) =
      List.range' (max base start) (min (base + n) stop - max base start) := by
  refine List.Pairwise.eq_of_mem_iff (List.Pairwise.filter _ List.pairwise_lt_range') List.pairwise_lt_range'
    fun a => ?_
  simp only [List.mem_filter, List.mem_range'_1, decide_eq_true_eq]
  omega

/-- The offsets of one segment that a window covers. -/
theorem filter_offsets (start stop base len : Nat) :
    (List.range len).filter (fun k => start ≤ base + k ∧ base + k < stop) =
      List.range' (max base start - base) (min (base + len) stop - max base start) := by
  have hshift := filter_range' (start - base) (stop - base) 0 len
  have hoffset : max 0 (start - base) = max base start - base := by omega
  have hlen : min (0 + len) (stop - base) - max 0 (start - base) = min (base + len) stop - max base start := by omega
  rw [hlen, hoffset] at hshift
  rw [← hshift, List.range_eq_range']
  apply List.filter_congr
  intro k _
  apply decide_eq_decide.mpr
  omega

/-- A cut window has the cells whose addresses are in it, in their order. -/
theorem cells_cut (start stop index base : Nat) (lens : List Nat) :
    cells (cut start stop index base lens) = (window start stop (addressed index base lens)).map Prod.snd := by
  induction lens generalizing index base with
  | nil => rfl
  | cons len lens ih =>
    have hhead : ((((List.range len).map fun k => (base + k, (index, k))).filter fun entry =>
        start ≤ entry.1 ∧ entry.1 < stop).map Prod.snd) =
        Extent.cells ⟨index, max base start - base, min (base + len) stop - max base start⟩ := by
      rw [List.filter_map, List.map_map, Extent.cells, ← filter_offsets]
      rfl
    rw [addressed, window, List.filter_append, List.map_append, hhead, cut]
    split
    · rw [cells, List.flatMap_cons, ← window, ← ih]
      rfl
    · rename_i hout
      have hempty : min (base + len) stop - max base start = 0 := by omega
      rw [hempty, ← window, ← ih]
      rfl

theorem map_fst_addressed (index base : Nat) (lens : List Nat) :
    (addressed index base lens).map Prod.fst = List.range' base lens.sum := by
  induction lens generalizing index base with
  | nil => rfl
  | cons len lens ih =>
    have hhead : ((List.range len).map fun k => (base + k, (index, k))).map Prod.fst = List.range' base len := by
      rw [List.map_map, List.range'_eq_map_range]
      rfl
    rw [addressed, List.map_append, ih, hhead, List.sum_cons, ← List.range'_append_1]

/-- A cell lies inside its segment. -/
theorem mem_addressed {a seg k : Nat} (h : (a, (seg, k)) ∈ addressed index base lens) :
    index ≤ seg ∧ ∃ len, lens[seg - index]? = some len ∧ k < len := by
  induction lens generalizing index base with
  | nil => cases h
  | cons len lens ih =>
    cases List.mem_append.mp h with
    | inl h =>
      obtain ⟨j, hj, heq⟩ := List.mem_map.mp h
      simp only [Prod.mk.injEq] at heq
      obtain ⟨-, rfl, rfl⟩ := heq
      refine ⟨Nat.le_refl _, len, ?_, List.mem_range.mp hj⟩
      rw [Nat.sub_self, List.getElem?_cons_zero]
    | inr h =>
      obtain ⟨hseg, found, hfound, hk⟩ := ih h
      refine ⟨by omega, found, ?_, hk⟩
      have hsucc : seg - index = seg - (index + 1) + 1 := by omega
      rw [hsucc, List.getElem?_cons_succ, hfound]

theorem nodup_cells (index base : Nat) (lens : List Nat) : ((addressed index base lens).map Prod.snd).Nodup := by
  induction lens generalizing index base with
  | nil => exact List.nodup_nil
  | cons len lens ih =>
    rw [addressed, List.map_append, List.map_map, List.nodup_append']
    refine ⟨?_, ih _ _, ?_⟩
    · apply List.nodup_range.map
      intro j k hjk
      exact (Prod.mk.inj hjk).2
    · intro cell hhead htail
      obtain ⟨k, -, rfl⟩ := List.mem_map.mp hhead
      obtain ⟨⟨a, seg, k'⟩, hmem, heq⟩ := List.mem_map.mp htail
      obtain ⟨hseg, -⟩ := mem_addressed hmem
      have hsame : seg = index := congrArg Prod.fst heq
      omega

variable {cell : Nat × Nat}

/-- A cell has one address. -/
theorem address_unique {a a' : Nat} (h : (a, cell) ∈ addressed index base lens)
    (h' : (a', cell) ∈ addressed index base lens) : a = a' := by
  have heq := List.inj_on_of_nodup_map (nodup_cells index base lens) h h' rfl
  exact congrArg Prod.fst heq

theorem mem_cells_cut :
    cell ∈ cells (cut start stop index base lens) ↔
      ∃ a, (a, cell) ∈ addressed index base lens ∧ start ≤ a ∧ a < stop := by
  rw [cells_cut, List.mem_map]
  constructor
  · rintro ⟨⟨a, found⟩, hmem, rfl⟩
    obtain ⟨hmem, hin⟩ := List.mem_filter.mp hmem
    exact ⟨a, hmem, of_decide_eq_true hin⟩
  · rintro ⟨a, hmem, hin⟩
    exact ⟨(a, cell), List.mem_filter.mpr ⟨hmem, decide_eq_true hin⟩, rfl⟩

theorem nodup_cells_cut (start stop index base : Nat) (lens : List Nat) :
    (cells (cut start stop index base lens)).Nodup := by
  rw [cells_cut]
  exact (nodup_cells index base lens).sublist (List.filter_sublist.map Prod.snd)

/-- Windows that do not overlap share no cell. -/
theorem disjoint_cells_cut {start' stop' : Nat} (h : stop ≤ start' ∨ stop' ≤ start) :
    (cells (cut start stop index base lens)).Disjoint (cells (cut start' stop' index base lens)) := by
  intro cell hleft hright
  obtain ⟨a, hmem, hlow, hhigh⟩ := mem_cells_cut.mp hleft
  obtain ⟨a', hmem', hlow', hhigh'⟩ := mem_cells_cut.mp hright
  have hsame := address_unique hmem hmem'
  omega

theorem map_fst_window (start stop : Nat) (lens : List Nat) :
    (window start stop (addressed 0 0 lens)).map Prod.fst =
      List.range' (max 0 start) (min (0 + lens.sum) stop - max 0 start) := by
  rw [← filter_range', ← map_fst_addressed 0 0 lens, List.filter_map]
  rfl

/-- The runs of a window have the length of its part below the last address. -/
theorem length_cells_cut (start stop : Nat) (lens : List Nat) :
    (cells (cut start stop 0 0 lens)).length = min lens.sum stop - start := by
  have hlen := congrArg List.length (map_fst_window start stop lens)
  rw [List.length_map, List.length_range'] at hlen
  rw [cells_cut, List.length_map, hlen]
  omega

/-- The cell at a position of a window is the one at that address. -/
theorem getElem?_cells_cut {start stop i : Nat} :
    (cells (cut start stop 0 0 lens))[i]? = some cell ↔ (start + i, cell) ∈ addressed 0 0 lens ∧ start + i < stop := by
  have hposition : ∀ {j a : Nat} {found : Nat × Nat},
      (window start stop (addressed 0 0 lens))[j]? = some (a, found) → a = start + j := by
    intro j a found hfound
    have hfirst := congrArg (fun list => list[j]?) (map_fst_window start stop lens)
    simp only [List.getElem?_map, hfound, Option.map_some] at hfirst
    obtain ⟨hj, heq⟩ := List.getElem?_eq_some_iff.mp hfirst.symm
    rw [List.getElem_range'] at heq
    omega
  rw [cells_cut, List.getElem?_map, Option.map_eq_some_iff]
  constructor
  · rintro ⟨⟨a, found⟩, hfound, rfl⟩
    obtain ⟨hmem, hin⟩ := List.mem_filter.mp (List.mem_of_getElem? hfound)
    have ha := hposition hfound
    subst ha
    exact ⟨hmem, (of_decide_eq_true hin).2⟩
  · rintro ⟨hmem, hlt⟩
    have hin : (start + i, cell) ∈ window start stop (addressed 0 0 lens) :=
      List.mem_filter.mpr ⟨hmem, decide_eq_true ⟨Nat.le_add_right start i, hlt⟩⟩
    obtain ⟨j, hj⟩ := List.mem_iff_getElem?.mp hin
    have hsame := hposition hj
    obtain rfl : i = j := by omega
    exact ⟨(start + i, cell), hj, rfl⟩

/-- A segment that a window meets is met by every larger window. -/
theorem segment_mem_cut {start stop start' stop' index base : Nat} (hlow : start' ≤ start) (hhigh : stop ≤ stop')
    {extent : Extent} (h : extent ∈ cut start stop index base lens) :
    ∃ wider ∈ cut start' stop' index base lens, wider.segment = extent.segment := by
  induction lens generalizing index base with
  | nil => cases h
  | cons len lens ih =>
    rw [cut] at h ⊢
    by_cases hmeets : start < base + len ∧ base < stop
    · have hmeets' : start' < base + len ∧ base < stop' := by omega
      rw [if_pos hmeets] at h
      rw [if_pos hmeets']
      cases h with
      | head => exact ⟨_, List.mem_cons_self, rfl⟩
      | tail _ h =>
        obtain ⟨wider, hwider, hsame⟩ := ih h
        exact ⟨wider, List.mem_cons_of_mem _ hwider, hsame⟩
    · rw [if_neg hmeets] at h
      obtain ⟨wider, hwider, hsame⟩ := ih h
      refine ⟨wider, ?_, hsame⟩
      split
      · exact List.mem_cons_of_mem _ hwider
      · exact hwider

theorem length_cells (extents : List Extent) : (cells extents).length = (extents.map Extent.length).sum := by
  induction extents with
  | nil => rfl
  | cons extent extents ih =>
    rw [cells, List.flatMap_cons, List.length_append, ← cells, ih, Extent.cells, List.length_map,
      List.length_range', List.map_cons, List.sum_cons]

/-- A run lies inside its segment. -/
theorem inside_cut {extent : Extent} (h : extent ∈ cut start stop index base lens) :
    index ≤ extent.segment ∧
      ∃ len, lens[extent.segment - index]? = some len ∧ extent.offset + extent.length ≤ len := by
  induction lens generalizing index base with
  | nil => cases h
  | cons len lens ih =>
    have hlater : extent ∈ cut start stop (index + 1) (base + len) lens → index ≤ extent.segment ∧
        ∃ found, (len :: lens)[extent.segment - index]? = some found ∧
          extent.offset + extent.length ≤ found := by
      intro h
      obtain ⟨hseg, found, hfound, hlen⟩ := ih h
      have hsucc : extent.segment - index = extent.segment - (index + 1) + 1 := by omega
      refine ⟨by omega, found, ?_, hlen⟩
      rw [hsucc, List.getElem?_cons_succ, hfound]
    rw [cut] at h
    split at h
    · cases h with
      | head =>
        refine ⟨Nat.le_refl _, len, ?_, ?_⟩
        · rw [Nat.sub_self, List.getElem?_cons_zero]
        · dsimp only
          omega
      | tail _ h => exact hlater h
    · exact hlater h

/-- The runs of a window come in the order of their segments. -/
theorem pairwise_cut (start stop index base : Nat) (lens : List Nat) :
    (cut start stop index base lens).Pairwise fun left right => left.segment < right.segment := by
  induction lens generalizing index base with
  | nil => exact List.Pairwise.nil
  | cons len lens ih =>
    rw [cut]
    split
    · refine List.Pairwise.cons (fun extent h => ?_) (ih _ _)
      obtain ⟨hseg, -⟩ := inside_cut h
      exact hseg
    · exact ih _ _

end

section
variable {entries : List (Nat × (Nat × Nat))}

/-- Two adjacent windows make one. -/
theorem window_append (hsorted : entries.Pairwise fun left right => left.1 < right.1) {a b c : Nat}
    (hab : a ≤ b) (hbc : b ≤ c) : window a b entries ++ window b c entries = window a c entries := by
  let before : Nat × (Nat × Nat) → Nat × (Nat × Nat) → Prop := fun left right => left.1 < right.1
  have : Std.Antisymm before := ⟨fun _ _ h h' => absurd h (Nat.lt_asymm h')⟩
  have : Std.Irrefl before := ⟨fun _ => Nat.lt_irrefl _⟩
  have hmem : ∀ {low high entry}, entry ∈ window low high entries ↔
      entry ∈ entries ∧ low ≤ entry.1 ∧ entry.1 < high := by
    simp [window]
  refine List.Pairwise.eq_of_mem_iff (List.pairwise_append.mpr ⟨hsorted.filter _, hsorted.filter _, ?_⟩)
    (hsorted.filter _ : List.Pairwise before _) fun entry => ?_
  · intro left hleft right hright
    exact (hmem.mp hleft).2.2.trans_le (hmem.mp hright).2.1
  · rw [List.mem_append, hmem, hmem, hmem, ← and_or_left]
    exact and_congr_right fun _ => by omega

/-- Windows of one width, the last of them cut off at the end of the address space, cover every
    cell once and in order. -/
theorem flatMap_cells_cut {width count : Nat} (hcount : lens.sum ≤ count * width) :
    (List.range count).flatMap (fun i =>
      cells (cut (i * width) (min (i * width + width) lens.sum) 0 0 lens)) = all_cells lens := by
  have hfirst := map_fst_addressed 0 0 lens
  have hsorted : (addressed 0 0 lens).Pairwise fun left right => left.1 < right.1 := by
    rw [← List.pairwise_map (f := Prod.fst), hfirst]
    exact List.pairwise_lt_range'
  have hbelow : ∀ entry ∈ addressed 0 0 lens, entry.1 < lens.sum := by
    intro entry hentry
    have hmem : entry.1 ∈ List.range' 0 lens.sum := by
      rw [← hfirst]
      exact List.mem_map_of_mem hentry
    have := List.mem_range'_1.mp hmem
    omega
  have hclip : ∀ i, window (i * width) (min (i * width + width) lens.sum) (addressed 0 0 lens) =
      window (i * width) ((i + 1) * width) (addressed 0 0 lens) := by
    intro i
    apply List.filter_congr
    intro entry hentry
    have hlt := hbelow entry hentry
    have hnext : (i + 1) * width = i * width + width := Nat.succ_mul i width
    apply decide_eq_decide.mpr
    omega
  have hrun : ∀ n, (List.range n).flatMap (fun i =>
      window (i * width) ((i + 1) * width) (addressed 0 0 lens)) = window 0 (n * width) (addressed 0 0 lens) := by
    intro n
    induction n with
    | zero =>
      have hempty : window 0 (0 * width) (addressed 0 0 lens) = [] := by
        apply List.filter_eq_nil_iff.mpr
        intro entry _
        simp
      rw [hempty]
      rfl
    | succ n ih =>
      rw [List.range_succ, List.flatMap_append, ih, List.flatMap_singleton]
      exact window_append hsorted (Nat.zero_le _) (Nat.mul_le_mul_right width (Nat.le_succ n))
  have hall : window 0 (count * width) (addressed 0 0 lens) = addressed 0 0 lens := by
    apply List.filter_eq_self.mpr
    intro entry hentry
    have hlt := hbelow entry hentry
    exact decide_eq_true ⟨Nat.zero_le _, by omega⟩
  calc (List.range count).flatMap (fun i => cells (cut (i * width) (min (i * width + width) lens.sum) 0 0 lens))
      = (List.range count).flatMap (fun i =>
          (window (i * width) ((i + 1) * width) (addressed 0 0 lens)).map Prod.snd) := by
        simp only [cells_cut, hclip]
    _ = ((List.range count).flatMap fun i =>
          window (i * width) ((i + 1) * width) (addressed 0 0 lens)).map Prod.snd := by
        rw [List.map_flatMap]
    _ = all_cells lens := by
        rw [hrun, hall]
        rfl

end

end extents

import Mathlib.Algebra.Order.Group.Multiset
import Mathlib.Data.Finset.Basic

/-! A pool from which several holders take things and to which they give them back. -/

namespace holdings

variable {σ α : Type} (held : σ → List α)

/-- What is out of the pool is with the holders, and each thing once. -/
def Accounted (out : Finset α) (holders : List σ) : Prop := out.val = holders.flatMap held

variable {held} {out out' : Finset α} {holders : List σ} {holder holder' : σ} {index : Nat}

theorem Accounted.nodup (h : Accounted held out holders) : (holders.flatMap held).Nodup :=
  Multiset.coe_nodup.mp (h ▸ out.nodup)

theorem Accounted.mem_iff (h : Accounted held out holders) {thing : α} :
    thing ∈ out ↔ ∃ holder ∈ holders, thing ∈ held holder := by
  rw [← Finset.mem_val, h, Multiset.mem_coe, List.mem_flatMap]

theorem Accounted.push (h : Accounted held out holders) (hempty : held holder = []) :
    Accounted held out (holders ++ [holder]) := by
  rw [Accounted, List.flatMap_append, List.flatMap_singleton, hempty, List.append_nil]
  exact h

/-- One holder moves, and what it has more than before is out. -/
theorem Accounted.set (h : Accounted held out holders) (hget : holders[index]? = some holder)
    (hbalance : out'.val + held holder = out.val + held holder') : Accounted held out' (holders.set index holder') := by
  obtain ⟨hlt, rfl⟩ := List.getElem?_eq_some_iff.mp hget
  have hbefore : out.val = (holders.take index).flatMap held +
      (held holders[index] + (holders.drop (index + 1)).flatMap held) := by
    rw [h, Multiset.coe_add, Multiset.coe_add, ← List.flatMap_cons, ← List.drop_eq_getElem_cons hlt,
      ← List.flatMap_append,
      List.take_append_drop]
  apply add_right_cancel (b := (held holders[index] : Multiset α))
  rw [hbalance, hbefore, List.set_eq_take_append_cons_drop, if_pos hlt, List.flatMap_append, List.flatMap_cons,
    ← Multiset.coe_add, ← Multiset.coe_add]
  ac_rfl

theorem Accounted.disjoint (h : Accounted held out holders) {other : Nat} (hget : holders[index]? = some holder)
    (hother : holders[other]? = some holder') (hne : index ≠ other) : (held holder).Disjoint (held holder') := by
  obtain ⟨hlt, rfl⟩ := List.getElem?_eq_some_iff.mp hget
  obtain ⟨hlt', rfl⟩ := List.getElem?_eq_some_iff.mp hother
  have hpairs := List.pairwise_iff_getElem.mp (List.nodup_flatMap.mp h.nodup).2
  rcases Nat.lt_or_gt_of_ne hne with hlt₁ | hlt₁
  · exact hpairs index other hlt hlt' hlt₁
  · exact (hpairs other index hlt' hlt hlt₁).symm

end holdings

import Mathlib.Data.List.AList

/-! Maps from keys to values, and how many of the values have a property. -/

namespace tally

variable {κ α : Type} {map : AList fun _ : κ => α} {key : κ} {value : α}

/-- The values with the property. -/
def count (p : α → Bool) (map : AList fun _ : κ => α) : Nat := map.entries.countP fun entry => p entry.2

/-- One for a value with the property. -/
def one (p : α → Bool) (value : Option α) : Nat := (value.elim false p).toNat

theorem count_le (p : α → Bool) : count p map ≤ map.entries.length := List.countP_le_length

variable [DecidableEq κ]

theorem count_erase (p : α → Bool) : count p (map.erase key) + one p (map.lookup key) = count p map := by
  by_cases hkey : key ∈ map
  · obtain ⟨old, before, after, hbefore, hentries, herased⟩ := List.exists_of_kerase hkey
    have hlookup : map.lookup key = some old := by
      apply AList.mem_lookup_iff.mpr
      rw [hentries]
      exact List.mem_append_right _ List.mem_cons_self
    have hcount : count p (map.erase key) = (before ++ after).countP fun entry => p entry.2 :=
      congrArg (List.countP _) herased
    rw [hcount, count, hentries, hlookup]
    simp only [one, Option.elim_some, List.countP_append, List.countP_cons]
    cases p old <;> simp
    omega
  · have hlookup : map.lookup key = none := AList.lookup_eq_none.mpr hkey
    have herase : map.erase key = map := by
      apply AList.ext
      exact List.kerase_of_notMem_keys hkey
    rw [herase, hlookup]
    rfl

theorem count_insert (p : α → Bool) :
    count p (map.insert key value) = count p (map.erase key) + one p (some value) := by
  have hentries : (map.insert key value).entries = ⟨key, value⟩ :: (map.erase key).entries := rfl
  rw [count, hentries, List.countP_cons]
  cases hp : p value <;> simp [one, hp, count]

end tally

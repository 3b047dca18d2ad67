import Mathlib.Algebra.GroupWithZero.Nat
import Mathlib.Data.List.GetD

namespace slices

section
variable {α β : Type}

/-- Consecutive runs of `n` elements, the last one possibly shorter. -/
def chunks (n : Nat) (xs : List α) : List (List α) :=
  (List.range ((xs.length + n - 1) / n)).map fun i => (xs.drop (i * n)).take n

/-- The list cut or filled up with `fill` to the length `n`. -/
def resize (xs : List α) (n : Nat) (fill : α) : List α :=
  xs.take n ++ List.replicate (n - xs.length) fill

variable {n : Nat}

theorem lt_div_ceil_iff {i len : Nat} (hn : 0 < n) : i < (len + n - 1) / n ↔ i * n < len := by
  rw [Nat.lt_iff_add_one_le, Nat.le_div_iff_mul_le hn, Nat.add_mul, Nat.one_mul]
  omega

theorem div_ceil_le_iff {k len : Nat} (hn : 0 < n) : (len + n - 1) / n ≤ k ↔ len ≤ k * n := by
  rw [← Nat.not_lt, lt_div_ceil_iff hn, Nat.not_lt]

/-- The lengths of the first runs of a list add up to their common length. -/
theorem sum_run_lengths (n len count : Nat) :
    ((List.range count).map fun i => min (len - i * n) n).sum = min len (count * n) := by
  induction count with
  | zero => simp
  | succ count ih =>
    rw [List.range_succ, List.map_append, List.sum_append, ih, List.map_singleton, List.sum_singleton, Nat.succ_mul]
    omega

/-- A list read off at its own indices. -/
theorem filterMap_getElem?_range (xs : List α) : (List.range xs.length).filterMap (fun i => xs[i]?) = xs := by
  induction xs with
  | nil => rfl
  | cons x xs ih =>
    rw [List.length_cons, List.range_succ_eq_map, List.filterMap_cons, List.filterMap_map]
    exact congrArg (x :: ·) ih

theorem length_chunks (n : Nat) (xs : List α) : (chunks n xs).length = (xs.length + n - 1) / n := by
  simp [chunks]

theorem mem_chunks {xs run : List α} (hn : 0 < n) (h : run ∈ chunks n xs) : run ≠ [] ∧ run.length ≤ n := by
  simp only [chunks, List.mem_map, List.mem_range, lt_div_ceil_iff hn] at h
  obtain ⟨i, hi, rfl⟩ := h
  refine ⟨?_, List.length_take_le _ _⟩
  rw [← List.length_pos_iff, List.length_take, List.length_drop]
  omega

/-- Looking up the image of a run, past the last of which there is the default. -/
theorem getD_map_chunks (f : List α → β) (hn : 0 < n) (xs : List α) (i : Nat) (fill : β) :
    ((chunks n xs).map f).getD i fill =
      if i * n < xs.length then f ((xs.drop (i * n)).take n) else fill := by
  split
  · rename_i hi
    have hrange := List.getElem?_range ((lt_div_ceil_iff hn).mpr hi)
    simp [chunks, List.getD_eq_getElem?_getD, hrange]
  · rename_i hi
    rw [List.getD_eq_default]
    rw [List.length_map, length_chunks, div_ceil_le_iff hn]
    omega

theorem chunks_nil (hn : 0 < n) : chunks n ([] : List α) = [] := by
  have hzero : ([] : List α).length + n - 1 < n := by
    rw [List.length_nil]
    omega
  rw [chunks, Nat.div_eq_of_lt hzero]
  rfl

theorem chunks_append (hn : 0 < n) {run : List α} (hrun : run.length = n) (rest : List α) :
    chunks n (run ++ rest) = run :: chunks n rest := by
  have hcount : ((run ++ rest).length + n - 1) / n = (rest.length + n - 1) / n + 1 := by
    have hlength : (run ++ rest).length + n - 1 = rest.length + n - 1 + n := by
      rw [List.length_append]
      omega
    rw [hlength, Nat.add_div_right _ hn]
  rw [chunks, hcount, List.range_succ_eq_map, List.map_cons, List.map_map]
  refine congrArg₂ List.cons ?_ (List.map_congr_left fun i _ => ?_)
  · rw [Nat.zero_mul, List.drop_zero, ← hrun, List.take_left]
  · have hdrop : (run ++ rest).drop ((i + 1) * n) = rest.drop (i * n) := by
      rw [Nat.succ_mul, Nat.add_comm, ← List.drop_drop, ← hrun, List.drop_left]
    simp only [Function.comp, hdrop]

/-- Cutting up a concatenation of runs of one length gives the runs back. -/
theorem chunks_flatMap_of_mem (hn : 0 < n) (f : β → List α) {xs : List β} (hf : ∀ x ∈ xs, (f x).length = n) :
    chunks n (xs.flatMap f) = xs.map f := by
  induction xs with
  | nil => exact chunks_nil hn
  | cons x xs ih =>
    obtain ⟨hx, hxs⟩ := List.forall_mem_cons.mp hf
    rw [List.flatMap_cons, chunks_append hn hx, ih hxs, List.map_cons]

theorem chunks_flatMap (hn : 0 < n) (f : β → List α) (hf : ∀ x, (f x).length = n) (xs : List β) :
    chunks n (xs.flatMap f) = xs.map f :=
  chunks_flatMap_of_mem hn f fun x _ => hf x

/-- Consecutive windows put together again. -/
theorem flatMap_windows (n : Nat) (xs : List α) (m : Nat) :
    (List.range m).flatMap (fun i => (xs.drop (i * n)).take n) = xs.take (m * n) := by
  induction m with
  | zero => simp
  | succ m ih => rw [List.range_succ, List.flatMap_append, ih, List.flatMap_singleton, Nat.succ_mul, List.take_add]

theorem flatten_chunks (hn : 0 < n) (xs : List α) : (chunks n xs).flatten = xs := by
  rw [chunks, ← List.flatMap_def, flatMap_windows]
  exact List.take_of_length_le ((div_ceil_le_iff hn).mp (Nat.le_refl _))

/-- If the length is a multiple, no run is shorter. -/
theorem length_of_mem_chunks {xs run : List α} (hn : 0 < n) (hdvd : n ∣ xs.length) (h : run ∈ chunks n xs) :
    run.length = n := by
  simp only [chunks, List.mem_map, List.mem_range, lt_div_ceil_iff hn] at h
  obtain ⟨i, hi, rfl⟩ := h
  obtain ⟨m, hm⟩ := hdvd
  have him : (i + 1) * n ≤ m * n := by
    apply Nat.mul_le_mul_right
    rw [hm, Nat.mul_comm i n] at hi
    exact Nat.lt_of_mul_lt_mul_left hi
  rw [Nat.add_mul, Nat.mul_comm m n, ← hm] at him
  rw [List.length_take, List.length_drop]
  omega

/-- Keeping the elements whose position in a longer list is below a bound. -/
theorem filter_zipIdx_lt (xs : List α) (start i bound : Nat) :
    ((xs.zipIdx i).filter fun entry => start + entry.2 < bound).map Prod.fst = xs.take (bound - (start + i)) := by
  induction xs generalizing i with
  | nil => simp
  | cons x xs ih =>
    rw [List.zipIdx_cons]
    by_cases hlt : start + i < bound
    · obtain ⟨k, hk⟩ : ∃ k, bound - (start + i) = k + 1 := ⟨bound - (start + i) - 1, by omega⟩
      have hnext : bound - (start + (i + 1)) = k := by omega
      rw [List.filter_cons_of_pos (by simpa using hlt), List.map_cons, ih, hk, hnext, List.take_succ_cons]
    · have hnext : bound - (start + (i + 1)) = 0 := by omega
      have hnow : bound - (start + i) = 0 := by omega
      rw [List.filter_cons_of_neg (by simpa using hlt), ih, hnext, hnow, List.take_zero, List.take_zero]

theorem length_resize {xs : List α} (h : xs.length ≤ n) (fill : α) : (resize xs n fill).length = n := by
  simp only [resize, List.length_append, List.length_take, List.length_replicate]
  omega

theorem getElem?_resize {xs : List α} {i : Nat} (h : xs.length ≤ n) (hi : i < xs.length) (fill : α) :
    (resize xs n fill)[i]? = xs[i]? := by
  rw [resize, List.take_of_length_le h, List.getElem?_append_left hi]

/-- Filling up is invisible to lookups that default to the fill. -/
theorem getD_resize {xs : List α} (h : xs.length ≤ n) (fill : α) (i : Nat) :
    (resize xs n fill).getD i fill = xs.getD i fill := by
  rw [resize, List.take_of_length_le h]
  by_cases hi : i < xs.length
  · rw [List.getD_append _ _ _ _ hi]
  · rw [List.getD_append_right _ _ _ _ (by omega), List.getD_eq_default xs fill (by omega)]
    by_cases hfill : i - xs.length < n - xs.length
    · exact List.getD_replicate fill hfill
    · exact List.getD_eq_default _ _ (by rw [List.length_replicate]; omega)

end

end slices

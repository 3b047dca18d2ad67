import Mathlib.Data.List.Induction
import Mathlib.Tactic.Ring

/-! Multiples and powers, bit by bit: doubling and adding from the lowest bit up, squaring and multiplying from the
highest bit down. The operations need to be right only on the values that occur. -/

namespace ladder

/-- The number of bits with the lowest one first. -/
def lsb : List Bool → Nat
  | [] => 0
  | bit :: bits => bit.toNat + 2 * lsb bits

/-- The number of bits with the highest one first. -/
def msb (bits : List Bool) : Nat := bits.foldl (fun n bit => 2 * n + bit.toNat) 0

/-- One bit of a multiple: the sum so far and the power of two that is due. -/
def add_step {α : Type} (add : α → α → α) (state : α × α) (bit : Bool) : α × α :=
  (if bit then add state.1 state.2 else state.1, add state.2 state.2)

/-- One bit of a power. -/
def mul_step {α : Type} (mul : α → α → α) (base result : α) (bit : Bool) : α :=
  let square := mul result result
  if bit then mul square base else square

theorem lsb_append (front rest : List Bool) : lsb (front ++ rest) = lsb front + 2 ^ front.length * lsb rest := by
  induction front with
  | nil => simp [lsb]
  | cons bit front ih =>
    rw [List.cons_append, lsb, lsb, ih, List.length_cons, Nat.pow_succ]
    ring

/-- The low bits of a number. -/
theorem lsb_testBit (n count : Nat) : lsb ((List.range count).map n.testBit) = n % 2 ^ count := by
  induction count with
  | zero => simp [lsb, Nat.mod_one]
  | succ count ih =>
    rw [List.range_succ, List.map_append, lsb_append, ih, List.length_map, List.length_range, List.map_singleton,
      lsb, lsb,
      Nat.mul_zero, Nat.add_zero, Nat.mod_pow_succ, Nat.toNat_testBit]

theorem msb_append_singleton (bits : List Bool) (bit : Bool) : msb (bits ++ [bit]) = 2 * msb bits + bit.toNat := by
  simp [msb]

theorem msb_reverse (bits : List Bool) : msb bits.reverse = lsb bits := by
  induction bits with
  | nil => rfl
  | cons bit bits ih => rw [List.reverse_cons, msb_append_singleton, ih, lsb, Nat.add_comm]

theorem msb_append (front rest : List Bool) : msb (front ++ rest) = 2 ^ rest.length * msb front + msb rest := by
  induction rest using List.reverseRecOn with
  | nil => simp [msb]
  | append_singleton rest bit ih =>
    rw [← List.append_assoc, msb_append_singleton, msb_append_singleton, ih, List.length_append, List.length_singleton,
      Nat.pow_succ]
    ring

section
variable {α M : Type} {valid : α → Prop} {f : α → M}

/-- Doubling and adding. -/
theorem add_spec [AddCommMonoid M] {add : α → α → α}
    (hadd : ∀ a b, valid a → valid b → valid (add a b) ∧ f (add a b) = f a + f b) (bits : List Bool) {state : α × α}
    (hresult : valid state.1) (haddend : valid state.2) :
    valid (bits.foldl (add_step add) state).1 ∧
      f (bits.foldl (add_step add) state).1 = f state.1 + lsb bits • f state.2 := by
  induction bits generalizing state with
  | nil => simp [lsb, hresult]
  | cons bit bits ih =>
    obtain ⟨hdouble, hdouble'⟩ := hadd _ _ haddend haddend
    obtain ⟨hsum, hsum'⟩ := hadd _ _ hresult haddend
    have hnext : valid (add_step add state bit).1 := by
      rw [add_step]
      split
      · exact hsum
      · exact hresult
    obtain ⟨hvalid, hvalue⟩ := ih hnext hdouble
    refine ⟨hvalid, ?_⟩
    rw [List.foldl_cons, hvalue, lsb]
    have htwice : lsb bits • f (add_step add state bit).2 = (2 * lsb bits) • f state.2 := by
      rw [add_step, hdouble', ← two_nsmul, ← mul_nsmul]
    rw [htwice, add_step]
    cases bit with
    | true => rw [if_pos rfl, hsum', Bool.toNat_true, add_nsmul, one_nsmul, add_assoc]
    | false => rw [if_neg (by decide), Bool.toNat_false, Nat.zero_add]

/-- Squaring and multiplying. -/
theorem mul_spec [CommMonoid M] {mul : α → α → α}
    (hmul : ∀ a b, valid a → valid b → valid (mul a b) ∧ f (mul a b) = f a * f b) {base : α} (hbase : valid base)
    (bits : List Bool) {result : α} (hresult : valid result) :
    valid (bits.foldl (mul_step mul base) result) ∧
      f (bits.foldl (mul_step mul base) result) = f result ^ 2 ^ bits.length * f base ^ msb bits := by
  induction bits using List.reverseRecOn with
  | nil => simp [msb, hresult]
  | append_singleton bits bit ih =>
    obtain ⟨hvalid, hvalue⟩ := ih
    obtain ⟨hsquare, hsquare'⟩ := hmul _ _ hvalid hvalid
    obtain ⟨hproduct, hproduct'⟩ := hmul _ _ hsquare hbase
    have hpower : f (mul (bits.foldl (mul_step mul base) result) (bits.foldl (mul_step mul base) result)) =
        f result ^ 2 ^ (bits.length + 1) * f base ^ (2 * msb bits) := by
      rw [hsquare', hvalue, ← sq, mul_pow, ← pow_mul, ← pow_mul, Nat.pow_succ, Nat.mul_comm (msb bits)]
    rw [List.foldl_append, List.foldl_cons, List.foldl_nil, mul_step, List.length_append, List.length_singleton,
      msb_append_singleton]
    cases bit with
    | true =>
      refine ⟨by simpa using hproduct, ?_⟩
      rw [if_pos rfl, hproduct', hpower, Bool.toNat_true, pow_succ (f base), mul_assoc]
    | false =>
      refine ⟨by simpa using hsquare, ?_⟩
      rw [if_neg (by decide), hpower]
      rfl

end

end ladder

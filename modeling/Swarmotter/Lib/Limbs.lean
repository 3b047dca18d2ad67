import Swarmotter.Lib.Ladder

/-! Unsigned numbers as 64-bit limbs, the least significant one first. -/

namespace limbs

def value : List UInt64 → Nat
  | [] => 0
  | limb :: rest => limb.toNat + 2 ^ 64 * value rest

/-- The wrapped sum and whether it wrapped. -/
def overflowing_add (a b : UInt64) : UInt64 × Bool := (a + b, decide (2 ^ 64 ≤ a.toNat + b.toNat))

/-- The wrapped difference and whether it wrapped. -/
def overflowing_sub (a b : UInt64) : UInt64 × Bool := (a - b, decide (a < b))

/-- One column of an addition. -/
def add_limb (a b : UInt64) (carry : Bool) : UInt64 × Bool :=
  let (sum1, c1) := overflowing_add a b
  let (sum2, c2) := overflowing_add sum1 carry.toUInt64
  (sum2, c1 || c2)

/-- One column of a subtraction. -/
def sub_limb (a b : UInt64) (borrow : Bool) : UInt64 × Bool :=
  let (sub1, b1) := overflowing_sub a b
  let (sub2, b2) := overflowing_sub sub1 borrow.toUInt64
  (sub2, b1 || b2)

/-- Column by column, from a column operation and what is carried into the first one. -/
def columns (column : UInt64 → UInt64 → Bool → UInt64 × Bool) :
    Bool → List UInt64 → List UInt64 → List UInt64 × Bool
  | carry, a :: left, b :: right =>
    let (limb, carry) := column a b carry
    let (rest, carry) := columns column carry left right
    (limb :: rest, carry)
  | carry, _, _ => ([], carry)

/-- Compare from the most significant limb down. -/
def cmp : List UInt64 → List UInt64 → Ordering
  | a :: left, b :: right => (cmp left right).then (compare a b)
  | _, _ => .eq

/-- The bits, the least significant one first. -/
def bits (number : List UInt64) : List Bool :=
  number.flatMap fun limb => (List.range 64).map fun bit => (limb >>> UInt64.ofNat bit) &&& 1 = 1

section
variable {left right : List UInt64} {carry : Bool}

theorem value_lt (number : List UInt64) : value number < 2 ^ (64 * number.length) := by
  induction number with
  | nil => decide
  | cons limb rest ih =>
    have hlimb := limb.toNat_lt
    have hpow : 2 ^ (64 * (limb :: rest).length) = 2 ^ 64 * 2 ^ (64 * rest.length) := by
      rw [List.length_cons, Nat.mul_succ, Nat.pow_add, Nat.mul_comm]
    rw [value, hpow]
    have hstep : 2 ^ 64 * (value rest + 1) ≤ 2 ^ 64 * 2 ^ (64 * rest.length) := Nat.mul_le_mul_left _ ih
    omega

theorem value_inj (hlength : left.length = right.length) (h : value left = value right) : left = right := by
  induction left generalizing right with
  | nil => exact (List.eq_nil_of_length_eq_zero hlength.symm).symm
  | cons a left ih =>
    cases right with
    | nil => cases hlength
    | cons b right =>
      have ha := a.toNat_lt
      have hb := b.toNat_lt
      simp only [value] at h
      have hlimb : a.toNat = b.toNat := by omega
      have hrest : value left = value right := by omega
      rw [UInt64.toNat_inj.mp hlimb, ih (Nat.succ.inj hlength) hrest]

theorem toNat_toUInt64 (carry : Bool) : carry.toUInt64.toNat = carry.toNat := by
  cases carry <;> rfl

/-- A column of an addition is exact. -/
theorem add_limb_value (a b : UInt64) (carry : Bool) :
    (add_limb a b carry).1.toNat + 2 ^ 64 * (add_limb a b carry).2.toNat = a.toNat + b.toNat + carry.toNat := by
  have ha := a.toNat_lt
  have hb := b.toNat_lt
  have hcarry := carry.toNat_lt
  simp only [add_limb, overflowing_add, UInt64.toNat_add, toNat_toUInt64]
  -- at most one of the two additions wraps
  by_cases hfirst : 2 ^ 64 ≤ a.toNat + b.toNat
  all_goals by_cases hsecond : 2 ^ 64 ≤ (a.toNat + b.toNat) % 2 ^ 64 + carry.toNat
  all_goals simp only [hfirst, hsecond, decide_true, decide_false, Bool.or_true, Bool.or_false, Bool.toNat_true,
    Bool.toNat_false]
  all_goals omega

/-- A column of a subtraction is exact. -/
theorem sub_limb_value (a b : UInt64) (borrow : Bool) :
    (sub_limb a b borrow).1.toNat + b.toNat + borrow.toNat = a.toNat + 2 ^ 64 * (sub_limb a b borrow).2.toNat := by
  have ha := a.toNat_lt
  have hb := b.toNat_lt
  have hborrow := borrow.toNat_lt
  simp only [sub_limb, overflowing_sub, UInt64.toNat_sub, toNat_toUInt64, UInt64.lt_iff_toNat_lt]
  by_cases hfirst : a.toNat < b.toNat
  all_goals by_cases hsecond : (2 ^ 64 - b.toNat + a.toNat) % 2 ^ 64 < borrow.toNat
  all_goals simp only [hfirst, hsecond, decide_true, decide_false, Bool.or_true, Bool.or_false, Bool.toNat_true,
    Bool.toNat_false]
  all_goals omega

theorem length_columns (column : UInt64 → UInt64 → Bool → UInt64 × Bool) (carry : Bool)
    (hlength : left.length = right.length) : (columns column carry left right).1.length = left.length := by
  induction left generalizing right carry with
  | nil => rfl
  | cons a left ih =>
    cases right with
    | nil => cases hlength
    | cons b right => rw [columns, List.length_cons, ih _ (Nat.succ.inj hlength), List.length_cons]

theorem two_pow_length_cons (a : UInt64) : 2 ^ (64 * (a :: left).length) = 2 ^ 64 * 2 ^ (64 * left.length) := by
  rw [List.length_cons, Nat.mul_succ, Nat.pow_add, Nat.mul_comm]

/-- A sum with its carry is exact. -/
theorem value_add (carry : Bool) (hlength : left.length = right.length) :
    value (columns add_limb carry left right).1 +
        2 ^ (64 * left.length) * (columns add_limb carry left right).2.toNat =
      value left + value right + carry.toNat := by
  induction left generalizing right carry with
  | nil =>
    rw [List.eq_nil_of_length_eq_zero hlength.symm]
    simp [columns, value]
  | cons a left ih =>
    cases right with
    | nil => cases hlength
    | cons b right =>
      have hcolumn := add_limb_value a b carry
      have hrest := ih (add_limb a b carry).2 (Nat.succ.inj hlength)
      simp only [columns, value, two_pow_length_cons, Nat.mul_assoc]
      omega

/-- A difference with its borrow is exact. -/
theorem value_sub (borrow : Bool) (hlength : left.length = right.length) :
    value (columns sub_limb borrow left right).1 + value right + borrow.toNat =
      value left + 2 ^ (64 * left.length) * (columns sub_limb borrow left right).2.toNat := by
  induction left generalizing right borrow with
  | nil =>
    rw [List.eq_nil_of_length_eq_zero hlength.symm]
    simp [columns, value]
  | cons a left ih =>
    cases right with
    | nil => cases hlength
    | cons b right =>
      have hcolumn := sub_limb_value a b borrow
      have hrest := ih (sub_limb a b borrow).2 (Nat.succ.inj hlength)
      simp only [columns, value, two_pow_length_cons, Nat.mul_assoc]
      omega

theorem compare_limb (a b : UInt64) : compare a b = compare a.toNat b.toNat := by
  have hlimb : compare a b = if a.toNat < b.toNat then .lt else if a.toNat = b.toNat then .eq else .gt := by
    simp only [compare, compareOfLessAndEq, UInt64.lt_iff_toNat_lt, ← UInt64.toNat_inj]
  rw [hlimb]
  rcases Nat.lt_trichotomy a.toNat b.toNat with hless | hsame | hmore
  · rw [if_pos hless, Nat.compare_eq_lt.mpr hless]
  · rw [if_neg (by omega), if_pos hsame, Nat.compare_eq_eq.mpr hsame]
  · rw [if_neg (by omega), if_neg (by omega), Nat.compare_eq_gt.mpr hmore]

/-- Limbs compare as the numbers they are. -/
theorem cmp_eq (hlength : left.length = right.length) : cmp left right = compare (value left) (value right) := by
  induction left generalizing right with
  | nil =>
    rw [List.eq_nil_of_length_eq_zero hlength.symm]
    rfl
  | cons a left ih =>
    cases right with
    | nil => cases hlength
    | cons b right =>
      have ha := a.toNat_lt
      have hb := b.toNat_lt
      rw [cmp, ih (Nat.succ.inj hlength), compare_limb, value, value]
      rcases Nat.lt_trichotomy (value left) (value right) with hless | hsame | hmore
      · have hwhole : a.toNat + 2 ^ 64 * value left < b.toNat + 2 ^ 64 * value right := by omega
        rw [Nat.compare_eq_lt.mpr hless, Nat.compare_eq_lt.mpr hwhole]
        rfl
      · rw [hsame, Nat.compare_eq_eq.mpr rfl]
        rcases Nat.lt_trichotomy a.toNat b.toNat with hless | hsame | hmore
        · rw [Nat.compare_eq_lt.mpr hless, Nat.compare_eq_lt.mpr (Nat.add_lt_add_right hless _)]
          rfl
        · rw [hsame, Nat.compare_eq_eq.mpr rfl, Nat.compare_eq_eq.mpr rfl]
          rfl
        · rw [Nat.compare_eq_gt.mpr hmore, Nat.compare_eq_gt.mpr (Nat.add_lt_add_right hmore _)]
          rfl
      · have hwhole : b.toNat + 2 ^ 64 * value right < a.toNat + 2 ^ 64 * value left := by omega
        rw [Nat.compare_eq_gt.mpr hmore, Nat.compare_eq_gt.mpr hwhole]
        rfl

theorem limb_bit (limb : UInt64) {bit : Nat} (hbit : bit < 64) :
    decide ((limb >>> UInt64.ofNat bit) &&& 1 = 1) = limb.toNat.testBit bit := by
  rw [Nat.testBit_eq_decide_div_mod_eq, decide_eq_decide, ← UInt64.toNat_inj, UInt64.toNat_and, UInt64.toNat_shiftRight,
    UInt64.toNat_ofNat_of_lt' (Nat.lt_trans hbit (by decide)), Nat.mod_eq_of_lt hbit, Nat.shiftRight_eq_div_pow]
  exact (Nat.and_one_is_mod _).symm ▸ Iff.rfl

/-- The bits of limbs make up the number. -/
theorem lsb_bits (number : List UInt64) : ladder.lsb (bits number) = value number := by
  induction number with
  | nil => rfl
  | cons limb rest ih =>
    have hlimb : ((List.range 64).map fun bit => decide ((limb >>> UInt64.ofNat bit) &&& 1 = 1)) =
        (List.range 64).map limb.toNat.testBit := by
      apply List.map_congr_left
      intro bit hbit
      exact limb_bit limb (List.mem_range.mp hbit)
    rw [bits, List.flatMap_cons, ← bits, hlimb, ladder.lsb_append, ladder.lsb_testBit, ih, value, List.length_map,
      List.length_range, Nat.mod_eq_of_lt limb.toNat_lt]

end

end limbs

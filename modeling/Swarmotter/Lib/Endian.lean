import Mathlib.Tactic.Ring

/-! Fixed-width integers as bytes, the most significant first (`be`) or last (`le`). -/

namespace endian

/-- The low `width` bytes of a number, the most significant first. -/
def to_be : Nat → Nat → List UInt8
  | 0, _ => []
  | width + 1, n => UInt8.ofNat (n / 256 ^ width) :: to_be width n

def from_be : List UInt8 → Nat
  | [] => 0
  | byte :: rest => byte.toNat * 256 ^ rest.length + from_be rest

def to_le (width n : Nat) : List UInt8 := (to_be width n).reverse

def from_le (bytes : List UInt8) : Nat := from_be bytes.reverse

@[simp] theorem length_to_be (width n : Nat) : (to_be width n).length = width := by
  induction width with
  | zero => rfl
  | succ width ih => simp [to_be, ih]

@[simp] theorem length_to_le (width n : Nat) : (to_le width n).length = width := by
  simp [to_le]

/-- Reading back what was written loses what does not fit. -/
theorem from_be_to_be (width n : Nat) : from_be (to_be width n) = n % 256 ^ width := by
  induction width with
  | zero => simp [to_be, from_be, Nat.mod_one]
  | succ width ih =>
    rw [to_be, from_be, length_to_be, ih, Nat.mod_pow_succ, UInt8.toNat_ofNat']
    ring

/-- Two bytes of a port. -/
@[simp] theorem u16_of_be (n : UInt16) : UInt16.ofNat (from_be (to_be 2 n.toNat)) = n := by
  rw [from_be_to_be, Nat.mod_eq_of_lt (by simpa using n.toNat_lt), UInt16.ofNat_toNat]

theorem from_be_lt (bytes : List UInt8) : from_be bytes < 256 ^ bytes.length := by
  induction bytes with
  | nil => simp [from_be]
  | cons byte rest ih =>
    have hbyte := byte.toNat_lt
    have hmul : byte.toNat * 256 ^ rest.length ≤ 255 * 256 ^ rest.length := Nat.mul_le_mul_right _ (by omega)
    rw [from_be, List.length_cons, Nat.pow_succ]
    omega

/-- Only the low bytes are written. -/
theorem to_be_mod (width n : Nat) : to_be width (n % 256 ^ width) = to_be width n := by
  induction width generalizing n with
  | zero => rfl
  | succ width ih =>
    have hbyte : n % 256 ^ (width + 1) / 256 ^ width = n / 256 ^ width % 256 := by
      rw [Nat.pow_succ, Nat.mod_mul_right_div_self]
    have hrest : n % 256 ^ (width + 1) % 256 ^ width = n % 256 ^ width := by
      rw [Nat.pow_succ, Nat.mod_mul_right_mod]
    rw [to_be, to_be, hbyte, ← ih (n % 256 ^ (width + 1)), hrest, ih]
    congr 1
    exact UInt8.toNat_inj.mp (by simp)

/-- Writing back what was read. -/
theorem to_be_from_be (bytes : List UInt8) : to_be bytes.length (from_be bytes) = bytes := by
  induction bytes with
  | nil => rfl
  | cons byte rest ih =>
    have hlt := from_be_lt rest
    have hpos : 0 < 256 ^ rest.length := Nat.pow_pos (by decide)
    have hbyte : (byte.toNat * 256 ^ rest.length + from_be rest) / 256 ^ rest.length = byte.toNat := by
      rw [Nat.mul_comm, Nat.mul_add_div hpos, Nat.div_eq_of_lt hlt, Nat.add_zero]
    have hrest : (byte.toNat * 256 ^ rest.length + from_be rest) % 256 ^ rest.length = from_be rest := by
      rw [Nat.mul_comm, Nat.mul_add_mod, Nat.mod_eq_of_lt hlt]
    rw [List.length_cons, to_be, from_be, hbyte, ← to_be_mod, hrest, ih, UInt8.ofNat_toNat]

end endian

import Swarmotter.Bytes
import Swarmotter.Lib.Endian
import Swarmotter.Lib.Limbs
import Swarmotter.Lib.Slices
import Mathlib.Data.ZMod.Basic

open endian ladder

namespace swarmotter.mse

/-- A number of 768 bits. -/
structure Big768 where
  limbs : List UInt64
  length_eq : limbs.length = 12
  deriving DecidableEq, Repr

namespace Big768

def from_u64 (n : UInt64) : Big768 := ⟨n :: List.replicate 11 0, rfl⟩

def one : Big768 := from_u64 1

/-- A limb from every eight bytes, the last eight first. -/
def from_be_bytes (bytes : Vector UInt8 96) : Big768 where
  limbs := (slices.chunks 8 bytes.toList).reverse.map fun chunk => UInt64.ofNat (from_be chunk)
  length_eq := by
    rw [List.length_map, List.length_reverse, slices.length_chunks, Vector.length_toList]

def be_bytes (number : Big768) : Bytes := number.limbs.reverse.flatMap fun limb => to_be 8 limb.toNat

theorem length_be_bytes (number : Big768) : number.be_bytes.length = 96 := by
  have hlength := number.length_eq
  simp only [be_bytes, List.length_flatMap, length_to_be, List.map_const', List.length_reverse, hlength]
  rfl

def to_be_bytes (number : Big768) : Vector UInt8 96 := ⟨number.be_bytes.toArray, number.length_be_bytes⟩

/-- `Ord::cmp`. -/
def cmp (left right : Big768) : Ordering := limbs.cmp left.limbs right.limbs

/-- `wrapping_sub`. -/
def wrapping_sub (left right : Big768) : Big768 where
  limbs := (limbs.columns limbs.sub_limb false left.limbs right.limbs).1
  length_eq := (limbs.length_columns _ _ (left.length_eq.trans right.length_eq.symm)).trans left.length_eq

end Big768

def DH_GENERATOR : Big768 := Big768.from_u64 2

def DH_PRIME : Big768 where
  limbs := [0xffffffffffffffff, 0xf44c42e9a63a3620, 0xe485b576625e7ec6, 0x4fe1356d6d51c245, 0x302b0a6df25f1437,
    0xef9519b3cd3a431b, 0x514a08798e3404dd, 0x020bbea63b139b22, 0x29024e088a67cc74, 0xc4c6628b80dc1cd1,
    0xc90fdaa22168c234, 0xffffffffffffffff]
  length_eq := rfl

namespace Big768

theorem from_be_bytes_to_be_bytes (number : Big768) : from_be_bytes number.to_be_bytes = number := by
  obtain ⟨limbs, hlength⟩ := number
  have hlimbs : (slices.chunks 8 (be_bytes ⟨limbs, hlength⟩)).reverse.map
      (fun chunk => UInt64.ofNat (from_be chunk)) = limbs := by
    rw [be_bytes, slices.chunks_flatMap (by decide) (fun limb : UInt64 => to_be 8 limb.toNat) fun limb =>
      length_to_be 8 limb.toNat, ← List.map_reverse, List.reverse_reverse, List.map_map]
    conv_rhs => rw [← List.map_id limbs]
    apply List.map_congr_left
    intro limb _
    have hlimb := limb.toNat_lt
    rw [Function.comp_apply, from_be_to_be, Nat.mod_eq_of_lt (by omega), UInt64.ofNat_toNat]
    rfl
  have hbytes : (to_be_bytes ⟨limbs, hlength⟩).toList = be_bytes ⟨limbs, hlength⟩ := rfl
  simp only [from_be_bytes, hbytes, hlimbs]

/-- The sum, less the prime where it is not below it. -/
def add_mod (left right : Big768) : Big768 :=
  let sum := limbs.columns limbs.add_limb false left.limbs right.limbs
  let result : Big768 :=
    ⟨sum.1, (limbs.length_columns _ _ (left.length_eq.trans right.length_eq.symm)).trans left.length_eq⟩
  if sum.2 || result.cmp DH_PRIME ≠ .lt then result.wrapping_sub DH_PRIME else result

def double_mod (number : Big768) : Big768 := number.add_mod number

/-- Double and add over the bits of the right factor. -/
def mul_mod (left right : Big768) : Big768 :=
  (right.limbs.foldl (fun state limb =>
    (List.range 64).foldl (fun (result, addend) bit =>
      (if (limb >>> UInt64.ofNat bit) &&& 1 = 1 then result.add_mod addend else result, addend.double_mod)) state)
    (from_u64 0, left)).1

/-- Square and multiply over the bits of the exponent. -/
def mod_pow (base : Big768) (exponent : Vector UInt8 20) : Big768 :=
  exponent.toList.foldl (fun result byte =>
    (List.range 8).reverse.foldl (fun result bit =>
      let result := result.mul_mod result
      if (byte >>> UInt8.ofNat bit) &&& 1 = 1 then result.mul_mod base else result) result) one

end Big768

/-- The shared secret with a peer's public key, which must not be trivial. -/
def dh_secret (peer_public : Vector UInt8 96) (exponent : Vector UInt8 20) : Result Big768 := do
  let peer := Big768.from_be_bytes peer_public
  let _ ← reject_if (peer.cmp Big768.one ≠ .gt ∨ peer.cmp DH_PRIME ≠ .lt)
    (.Internal "MSE peer public key out of range")
  pure (peer.mod_pow exponent)

namespace Big768

def value (number : Big768) : Nat := limbs.value number.limbs

/-- The modulus as a number. -/
def prime : Nat := DH_PRIME.value

/-- One more than the largest number. -/
def size : Nat := 2 ^ (64 * 12)

theorem prime_bounds : prime < size ∧ size < 2 * prime ∧ 4 < prime ∧ prime % 2 = 1 := by decide +kernel

theorem four_lt_prime : 4 < prime := prime_bounds.2.2.1

theorem value_lt (number : Big768) : number.value < size := by
  have hlt := limbs.value_lt number.limbs
  rw [number.length_eq] at hlt
  exact hlt

theorem value_injective {left right : Big768} (h : left.value = right.value) : left = right := by
  obtain ⟨left, hleft⟩ := left
  obtain ⟨right, hright⟩ := right
  have hlimbs : left = right := limbs.value_inj (hleft.trans hright.symm) h
  subst hlimbs
  rfl

theorem cmp_eq (left right : Big768) : left.cmp right = compare left.value right.value :=
  limbs.cmp_eq (left.length_eq.trans right.length_eq.symm)

theorem value_from_u64 (n : UInt64) : (from_u64 n).value = n.toNat := by
  change n.toNat + 2 ^ 64 * limbs.value (List.replicate 11 0) = n.toNat
  rw [show limbs.value (List.replicate 11 0) = 0 from rfl, Nat.mul_zero, Nat.add_zero]

/-- A difference that may wrap. -/
theorem value_wrapping_sub (left right : Big768) :
    ∃ borrow : Bool, (left.wrapping_sub right).value + right.value = left.value + size * borrow.toNat := by
  have hsub := limbs.value_sub false (left.length_eq.trans right.length_eq.symm)
  rw [left.length_eq] at hsub
  exact ⟨_, hsub⟩

theorem cmp_prime_iff (number : Big768) : number.cmp DH_PRIME ≠ .lt ↔ prime ≤ number.value := by
  rw [cmp_eq, ne_eq, Nat.compare_eq_lt, Nat.not_lt]
  rfl

/-- A sum of residues is reduced at most once. -/
theorem value_add_mod {left right : Big768} (hleft : left.value < prime) (hright : right.value < prime) :
    (left.add_mod right).value = (left.value + right.value) % prime := by
  obtain ⟨hlow, hhigh, -⟩ := prime_bounds
  have hadd := limbs.value_add false (left.length_eq.trans right.length_eq.symm)
  rw [left.length_eq, Bool.toNat_false, Nat.add_zero] at hadd
  rw [add_mod]
  set result : Big768 := ⟨(limbs.columns limbs.add_limb false left.limbs right.limbs).1,
    (limbs.length_columns _ _ (left.length_eq.trans right.length_eq.symm)).trans left.length_eq⟩
  set carry := (limbs.columns limbs.add_limb false left.limbs right.limbs).2
  have hsum : result.value + size * carry.toNat = left.value + right.value := hadd
  have hresult := result.value_lt
  split
  · rename_i hreduce
    rw [Bool.or_eq_true, decide_eq_true_eq, cmp_prime_iff] at hreduce
    obtain ⟨borrow, hsub⟩ := result.value_wrapping_sub DH_PRIME
    change _ + prime = _ at hsub
    have hwrapped := (result.wrapping_sub DH_PRIME).value_lt
    -- the carry out of the sum and the borrow out of the difference cancel
    have hexact : (result.wrapping_sub DH_PRIME).value = left.value + right.value - prime := by
      cases hcarry : carry <;> cases borrow <;>
        simp only [hcarry, Bool.toNat_false, Bool.toNat_true] at hsum hsub hreduce
      · omega
      · simp only [Bool.false_eq_true, false_or] at hreduce
        omega
      · omega
      · omega
    have hle : prime ≤ left.value + right.value := by
      rcases hreduce with hcarry | hle
      · rw [hcarry, Bool.toNat_true] at hsum
        omega
      · omega
    rw [hexact, Nat.mod_eq_sub_mod hle, Nat.mod_eq_of_lt (by omega)]
  · rename_i hsmall
    rw [Bool.or_eq_true, decide_eq_true_eq, cmp_prime_iff, not_or, Bool.not_eq_true] at hsmall
    rw [hsmall.1, Bool.toNat_false] at hsum
    rw [Nat.mod_eq_of_lt (by omega)]
    omega

/-- The residue class of a number. -/
def residue (number : Big768) : ZMod prime := (number.value : ZMod prime)

/-- A number below the prime is the remainder of every number in its class. -/
theorem value_eq_mod {number : Big768} {n : Nat} (hnumber : number.value < prime)
    (h : number.residue = (n : ZMod prime)) :
    number.value = n % prime := by
  rw [residue, ZMod.natCast_eq_natCast_iff, Nat.ModEq, Nat.mod_eq_of_lt hnumber] at h
  exact h

theorem add_mod_residue (left right : Big768) (hleft : left.value < prime) (hright : right.value < prime) :
    (left.add_mod right).value < prime ∧ (left.add_mod right).residue = left.residue + right.residue := by
  have hvalue := value_add_mod hleft hright
  have hpos : 0 < prime := Nat.lt_of_le_of_lt (Nat.zero_le _) hleft
  refine ⟨hvalue ▸ Nat.mod_lt _ hpos, ?_⟩
  rw [residue, hvalue, ZMod.natCast_mod, Nat.cast_add]
  rfl

/-- Multiplication is doubling and adding over the bits of the right factor. -/
theorem mul_mod_eq (left right : Big768) :
    left.mul_mod right = ((limbs.bits right.limbs).foldl (add_step add_mod) (from_u64 0, left)).1 := by
  rw [limbs.bits, List.foldl_flatMap, mul_mod]
  congr 2
  funext state limb
  rw [List.foldl_map]
  congr 1
  funext state bit
  simp only [add_step, decide_eq_true_eq, double_mod]

theorem mul_mod_residue (left right : Big768) (hleft : left.value < prime) :
    (left.mul_mod right).value < prime ∧ (left.mul_mod right).residue = left.residue * right.residue := by
  have hzero : (from_u64 0).value < prime := by
    rw [value_from_u64]
    exact Nat.lt_of_le_of_lt (Nat.zero_le _) hleft
  obtain ⟨hvalid, hvalue⟩ := add_spec add_mod_residue (limbs.bits right.limbs)
    (show (from_u64 0, left).1.value < prime from hzero) hleft
  rw [← mul_mod_eq] at hvalid hvalue
  refine ⟨hvalid, ?_⟩
  rw [hvalue, limbs.lsb_bits, nsmul_eq_mul, mul_comm]
  have hnone : (from_u64 0).residue = 0 := by
    rw [residue, value_from_u64]
    rfl
  rw [hnone, zero_add]
  rfl

theorem value_mul_mod {left : Big768} (hleft : left.value < prime) (right : Big768) :
    (left.mul_mod right).value = left.value * right.value % prime := by
  obtain ⟨hvalid, hresidue⟩ := mul_mod_residue left right hleft
  apply value_eq_mod hvalid
  rw [hresidue, Nat.cast_mul]
  rfl

/-- The bits of an exponent, the highest one first. -/
def exponent_bits (bytes : Bytes) : List Bool :=
  bytes.flatMap fun byte => (List.range 8).reverse.map fun bit => (byte >>> UInt8.ofNat bit) &&& 1 = 1

theorem byte_bit (byte : UInt8) {bit : Nat} (hbit : bit < 8) :
    decide ((byte >>> UInt8.ofNat bit) &&& 1 = 1) = byte.toNat.testBit bit := by
  rw [Nat.testBit_eq_decide_div_mod_eq, decide_eq_decide, ← UInt8.toNat_inj, UInt8.toNat_and, UInt8.toNat_shiftRight,
    UInt8.toNat_ofNat_of_lt' (Nat.lt_trans hbit (by decide)), Nat.mod_eq_of_lt hbit, Nat.shiftRight_eq_div_pow]
  exact (Nat.and_one_is_mod _).symm ▸ Iff.rfl

theorem msb_exponent_bits (bytes : Bytes) : msb (exponent_bits bytes) = from_be bytes := by
  induction bytes with
  | nil => rfl
  | cons byte rest ih =>
    have hbyte : ((List.range 8).reverse.map fun bit => decide ((byte >>> UInt8.ofNat bit) &&& 1 = 1)) =
        ((List.range 8).map byte.toNat.testBit).reverse := by
      rw [← List.map_reverse]
      apply List.map_congr_left
      intro bit hbit
      exact byte_bit byte (List.mem_range.mp (List.mem_reverse.mp hbit))
    have hlength : (exponent_bits rest).length = 8 * rest.length := by
      simp [exponent_bits, List.length_flatMap, Nat.mul_comm]
    rw [exponent_bits, List.flatMap_cons, ← exponent_bits, hbyte, msb_append, msb_reverse, lsb_testBit,
      ih, hlength, from_be, Nat.mod_eq_of_lt byte.toNat_lt, Nat.pow_mul, Nat.mul_comm]

/-- A power is squaring and multiplying over the bits of the exponent. -/
theorem mod_pow_eq (base : Big768) (exponent : Vector UInt8 20) :
    base.mod_pow exponent = (exponent_bits exponent.toList).foldl (mul_step mul_mod base) one := by
  rw [exponent_bits, List.foldl_flatMap, mod_pow]
  congr 1
  funext state byte
  rw [List.foldl_map]
  congr 1
  funext state bit
  simp only [mul_step, decide_eq_true_eq]

theorem value_mod_pow {base : Big768} (hbase : base.value < prime) (exponent : Vector UInt8 20) :
    (base.mod_pow exponent).value = base.value ^ from_be exponent.toList % prime := by
  have hone : one.value < prime := by
    rw [one, value_from_u64]
    exact four_lt_prime.trans' (by decide)
  obtain ⟨hvalid, hvalue⟩ := mul_spec (f := residue) (fun a b ha _ => mul_mod_residue a b ha) hbase
    (exponent_bits exponent.toList) hone
  rw [← mod_pow_eq] at hvalid hvalue
  apply value_eq_mod hvalid
  have hunit : one.residue = 1 := by
    rw [residue, one, value_from_u64]
    exact Nat.cast_one
  rw [hvalue, hunit, one_pow, one_mul, msb_exponent_bits, Nat.cast_pow]
  rfl

end Big768

open Big768

/-- The public key of a private exponent. -/
def public_key (exponent : Vector UInt8 20) : Big768 := DH_GENERATOR.mod_pow exponent

theorem generator_lt : DH_GENERATOR.value < prime := by
  rw [DH_GENERATOR, value_from_u64]
  exact four_lt_prime.trans' (by decide)

theorem value_public_key (exponent : Vector UInt8 20) :
    (public_key exponent).value = 2 ^ from_be exponent.toList % prime := by
  rw [public_key, value_mod_pow generator_lt, DH_GENERATOR, value_from_u64]
  rfl

theorem public_key_lt (exponent : Vector UInt8 20) : (public_key exponent).value < prime := by
  rw [value_public_key]
  exact Nat.mod_lt _ (four_lt_prime.trans' (by decide))

/-- The modulus is odd, so no public key is zero. -/
theorem public_key_ne_zero (exponent : Vector UInt8 20) : (public_key exponent).value ≠ 0 := by
  rw [value_public_key]
  intro hzero
  have hdvd : prime ∣ 2 ^ from_be exponent.toList := Nat.dvd_of_mod_eq_zero hzero
  have hcoprime : Nat.Coprime prime (2 ^ from_be exponent.toList) :=
    Nat.Coprime.pow_right _ (by rw [Nat.Coprime, Nat.gcd_comm, Nat.gcd_rec, prime_bounds.2.2.2]; rfl)
  have hone := Nat.Coprime.eq_one_of_dvd hcoprime hdvd
  have hfour := four_lt_prime
  omega

/-- A public key is refused only where it is one. -/
theorem dh_secret_public_key (exponent : Vector UInt8 20) (peer : Vector UInt8 20) :
    dh_secret (public_key peer).to_be_bytes exponent =
      if public_key peer = one then .error (.Internal "MSE peer public key out of range")
      else .ok ((public_key peer).mod_pow exponent) := by
  have hlt := public_key_lt peer
  have hzero := public_key_ne_zero peer
  have hone : one.value = 1 := value_from_u64 1
  have htrivial : (public_key peer).cmp one ≠ .gt ↔ public_key peer = one := by
    rw [Big768.cmp_eq, ne_eq, Nat.compare_eq_gt, hone, Nat.not_lt]
    constructor
    · intro hle
      apply value_injective
      omega
    · intro hsame
      rw [hsame, hone]
  have hrange : ¬ (public_key peer).cmp DH_PRIME ≠ .lt := by
    rw [cmp_prime_iff]
    omega
  rw [dh_secret, from_be_bytes_to_be_bytes, reject_if]
  by_cases hsame : public_key peer = one
  · rw [if_pos (Or.inl (htrivial.mpr hsame)), if_pos hsame]
    rfl
  · rw [if_neg (not_or.mpr ⟨fun h => hsame (htrivial.mp h), hrange⟩), if_neg hsame, bind_ok]
    rfl

theorem mod_pow_public_key_comm (a b : Vector UInt8 20) : (public_key b).mod_pow a = (public_key a).mod_pow b := by
  apply value_injective
  rw [value_mod_pow (public_key_lt b), value_mod_pow (public_key_lt a), value_public_key, value_public_key,
    ← Nat.pow_mod, ← Nat.pow_mod, ← Nat.pow_mul, ← Nat.pow_mul, Nat.mul_comm]

/-- Sums, products and powers of residues are exact, and the two sides agree on a secret wherever both can have one. -/
theorem residues_exact_secrets_agree (x y : Big768) (hx : x.value < prime) (hy : y.value < prime)
    (exponent a b : Vector UInt8 20) :
    (x.add_mod y).value = (x.value + y.value) % prime ∧ (x.mul_mod y).value = x.value * y.value % prime ∧
      (x.mod_pow exponent).value = x.value ^ from_be exponent.toList % prime ∧
      (dh_secret (public_key b).to_be_bytes a = dh_secret (public_key a).to_be_bytes b ↔
        (public_key a = one ↔ public_key b = one)) ∧
      (public_key a ≠ one → public_key b ≠ one → ∃ secret,
        dh_secret (public_key b).to_be_bytes a = .ok secret ∧ dh_secret (public_key a).to_be_bytes b = .ok secret) := by
  refine ⟨value_add_mod hx hy, value_mul_mod hx y, value_mod_pow hx exponent, ?_, fun ha hb => ?_⟩
  · rw [dh_secret_public_key, dh_secret_public_key, mod_pow_public_key_comm a b]
    by_cases ha : public_key a = one
    all_goals by_cases hb : public_key b = one
    all_goals simp [ha, hb]
  · rw [dh_secret_public_key, dh_secret_public_key, if_neg ha, if_neg hb, mod_pow_public_key_comm a b]
    exact ⟨_, rfl, rfl⟩

/-- An exponent below 256. -/
def small_exponent (n : UInt8) : Vector UInt8 20 := (Vector.replicate 19 0).push n

theorem value_small_public_key {n : UInt8} (hn : n.toNat ≤ 2) :
    (public_key (small_exponent n)).value = 2 ^ n.toNat := by
  have hexponent : from_be (small_exponent n).toList = n.toNat := by
    rw [small_exponent, Vector.toList_push, Vector.toList_replicate]
    simp [List.replicate, from_be]
  rw [value_public_key, hexponent]
  exact Nat.mod_eq_of_lt ((Nat.pow_le_pow_right (by decide) hn).trans_lt four_lt_prime)

theorem small_public_key_ne_one {n : UInt8} (hpos : n.toNat ≠ 0) (hn : n.toNat ≤ 2) :
    public_key (small_exponent n) ≠ one := by
  intro hsame
  have hvalue := value_small_public_key hn
  rw [hsame, one, value_from_u64] at hvalue
  exact (Nat.one_lt_two_pow hpos).ne hvalue

theorem public_key_zero : public_key (small_exponent 0) = one := by
  apply value_injective
  rw [value_small_public_key (by decide), one, value_from_u64]
  rfl

theorem residues_exact_secrets_agree_small :
    DH_GENERATOR.value < prime ∧
      (DH_GENERATOR.mul_mod DH_GENERATOR).value = DH_GENERATOR.value * DH_GENERATOR.value % prime ∧
      ∃ secret, dh_secret (public_key (small_exponent 2)).to_be_bytes (small_exponent 1) = .ok secret ∧
        dh_secret (public_key (small_exponent 1)).to_be_bytes (small_exponent 2) = .ok secret := by
  obtain ⟨-, hmul, -, -, hagree⟩ := residues_exact_secrets_agree DH_GENERATOR DH_GENERATOR generator_lt generator_lt
    (small_exponent 1) (small_exponent 1) (small_exponent 2)
  exact ⟨generator_lt, hmul, hagree (small_public_key_ne_one (by decide) (by decide))
    (small_public_key_ne_one (by decide) (by decide))⟩

/-- The exponent zero has the public key one, which the other side refuses. -/
theorem zero_exponent_refused :
    dh_secret (public_key (small_exponent 0)).to_be_bytes (small_exponent 1) =
        .error (.Internal "MSE peer public key out of range") ∧
      ∃ secret, dh_secret (public_key (small_exponent 1)).to_be_bytes (small_exponent 0) = .ok secret := by
  rw [dh_secret_public_key, dh_secret_public_key, if_pos public_key_zero,
    if_neg (small_public_key_ne_one (by decide) (by decide))]
  exact ⟨rfl, _, rfl⟩

end swarmotter.mse

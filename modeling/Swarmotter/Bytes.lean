import Swarmotter.Error
import Swarmotter.Lib.Decimal
import Mathlib.Algebra.Group.Nat.Defs
import Mathlib.Data.Nat.Log
import Mathlib.Data.List.Induction
import Mathlib.Data.Bool.AllAny

namespace swarmotter

/-- The largest `usize` and `u64` on the 64-bit targets the daemon ships for. -/
def usize.MAX : Nat := 2 ^ 64 - 1

/-- `usize::checked_add` and `u64::checked_add`. -/
def checked_add (a b : Nat) : Option Nat :=
  if a + b ≤ usize.MAX then some (a + b) else none

/-- `usize::checked_sub` and `u64::checked_sub`. -/
def checked_sub (a b : Nat) : Option Nat :=
  if b ≤ a then some (a - b) else none

/-- `u64::checked_mul`. -/
def checked_mul (a b : Nat) : Option Nat :=
  if a * b ≤ usize.MAX then some (a * b) else none

theorem checked_add_eq_some_iff {a b c : Nat} : checked_add a b = some c ↔ a + b ≤ usize.MAX ∧ c = a + b := by
  rw [checked_add, Option.ite_none_right_eq_some, Option.some.injEq, eq_comm (a := c)]

theorem checked_sub_eq_some_iff {a b c : Nat} : checked_sub a b = some c ↔ b ≤ a ∧ c = a - b := by
  rw [checked_sub, Option.ite_none_right_eq_some, Option.some.injEq, eq_comm (a := c)]

theorem checked_mul_eq_some_iff {a b c : Nat} : checked_mul a b = some c ↔ a * b ≤ usize.MAX ∧ c = a * b := by
  rw [checked_mul, Option.ite_none_right_eq_some, Option.some.injEq, eq_comm (a := c)]

def u16.MAX : Nat := 2 ^ 16 - 1

def u16.saturating_add (a b : Nat) : Nat := min (a + b) u16.MAX

def u32.MAX : Nat := 2 ^ 32 - 1

def u32.saturating_add (a b : Nat) : Nat := min (a + b) u32.MAX

def u64.saturating_add (a b : Nat) : Nat := min (a + b) (2 ^ 64 - 1)

def u64.saturating_mul (a b : Nat) : Nat := min (a * b) (2 ^ 64 - 1)

def u32.saturating_mul (a b : Nat) : Nat := min (a * b) u32.MAX

/-- A Rust slice: its length is a `usize`. -/
structure Slice (α : Type) where
  elems : List α
  length_le : elems.length ≤ usize.MAX

/-- `u64::is_power_of_two`. -/
def is_power_of_two (n : Nat) : Bool := n == 2 ^ n.log2

/-- `usize::checked_next_power_of_two`: the least power of two not below `n`, if it fits. -/
def checked_next_power_of_two (n : Nat) : Option Nat :=
  if 2 ^ Nat.clog 2 n ≤ usize.MAX then some (2 ^ Nat.clog 2 n) else none

/-- `u64::trailing_zeros`. -/
def trailing_zeros (n : Nat) : Nat := ((List.range 64).find? fun i => n.testBit i).getD 64

theorem is_power_of_two_iff {n : Nat} : is_power_of_two n = true ↔ ∃ k, n = 2 ^ k := by
  simp only [is_power_of_two, beq_iff_eq]
  constructor
  · intro h
    exact ⟨n.log2, h⟩
  · rintro ⟨k, rfl⟩
    rw [Nat.log2_two_pow]

theorem checked_next_power_of_two_of_le {n k : Nat} (h : n ≤ 2 ^ k) (hk : k < 64) :
    checked_next_power_of_two n = some (2 ^ Nat.clog 2 n) := by
  have hclog : Nat.clog 2 n ≤ k := Nat.clog_le_of_le_pow h
  have hpow : 2 ^ Nat.clog 2 n ≤ 2 ^ 63 := Nat.pow_le_pow_right (by decide) (by omega)
  exact if_pos (hpow.trans (by decide))

theorem trailing_zeros_le (n : Nat) : trailing_zeros n ≤ 64 := by
  rw [trailing_zeros]
  cases hfind : (List.range 64).find? fun i => n.testBit i with
  | none => exact Nat.le_refl 64
  | some i => exact (List.mem_range.mp (List.mem_of_find?_eq_some hfind)).le

theorem trailing_zeros_two_pow {k : Nat} (hk : k < 64) : trailing_zeros (2 ^ k) = k := by
  have hfind : (List.range 64).find? (fun i => (2 ^ k).testBit i) = some k := by
    rw [List.find?_range_eq_some]
    refine ⟨by simp, List.mem_range.mpr hk, fun i hi => ?_⟩
    simp only [Nat.testBit_two_pow, Bool.not_eq_true', decide_eq_false_iff_not]
    omega
  rw [trailing_zeros, hfind, Option.getD_some]

/-- A `Vec` or a slice. -/
abbrev Vec (α : Type) := List α

/-- `Vec<u8>` and `&[u8]`. -/
abbrev Bytes := Vec UInt8

/-- `str::as_bytes`. -/
def as_bytes (s : String) : Bytes := s.toByteArray.data.toList

/-- `std::str::from_utf8` followed by `to_string`. -/
def from_utf8 (bytes : Bytes) : Option String := String.fromUTF8? ⟨bytes.toArray⟩

/-- The byte literal of an ASCII character. -/
abbrev b (c : Char) : UInt8 := c.toUInt8

theorem from_utf8_as_bytes (s : String) : from_utf8 (as_bytes s) = some s := by
  simp [from_utf8, String.fromUTF8?, String.fromUTF8, as_bytes, s.isValidUTF8]

theorem as_bytes_of_from_utf8 {bytes : Bytes} {s : String} (h : from_utf8 bytes = some s) : as_bytes s = bytes := by
  simp only [from_utf8, String.fromUTF8?] at h
  split at h
  · simp only [Option.some.injEq] at h
    subst h
    simp [as_bytes, String.fromUTF8]
  · cases h

theorem as_bytes_injective {s t : String} (h : as_bytes s = as_bytes t) : s = t := by
  have hs := from_utf8_as_bytes s
  rw [h, from_utf8_as_bytes] at hs
  exact (Option.some.inj hs).symm

theorem as_bytes_ofList (cs : List Char) : as_bytes (String.ofList cs) = cs.flatMap String.utf8EncodeChar := by
  simp [as_bytes, List.utf8Encode]

theorem utf8EncodeChar_of_ascii {c : Char} (h : c.toNat < 128) : String.utf8EncodeChar c = [c.toUInt8] := by
  have hsize : c.utf8Size = 1 := by
    rw [Char.utf8Size_eq_one_iff, UInt32.le_iff_toNat_le]
    exact Nat.le_of_lt_succ h
  exact String.utf8EncodeChar_eq_singleton hsize

theorem as_bytes_ofList_of_ascii {cs : List Char} (h : ∀ c ∈ cs, c.toNat < 128) :
    as_bytes (String.ofList cs) = cs.map Char.toUInt8 := by
  rw [as_bytes_ofList, List.map_eq_flatMap]
  exact List.flatMap_congr fun c hc => utf8EncodeChar_of_ascii (h c hc)

/-- The text of ASCII bytes. -/
def ascii (bytes : Bytes) : String := String.ofList (bytes.map Char.ofUInt8)

theorem toNat_ofUInt8 (byte : UInt8) : (Char.ofUInt8 byte).toNat = byte.toNat := UInt8.toNat_toUInt32 byte

variable {bytes : Bytes}

theorem as_bytes_ascii (h : ∀ byte ∈ bytes, byte.toNat < 128) : as_bytes (ascii bytes) = bytes := by
  have hascii : ∀ c ∈ bytes.map Char.ofUInt8, c.toNat < 128 := by simpa [toNat_ofUInt8] using h
  have hbyte (byte : UInt8) : (Char.ofUInt8 byte).toUInt8 = byte := UInt8.toUInt8_toUInt32 byte
  rw [ascii, as_bytes_ofList_of_ascii hascii, List.map_map]
  exact (List.map_congr_left fun byte _ => hbyte byte).trans (List.map_id bytes)

/-- Bytes below `0x80` are their own UTF-8 encoding. -/
theorem from_utf8_of_ascii (h : ∀ byte ∈ bytes, byte.toNat < 128) : from_utf8 bytes = some (ascii bytes) := by
  rw [← from_utf8_as_bytes, as_bytes_ascii h]

/-- The digits of an unsigned decimal, as the `from_str` of the integer types reads them:
    at least one, and all of them ASCII digits. -/
def parse_digits (s : Bytes) : Option Nat :=
  if s ≠ [] ∧ s.all decimal.is_digit then some (decimal.value s) else none

/-- `str::parse::<usize>`, which accepts a leading `+`. -/
def parse_usize (s : Bytes) : Option Nat :=
  let digits := if s.head? = some (b '+') then s.tail else s
  match parse_digits digits with
  | some n => if n ≤ usize.MAX then some n else none
  | none => none

/-- `str::parse::<i64>`, which accepts a leading `+` or `-`. -/
def parse_i64 (s : Bytes) : Option Int64 :=
  if s.head? = some (b '-') then
    match parse_digits s.tail with
    | some n => if n ≤ 2 ^ 63 then some (Int64.ofInt (-n)) else none
    | none => none
  else
    match parse_digits (if s.head? = some (b '+') then s.tail else s) with
    | some n => if n < 2 ^ 63 then some (Int64.ofInt n) else none
    | none => none

/-- The bytes that may follow the first byte of a character, if it can be one: a range for each. -/
def continuations (first : UInt8) : Option (List (UInt8 × UInt8)) :=
  if first < 0x80 then some []
  else if 0xC2 ≤ first ∧ first ≤ 0xDF then some [(0x80, 0xBF)]
  else if first = 0xE0 then some [(0xA0, 0xBF), (0x80, 0xBF)]
  else if first = 0xED then some [(0x80, 0x9F), (0x80, 0xBF)]
  else if 0xE1 ≤ first ∧ first ≤ 0xEF then some [(0x80, 0xBF), (0x80, 0xBF)]
  else if first = 0xF0 then some [(0x90, 0xBF), (0x80, 0xBF), (0x80, 0xBF)]
  else if 0xF1 ≤ first ∧ first ≤ 0xF3 then some [(0x80, 0xBF), (0x80, 0xBF), (0x80, 0xBF)]
  else if first = 0xF4 then some [(0x80, 0x8F), (0x80, 0xBF), (0x80, 0xBF)]
  else none

/-- How many of the bytes are in their ranges before one is not. -/
def continued : List (UInt8 × UInt8) → Bytes → Nat
  | (low, high) :: ranges, byte :: rest => if low ≤ byte ∧ byte ≤ high then 1 + continued ranges rest else 0
  | _, _ => 0

/-- The bytes after the first one of the next character, or of as much of one as there is, and the
    character. -/
def next_char (first : UInt8) (rest : Bytes) : Nat × Char :=
  match continuations first with
  | none => (0, '�')
  | some ranges =>
    let taken := continued ranges rest
    if taken = ranges.length then
      match from_utf8 (first :: rest.take taken) with
      | some text => (taken, text.toList.headD '�')
      | none => (taken, '�')
    else (taken, '�')

/-- The characters of bytes that are not all valid, each maximal invalid run replaced. -/
def lossy_chars : Nat → Bytes → List Char
  | 0, _ => []
  | _ + 1, [] => []
  | fuel + 1, first :: rest => (next_char first rest).2 :: lossy_chars fuel (rest.drop (next_char first rest).1)

/-- `String::from_utf8_lossy`. -/
def from_utf8_lossy (bytes : Bytes) : String :=
  match from_utf8 bytes with
  | some text => text
  | none => String.ofList (lossy_chars bytes.length bytes)

theorem from_utf8_lossy_as_bytes (s : String) : from_utf8_lossy (as_bytes s) = s := by
  rw [from_utf8_lossy, from_utf8_as_bytes]

/-- A cut character, a stray continuation and an overlong form. -/
example : from_utf8_lossy [0x61, 0xE2, 0x82, 0x62, 0xBF, 0xC0, 0xAF] = "a�b���" := by
  decide +kernel

theorem as_bytes_eq (s : String) : as_bytes s = s.toList.flatMap String.utf8EncodeChar := by
  conv_lhs => rw [← String.ofList_toList (s := s), as_bytes_ofList]

variable {byte : UInt8} {bytes : Bytes}

theorem as_bytes_append (s t : String) : as_bytes (s ++ t) = as_bytes s ++ as_bytes t := by
  simp [as_bytes, String.toByteArray_append]

theorem as_bytes_intercalate (separator : String) (texts : List String) :
    as_bytes (separator.intercalate texts) = (as_bytes separator).intercalate (texts.map as_bytes) := by
  simp only [as_bytes_eq, String.toList_intercalate]
  induction texts with
  | nil => rfl
  | cons text texts ih =>
    cases texts with
    | nil => simp [List.intercalate, as_bytes_eq]
    | cons second texts =>
      simp only [List.intercalate, List.map_cons, List.intersperse_cons_cons, List.flatten_cons,
        List.flatMap_append] at ih ⊢
      rw [ih, as_bytes_eq text]

/-- The text of a number is its decimal digits. -/
theorem as_bytes_toString (n : Nat) : as_bytes (toString n) = decimal.render n := by
  rw [Nat.toString_eq_ofList_toDigits, as_bytes_ofList_of_ascii, decimal.render]
  intro c hc
  have hdigit := decimal.toNat_of_mem_toDigits hc
  omega

/-- The bytes of a character that is not ASCII are not ASCII. -/
theorem le_of_mem_utf8EncodeChar {c : Char} (h : 128 ≤ c.toNat) (hbyte : byte ∈ String.utf8EncodeChar c) :
    128 ≤ byte := by
  rw [UInt8.le_iff_toNat_le]
  change 128 ≤ c.val.toNat at h
  unfold String.utf8EncodeChar at hbyte
  dsimp only at hbyte
  split at hbyte
  · omega
  · split at hbyte
    · simp only [List.mem_cons, List.not_mem_nil, or_false] at hbyte
      rcases hbyte with rfl | rfl <;> simp <;> omega
    · split at hbyte
      · simp only [List.mem_cons, List.not_mem_nil, or_false] at hbyte
        rcases hbyte with rfl | rfl | rfl <;> simp <;> omega
      · simp only [List.mem_cons, List.not_mem_nil, or_false] at hbyte
        rcases hbyte with rfl | rfl | rfl | rfl <;> simp <;> omega

/-- The ASCII characters of a text. -/
def ascii_chars (s : String) : List Char := s.toList.filter fun c => c.toNat < 128

/-- The characters of the ASCII bytes. -/
def ascii_bytes (bytes : Bytes) : List Char := (bytes.filter fun byte => byte < 128).map Char.ofUInt8

theorem ascii_bytes_append (front rest : Bytes) :
    ascii_bytes (front ++ rest) = ascii_bytes front ++ ascii_bytes rest := by
  rw [ascii_bytes, List.filter_append, List.map_append]
  rfl

theorem ascii_bytes_eq_nil (h : ∀ byte ∈ bytes, 128 ≤ byte) : ascii_bytes bytes = [] := by
  have hnone : bytes.filter (fun byte => byte < 128) = [] := by
    rw [List.filter_eq_nil_iff]
    intro byte hbyte
    simpa using h byte hbyte
  rw [ascii_bytes, hnone, List.map_nil]

theorem ascii_bytes_utf8EncodeChar (c : Char) :
    ascii_bytes (String.utf8EncodeChar c) = if c.toNat < 128 then [c] else [] := by
  split
  · rename_i hascii
    have hnat : c.toUInt8.toNat = c.toNat := by
      rw [Char.toUInt8, UInt32.toNat_toUInt8]
      exact Nat.mod_eq_of_lt (Nat.lt_trans hascii (by decide))
    have hchar : Char.ofUInt8 c.toUInt8 = c := Char.toNat_inj.mp ((toNat_ofUInt8 _).trans hnat)
    have hlt : c.toUInt8 < 128 := UInt8.lt_iff_toNat_lt.mpr (hnat.symm ▸ hascii)
    rw [utf8EncodeChar_of_ascii hascii, ascii_bytes, List.filter_singleton, decide_eq_true hlt]
    exact congrArg (fun c => [c]) hchar
  · rename_i hwide
    exact ascii_bytes_eq_nil fun byte hbyte => le_of_mem_utf8EncodeChar (Nat.not_lt.mp hwide) hbyte

/-- The ASCII bytes of a text are its ASCII characters. -/
theorem ascii_chars_eq (s : String) : ascii_chars s = ascii_bytes (as_bytes s) := by
  rw [ascii_chars, as_bytes_eq]
  induction s.toList with
  | nil => rfl
  | cons c cs ih =>
    rw [List.flatMap_cons, ascii_bytes_append, ascii_bytes_utf8EncodeChar, ← ih, List.filter_cons]
    by_cases hascii : c.toNat < 128
    · simp [hascii]
    · simp [hascii]

theorem mem_as_bytes {s : String} {c : Char} (h : c ∈ s.toList) (hbyte : byte ∈ String.utf8EncodeChar c) :
    byte ∈ as_bytes s := by
  rw [as_bytes_eq]
  exact List.mem_flatMap.mpr ⟨c, h, hbyte⟩

/-- Every range of a continuation byte lies beyond ASCII. -/
theorem le_of_mem_continuations {first : UInt8} {ranges : List (UInt8 × UInt8)}
    (h : continuations first = some ranges) : ∀ range ∈ ranges, 128 ≤ range.1 := by
  unfold continuations at h
  repeat' split at h
  all_goals cases h
  all_goals exact List.all_iff_forall_prop.mp (by decide)

theorem continued_le {ranges : List (UInt8 × UInt8)} (hranges : ∀ range ∈ ranges, 128 ≤ range.1)
    (rest : Bytes) : ∀ byte ∈ rest.take (continued ranges rest), 128 ≤ byte := by
  induction ranges generalizing rest with
  | nil => simp [continued]
  | cons range ranges ih =>
    cases rest with
    | nil => simp
    | cons first rest =>
      obtain ⟨hrange, hranges⟩ := List.forall_mem_cons.mp hranges
      rw [continued]
      split
      · rename_i hfirst
        rw [Nat.add_comm, List.take_succ_cons]
        exact List.forall_mem_cons.mpr ⟨UInt8.le_trans hrange hfirst.1, ih hranges rest⟩
      · simp

/-- The ASCII bytes that the next character takes are that character, or none. -/
theorem ascii_bytes_next_char (first : UInt8) (rest : Bytes) :
    ascii_bytes (first :: rest.take (next_char first rest).1) =
      if (next_char first rest).2.toNat < 128 then [(next_char first rest).2] else [] := by
  by_cases hfirst : first < 128
  · have hnone : continuations first = some [] := if_pos hfirst
    have hlt : first.toNat < 128 := UInt8.lt_iff_toNat_lt.mp hfirst
    have htext : from_utf8 [first] = some (ascii [first]) := from_utf8_of_ascii (by simpa using hlt)
    have hnext : next_char first rest = (0, Char.ofUInt8 first) := by
      simp [next_char, hnone, continued, htext, ascii]
    rw [hnext, if_pos ((toNat_ofUInt8 first).symm ▸ hlt), List.take_zero, ascii_bytes, List.filter_singleton,
      decide_eq_true hfirst]
    rfl
  · have hfirst := UInt8.not_lt.mp hfirst
    have hwide {ranges : List (UInt8 × UInt8)} (hranges : continuations first = some ranges) :
        ∀ byte ∈ first :: rest.take (continued ranges rest), 128 ≤ byte :=
      List.forall_mem_cons.mpr ⟨hfirst, continued_le (le_of_mem_continuations hranges) rest⟩
    have hnext : (∀ byte ∈ first :: rest.take (next_char first rest).1, 128 ≤ byte) ∧
        ¬ (next_char first rest).2.toNat < 128 := by
      have hreplaced : ¬ '�'.toNat < 128 := by decide
      unfold next_char
      cases hranges : continuations first with
      | none => exact ⟨by simpa using hfirst, hreplaced⟩
      | some ranges =>
        dsimp only
        split
        · cases htext : from_utf8 (first :: rest.take (continued ranges rest)) with
          | none => exact ⟨hwide hranges, hreplaced⟩
          | some text =>
            refine ⟨hwide hranges, ?_⟩
            have hascii : ascii_chars text = [] := by
              rw [ascii_chars_eq, as_bytes_of_from_utf8 htext]
              exact ascii_bytes_eq_nil (hwide hranges)
            dsimp only
            cases hlist : text.toList with
            | nil => exact hreplaced
            | cons c cs =>
              rw [ascii_chars, hlist, List.filter_eq_nil_iff] at hascii
              simpa using hascii c List.mem_cons_self
        · exact ⟨hwide hranges, hreplaced⟩
    rw [if_neg hnext.2, ascii_bytes_eq_nil hnext.1]

theorem filter_lossy_chars (fuel : Nat) (bytes : Bytes) (h : bytes.length ≤ fuel) :
    (lossy_chars fuel bytes).filter (fun c => c.toNat < 128) = ascii_bytes bytes := by
  induction fuel generalizing bytes with
  | zero =>
    rw [List.eq_nil_of_length_eq_zero (Nat.le_zero.mp h)]
    rfl
  | succ fuel ih =>
    cases bytes with
    | nil => rfl
    | cons first rest =>
      have hrest : (rest.drop (next_char first rest).1).length ≤ fuel := by
        rw [List.length_drop]
        rw [List.length_cons] at h
        omega
      have hsplit : ascii_bytes (first :: rest) = ascii_bytes (first :: rest.take (next_char first rest).1) ++
          ascii_bytes (rest.drop (next_char first rest).1) := by
        rw [← ascii_bytes_append, List.cons_append, List.take_append_drop]
      rw [lossy_chars, List.filter_cons, ih _ hrest, hsplit, ascii_bytes_next_char]
      split <;> simp_all

/-- The ASCII characters of a text that is read as well as possible are the ASCII bytes. -/
theorem ascii_chars_from_utf8_lossy (bytes : Bytes) : ascii_chars (from_utf8_lossy bytes) = ascii_bytes bytes := by
  unfold from_utf8_lossy
  cases htext : from_utf8 bytes with
  | some text => rw [← as_bytes_of_from_utf8 htext, ascii_chars_eq]
  | none =>
    rw [ascii_chars, String.toList_ofList]
    exact filter_lossy_chars _ _ (Nat.le_refl _)

end swarmotter

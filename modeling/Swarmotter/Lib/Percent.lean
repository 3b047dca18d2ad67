import Mathlib.Tactic.IntervalCases

/-! Bytes as hexadecimal digits, and percent-encoding of bytes, for any choice of the bytes that stand for themselves.
    -/

namespace hex

/-- The lowercase ASCII digit of a number below sixteen. -/
def digit (n : Nat) : UInt8 := if n < 10 then UInt8.ofNat (48 + n) else UInt8.ofNat (87 + n)

/-- The number of an ASCII digit of either case. -/
def value (byte : UInt8) : Option Nat :=
  if 48 ≤ byte ∧ byte ≤ 57 then some (byte.toNat - 48)
  else if 97 ≤ byte ∧ byte ≤ 102 then some (byte.toNat - 87)
  else if 65 ≤ byte ∧ byte ≤ 70 then some (byte.toNat - 55)
  else none

def encode (bytes : List UInt8) : List UInt8 :=
  bytes.flatMap fun byte => [digit (byte.toNat / 16), digit (byte.toNat % 16)]

end hex

namespace percent

/-- The percent sign. -/
def mark : UInt8 := 37

/-- The uppercase ASCII digit of a number below sixteen. -/
def digit (n : Nat) : UInt8 := if n < 10 then UInt8.ofNat (48 + n) else UInt8.ofNat (55 + n)

/-- The three bytes that stand for a byte. -/
def triplet (byte : UInt8) : List UInt8 := [mark, digit (byte.toNat / 16), digit (byte.toNat % 16)]

def escape (safe : UInt8 → Bool) (bytes : List UInt8) : List UInt8 :=
  bytes.flatMap fun byte => if safe byte then [byte] else triplet byte

/-- The byte of two hexadecimal digits. -/
def pair (high low : UInt8) : Option UInt8 :=
  match hex.value high, hex.value low with
  | some high, some low => some (UInt8.ofNat (high * 16 + low))
  | _, _ => none

/-- The byte that two digits at the front make. -/
def front : List UInt8 → Option UInt8
  | high :: low :: _ => pair high low
  | _ => none

/-- Replace every percent sign that two digits follow. -/
def decode : List UInt8 → List UInt8
  | first :: high :: low :: rest =>
    if first = mark then
      match pair high low with
      | some byte => byte :: decode rest
      | none => first :: decode (high :: low :: rest)
    else first :: decode (high :: low :: rest)
  | bytes => bytes

/-- Whether there is something to decode. -/
def has_escape : List UInt8 → Bool
  | [] => false
  | first :: rest => (first = mark && (front rest).isSome) || has_escape rest

section
variable {safe : UInt8 → Bool} {byte high low first : UInt8} {bytes rest : List UInt8}

theorem value_digit {n : Nat} (hn : n < 16) : hex.value (digit n) = some n := by
  interval_cases n <;> rfl

theorem pair_digits (byte : UInt8) : pair (digit (byte.toNat / 16)) (digit (byte.toNat % 16)) = some byte := by
  have hbyte := byte.toNat_lt
  rw [pair, value_digit (by omega), value_digit (Nat.mod_lt _ (by decide))]
  dsimp only
  rw [Nat.div_add_mod', UInt8.ofNat_toNat]

theorem value_of_pair (h : pair high low = some byte) :
    (hex.value high).isSome = true ∧ (hex.value low).isSome = true := by
  unfold pair at h
  cases hhigh : hex.value high <;> cases hlow : hex.value low <;> simp [hhigh, hlow] at h ⊢

@[simp] theorem decode_nil : decode [] = [] := rfl

/-- A byte that begins no escape stays. -/
theorem decode_plain (h : first = mark → front rest = none) : decode (first :: rest) = first :: decode rest := by
  match rest with
  | [] => rfl
  | [_] => rfl
  | high :: low :: rest =>
    rw [decode]
    split
    · rename_i hfirst
      rw [show pair high low = none from h hfirst]
    · rfl

theorem decode_pair (h : pair high low = some byte) : decode (mark :: high :: low :: rest) = byte :: decode rest := by
  rw [decode, if_pos rfl, h]

/-- Decoding goes on by a byte that begins no escape, or by an escape. -/
theorem decode_induction {motive : List UInt8 → Prop} (nil : motive [])
    (plain : ∀ first rest, (first = mark → front rest = none) → motive rest → motive (first :: rest))
    (escaped : ∀ high low byte rest, pair high low = some byte → motive rest → motive (mark :: high :: low :: rest))
    (bytes : List UInt8) : motive bytes := by
  fun_induction decode bytes with
  | case1 high low rest byte hpair ih => exact escaped _ _ _ _ hpair ih
  | case2 high low rest hpair ih => exact plain _ _ (fun _ => hpair) ih
  | case3 first high low rest hfirst ih => exact plain _ _ (fun h => absurd h hfirst) ih
  | case4 bytes hshort =>
    match bytes with
    | [] => exact nil
    | [first] => exact plain _ _ (fun _ => rfl) nil
    | [first, second] => exact plain _ _ (fun _ => rfl) (plain _ _ (fun _ => rfl) nil)
    | first :: high :: low :: rest => exact absurd rfl (hshort first high low rest)

@[simp] theorem escape_nil : escape safe [] = [] := rfl

theorem escape_cons : escape safe (byte :: bytes) =
    (if safe byte then [byte] else triplet byte) ++ escape safe bytes := rfl

theorem mem_escape (h : byte ∈ escape safe bytes) :
    safe byte = true ∧ byte ∈ bytes ∨ byte = mark ∨ (hex.value byte).isSome = true := by
  obtain ⟨source, hsource, hbyte⟩ := List.mem_flatMap.mp h
  split at hbyte
  · rename_i hsafe
    obtain rfl := List.mem_singleton.mp hbyte
    exact Or.inl ⟨hsafe, hsource⟩
  · obtain ⟨hhigh, hlow⟩ := value_of_pair (pair_digits source)
    simp only [triplet, List.mem_cons, List.not_mem_nil, or_false] at hbyte
    rcases hbyte with rfl | rfl | rfl
    · exact Or.inr (Or.inl rfl)
    · exact Or.inr (Or.inr hhigh)
    · exact Or.inr (Or.inr hlow)

/-- Where the percent sign is escaped, decoding is the inverse. -/
theorem decode_escape (hmark : safe mark = false) (bytes : List UInt8) : decode (escape safe bytes) = bytes := by
  induction bytes with
  | nil => rfl
  | cons byte bytes ih =>
    rw [escape_cons]
    split
    · rename_i hsafe
      have hplain : byte = mark → front (escape safe bytes) = none := by
        rintro rfl
        rw [hmark] at hsafe
        cases hsafe
      rw [List.singleton_append, decode_plain hplain, ih]
    · exact (decode_pair (pair_digits byte)).trans (congrArg (byte :: ·) ih)

theorem has_escape_eq_false_iff : has_escape (first :: rest) = false ↔
    (first = mark → front rest = none) ∧ has_escape rest = false := by
  simp [has_escape]

/-- Bytes without an escape are left alone. -/
theorem decode_eq_self (h : has_escape bytes = false) : decode bytes = bytes := by
  induction bytes with
  | nil => rfl
  | cons first rest ih =>
    obtain ⟨hplain, hrest⟩ := has_escape_eq_false_iff.mp h
    rw [decode_plain hplain, ih hrest]

theorem has_escape_of_not_mem (h : mark ∉ bytes) : has_escape bytes = false := by
  induction bytes with
  | nil => rfl
  | cons first rest ih =>
    obtain ⟨hfirst, hrest⟩ := not_or.mp (fun hmem => h (List.mem_cons.mpr hmem))
    simp [has_escape, ih hrest, Ne.symm hfirst]

/-- Digits are ASCII. -/
theorem lt_of_isSome_value (h : (hex.value byte).isSome = true) : byte < 128 := by
  unfold hex.value at h
  simp only [UInt8.le_iff_toNat_le, UInt8.lt_iff_toNat_lt, UInt8.reduceToNat] at h ⊢
  repeat' split at h
  all_goals first | omega | cases h

/-- Decoding takes three ASCII bytes for one byte, so it never adds an ASCII byte and takes some away where there
    is an escape. -/
theorem countP_decode (bytes : List UInt8) :
    (decode bytes).countP (· < 128) ≤ bytes.countP (· < 128) ∧
      (has_escape bytes = true → (decode bytes).countP (· < 128) < bytes.countP (· < 128)) := by
  induction bytes using decode_induction with
  | nil => exact ⟨Nat.le_refl _, fun h => by cases h⟩
  | plain first rest hplain ih =>
    have hescape : has_escape (first :: rest) = true → has_escape rest = true := by
      intro h
      by_contra hrest
      rw [has_escape_eq_false_iff.mpr ⟨hplain, Bool.eq_false_of_not_eq_true hrest⟩] at h
      cases h
    rw [decode_plain hplain, List.countP_cons, List.countP_cons]
    refine ⟨by omega, fun h => ?_⟩
    have := ih.2 (hescape h)
    omega
  | escaped high low byte rest hpair ih =>
    obtain ⟨hhigh, hlow⟩ := value_of_pair hpair
    have hascii : decide (mark < 128) = true := by decide
    have hless : (decode (mark :: high :: low :: rest)).countP (· < 128) <
        (mark :: high :: low :: rest).countP (· < 128) := by
      rw [decode_pair hpair]
      simp only [List.countP_cons, lt_of_isSome_value hhigh, lt_of_isSome_value hlow, hascii, decide_true, if_true]
      split <;> omega
    exact ⟨Nat.le_of_lt hless, fun _ => hless⟩

/-- Where the percent sign and the digits stand for themselves, escaping does not change what is decoded. -/
theorem decode_escape_of_mark (hmark : safe mark = true)
    (hdigits : ∀ byte, (hex.value byte).isSome = true → safe byte = true) (bytes : List UInt8) :
    decode (escape safe bytes) = decode bytes := by
  have hnone : hex.value mark = none := rfl
  have hfront : ∀ rest, front rest = none → front (escape safe rest) = none := by
    intro rest h
    match rest, h with
    | [], _ => rfl
    | first :: rest, h =>
      rw [escape_cons]
      split
      · match rest, h with
        | [], _ => rfl
        | second :: rest, h =>
          rw [escape_cons]
          split
          · exact h
          · simp [triplet, front, pair, hnone]
      · simp [triplet, front, pair, hnone]
  induction bytes using decode_induction with
  | nil => rfl
  | plain first rest hplain ih =>
    rw [escape_cons, decode_plain hplain]
    split
    · rw [List.singleton_append, decode_plain fun hfirst => hfront rest (hplain hfirst), ih]
    · exact (decode_pair (pair_digits first)).trans (congrArg (first :: ·) ih)
  | escaped high low byte rest hpair ih =>
    obtain ⟨hhigh, hlow⟩ := value_of_pair hpair
    simp only [escape_cons, hmark, hdigits _ hhigh, hdigits _ hlow, if_true, List.singleton_append,
      decode_pair hpair, ih]

end

end percent

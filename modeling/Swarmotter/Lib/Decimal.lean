import Mathlib.Data.List.Induction
import Mathlib.Tactic.IntervalCases

namespace decimal

/-- An ASCII decimal digit. -/
def is_digit (c : UInt8) : Bool := 48 ≤ c && c ≤ 57

/-- The shortest ASCII decimal rendering of a natural number. -/
def render (n : Nat) : List UInt8 := (Nat.toDigits 10 n).map Char.toUInt8

/-- The number a string of ASCII digits denotes. -/
def value (digits : List UInt8) : Nat :=
  digits.foldl (fun total c => total * 10 + (c.toNat - 48)) 0

/-- A nonempty string of digits without a superfluous leading zero. -/
def Canonical (digits : List UInt8) : Prop :=
  digits ≠ [] ∧ (∀ c ∈ digits, is_digit c = true) ∧ (1 < digits.length → digits.head? ≠ some 48)

theorem is_digit_iff {c : UInt8} : is_digit c = true ↔ 48 ≤ c.toNat ∧ c.toNat ≤ 57 := by
  simp [is_digit, UInt8.le_iff_toNat_le]

theorem toUInt8_digitChar {d : Nat} (hd : d < 10) : (Nat.digitChar d).toUInt8 = UInt8.ofNat (48 + d) := by
  interval_cases d <;> rfl

theorem render_of_lt_ten {n : Nat} (hn : n < 10) : render n = [UInt8.ofNat (48 + n)] := by
  simp [render, Nat.toDigits_of_lt_base hn, toUInt8_digitChar hn]

theorem render_of_ten_le {n : Nat} (hn : 10 ≤ n) : render n = render (n / 10) ++ [UInt8.ofNat (48 + n % 10)] := by
  have hmod : n % 10 < 10 := Nat.mod_lt _ (by decide)
  simp only [render, Nat.toDigits_of_base_le (by decide : 1 < 10) hn, List.map_append, List.map_cons,
    List.map_nil, toUInt8_digitChar hmod]

theorem value_append_digit (digits : List UInt8) (c : UInt8) :
    value (digits ++ [c]) = value digits * 10 + (c.toNat - 48) := by
  simp [value]

private theorem toNat_ofNat_digit {d : Nat} (hd : d < 10) : (UInt8.ofNat (48 + d)).toNat = 48 + d := by
  interval_cases d <;> rfl

/-- Reading a rendering back gives the rendered number. -/
theorem value_render (n : Nat) : value (render n) = n := by
  induction n using Nat.strongRecOn with
  | ind n ih =>
    by_cases hn : n < 10
    · rw [render_of_lt_ten hn]
      simp only [value, List.foldl_cons, List.foldl_nil, toNat_ofNat_digit hn]
      omega
    · have hmod : n % 10 < 10 := Nat.mod_lt _ (by decide)
      rw [render_of_ten_le (by omega), value_append_digit, ih (n / 10) (by omega), toNat_ofNat_digit hmod]
      omega

theorem render_ne_nil (n : Nat) : render n ≠ [] := by
  simp [render, Nat.toDigits_ne_nil]

theorem render_length_pos (n : Nat) : 0 < (render n).length :=
  List.length_pos_iff.mpr (render_ne_nil n)

theorem toNat_of_mem_toDigits {n : Nat} {c : Char} (hc : c ∈ Nat.toDigits 10 n) : 48 ≤ c.toNat ∧ c.toNat ≤ 57 := by
  simpa [Char.isDigit, UInt32.le_iff_toNat_le] using Nat.isDigit_of_mem_toDigits (by decide) (by decide) hc

theorem is_digit_of_mem_render {n : Nat} {c : UInt8} (hc : c ∈ render n) : is_digit c = true := by
  obtain ⟨digit, hdigit, rfl⟩ := List.mem_map.mp hc
  have hrange : 48 ≤ digit.val.toNat ∧ digit.val.toNat ≤ 57 := toNat_of_mem_toDigits hdigit
  rw [is_digit_iff, Char.toUInt8, UInt32.toNat_toUInt8]
  omega

/-- Only zero renders with a leading zero. -/
theorem render_head?_ne_zero {n : Nat} (hn : 0 < n) : (render n).head? ≠ some 48 := by
  induction n using Nat.strongRecOn with
  | ind n ih =>
    by_cases hlt : n < 10
    · rw [render_of_lt_ten hlt]
      interval_cases n <;> decide
    · obtain ⟨c, rest, hfront⟩ := List.exists_cons_of_ne_nil (render_ne_nil (n / 10))
      have hhead := ih (n / 10) (by omega) (by omega)
      rw [hfront] at hhead
      simpa [render_of_ten_le (show 10 ≤ n by omega), hfront] using hhead

theorem render_zero : render 0 = [48] := rfl

theorem render_canonical (n : Nat) : Canonical (render n) := by
  refine ⟨render_ne_nil n, fun c hc => is_digit_of_mem_render hc, fun hlong => ?_⟩
  rcases Nat.eq_zero_or_pos n with rfl | hn
  · simp [render_zero] at hlong
  · exact render_head?_ne_zero hn

theorem value_pos {digits : List UInt8} (hne : digits ≠ [])
    (hdigits : ∀ c ∈ digits, is_digit c = true) (hhead : digits.head? ≠ some 48) :
    0 < value digits := by
  induction digits using List.reverseRecOn with
  | nil => exact absurd rfl hne
  | append_singleton digits c ih =>
    rw [value_append_digit]
    cases digits with
    | nil =>
      have hc := is_digit_iff.mp (hdigits c (by simp))
      have hne48 : c.toNat ≠ 48 := fun h => hhead (by simp [← UInt8.toNat_inj, h])
      omega
    | cons d digits =>
      have hpos := ih (by simp) (fun x hx => hdigits x (List.mem_append.mpr (Or.inl hx)))
        (by simpa using hhead)
      omega

/-- Rendering the value of a canonical digit string gives the string back. -/
theorem render_value {digits : List UInt8} (hcanonical : Canonical digits) : render (value digits) = digits := by
  induction digits using List.reverseRecOn with
  | nil => exact absurd rfl hcanonical.1
  | append_singleton digits c ih =>
    obtain ⟨-, hdigits, hhead⟩ := hcanonical
    have hc := is_digit_iff.mp (hdigits c (by simp))
    have hbyte : UInt8.ofNat (48 + (c.toNat - 48)) = c := by
      rw [← UInt8.toNat_inj, toNat_ofNat_digit (by omega)]
      omega
    rw [value_append_digit]
    cases digits with
    | nil =>
      have hlt : value [] * 10 + (c.toNat - 48) < 10 := by simp [value]; omega
      rw [render_of_lt_ten hlt]
      simpa [value] using hbyte
    | cons d digits =>
      have hfront : ∀ x ∈ d :: digits, is_digit x = true := fun x hx =>
        hdigits x (List.mem_append.mpr (Or.inl hx))
      have hnonzero : (d :: digits).head? ≠ some 48 := by simpa using hhead (by simp)
      have hpos := value_pos (by simp) hfront hnonzero
      rw [render_of_ten_le (by omega)]
      have hdiv : (value (d :: digits) * 10 + (c.toNat - 48)) / 10 = value (d :: digits) := by omega
      have hmod : (value (d :: digits) * 10 + (c.toNat - 48)) % 10 = c.toNat - 48 := by omega
      rw [hdiv, hmod, ih ⟨by simp, hfront, fun _ => hnonzero⟩, hbyte]

theorem length_render_le {n k : Nat} (hk : 0 < k) (h : n < 10 ^ k) : (render n).length ≤ k := by
  rw [render, List.length_map]
  exact (Nat.length_toDigits_le_iff (by decide) hk).mpr h

end decimal

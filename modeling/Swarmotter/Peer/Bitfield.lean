import Swarmotter.Storage.Io

open swarmotter.storage

namespace swarmotter.peer

/-- The pieces a peer reports, with the high bit of a byte first. The payload of a message may be shorter than the piece
count asks for. -/
structure Bitfield where
  bits : Bytes
  piece_count : Nat
  deriving DecidableEq, Repr

namespace Bitfield

def new (piece_count : Nat) : Bitfield := ⟨List.replicate ((piece_count + 7) / 8) 0, piece_count⟩

def from_bytes (bits : Bytes) (piece_count : Nat) : Bitfield :=
  let max_len := (piece_count + 7) / 8
  ⟨if bits.length > max_len then bits.take max_len else bits, piece_count⟩

def bit (index : Nat) : UInt8 := 0x80 >>> UInt8.ofNat (index % 8)

def set (self : Bitfield) (index : Nat) : Bitfield :=
  if index < self.piece_count then { self with bits := self.bits.modify (index / 8) (· ||| bit index) } else self

def has (self : Bitfield) (index : Nat) : Bool :=
  if index ≥ self.piece_count then false
  else
    match self.bits[index / 8]? with
    | some byte => byte &&& bit index ≠ 0
    | none => false

/-! The bits are those of the bitfield of the storage, up to the piece count. -/

theorem bit_eq_mask (index : Nat) : bit index = PieceBitfield.mask index := by
  have hall : ∀ rem < 8, (0x80 : UInt8) >>> UInt8.ofNat rem = 1 <<< UInt8.ofNat (7 - rem) := by decide
  exact hall (index % 8) (Nat.mod_lt index (by decide))

theorem has_eq (self : Bitfield) (index : Nat) :
    self.has index = (decide (index < self.piece_count) && PieceBitfield.has ⟨self.bits⟩ index) := by
  unfold has PieceBitfield.has
  rw [bit_eq_mask]
  by_cases hindex : index < self.piece_count
  · rw [decide_eq_true hindex, Bool.true_and]
    refine (if_neg (Nat.not_le.mpr hindex)).trans ?_
    cases self.bits[index / 8]? <;> rfl
  · rw [decide_eq_false hindex, Bool.false_and]
    exact if_pos (Nat.not_lt.mp hindex)

variable {index : Nat}

theorem set_bits (self : Bitfield) (hindex : index < self.piece_count) :
    (self.set index).bits = (PieceBitfield.set ⟨self.bits⟩ index).bytes := by
  rw [set, if_pos hindex, bit_eq_mask]
  rfl

theorem piece_count_set (self : Bitfield) (index : Nat) : (self.set index).piece_count = self.piece_count := by
  unfold set
  split <;> rfl

theorem has_new (piece_count index : Nat) : (new piece_count).has index = false := by
  rw [has_eq]
  have hzero : PieceBitfield.has ⟨(new piece_count).bits⟩ index = false := PieceBitfield.has_new piece_count index
  rw [hzero, Bool.and_false]

variable {self : Bitfield}

/-- A piece is set if its byte is there. -/
theorem has_set_self (hindex : index < self.piece_count) (hbyte : index / 8 < self.bits.length) :
    (self.set index).has index = true := by
  rw [has_eq, piece_count_set, decide_eq_true hindex, Bool.true_and, set_bits self hindex]
  exact PieceBitfield.has_set hbyte

theorem has_set_of_ne {other : Nat} (hne : other ≠ index) : (self.set index).has other = self.has other := by
  by_cases hindex : index < self.piece_count
  · rw [has_eq, has_eq, piece_count_set, set_bits self hindex]
    congr 1
    rw [Bool.eq_iff_iff]
    constructor
    · intro h
      exact (PieceBitfield.has_of_has_set h).resolve_left hne
    · exact PieceBitfield.has_set_of_has
  · rw [set, if_neg hindex]

/-- A piece without a byte cannot be set. -/
theorem set_of_short (hshort : self.bits.length ≤ index / 8) : self.set index = self := by
  unfold set
  split
  · rw [List.modify_eq_self hshort]
  · rfl

theorem has_of_short (hshort : self.bits.length ≤ index / 8) : self.has index = false := by
  unfold has
  split
  · rfl
  · rw [List.getElem?_eq_none hshort]

end Bitfield

end swarmotter.peer

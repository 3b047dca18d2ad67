import Swarmotter.Progress

open swarmotter.storage (PieceBitfield)

namespace swarmotter.torrent.PieceProgress

def have_piece (self : PieceProgress) (index : Nat) : PieceProgress :=
  if index < self.total ∧ self.bitfield.has index = false then
    { self with bitfield := self.bitfield.set index, have_count := self.have_count + 1 }
  else self

def replace_from_bitfield (_ : PieceProgress) (bitfield : PieceBitfield) (total : Nat) : PieceProgress :=
  ⟨bitfield, total, bitfield.count total⟩

def pieces_have (self : PieceProgress) : Nat := self.have_count

def is_complete (self : PieceProgress) : Bool := self.have_count = self.total

inductive Operation where
  | HavePiece (index : Nat)
  | ReplaceFromBitfield (bitfield : PieceBitfield) (total : Nat)

def apply (self : PieceProgress) : Operation → PieceProgress
  | .HavePiece index => self.have_piece index
  | .ReplaceFromBitfield bitfield total => self.replace_from_bitfield bitfield total

def after (self : PieceProgress) (operations : List Operation) : PieceProgress := operations.foldl apply self

/-- The number of the pieces whose bit is set. -/
def pieces_set (self : PieceProgress) : Nat := Nat.count (fun i => self.bitfield.has i = true) self.total

/-- The cached count is that of the bits. -/
structure Exact (self : PieceProgress) : Prop where
  pieces_have : self.pieces_have = self.pieces_set
  is_complete : self.is_complete = true ↔ ∀ i < self.total, self.bitfield.has i = true

/-- The bitfield has a byte for the piece that is to be marked. -/
def Reaches (self : PieceProgress) : Operation → Prop
  | .HavePiece index => index < self.total → index / 8 < self.bitfield.bytes.length
  | .ReplaceFromBitfield _ _ => True

section
variable {self : PieceProgress} {index : Nat} {operations : List Operation}

theorem exact_iff : self.Exact ↔ self.have_count = self.pieces_set := by
  refine ⟨Exact.pieces_have, fun h => ⟨h, ?_⟩⟩
  rw [PieceProgress.is_complete, decide_eq_true_iff, h, pieces_set, Nat.count_iff_forall]

theorem exact_new (total : Nat) : (PieceProgress.new total).Exact := by
  rw [exact_iff, pieces_set]
  exact (Nat.count_iff_forall_not.mpr fun i _ => by simp [PieceProgress.new, PieceBitfield.has_new]).symm

/-- A piece whose byte is there is counted once. -/
theorem pieces_set_set (hindex : index < self.total) (hhas : self.bitfield.has index = false)
    (hbyte : index / 8 < self.bitfield.bytes.length) :
    Nat.count (fun i => (self.bitfield.set index).has i = true) self.total = self.pieces_set + 1 := by
  have hbits : ∀ i, (self.bitfield.set index).has i = true ↔ i = index ∨ self.bitfield.has i = true := by
    refine fun i => ⟨PieceBitfield.has_of_has_set, fun h => ?_⟩
    rcases h with rfl | h
    · exact PieceBitfield.has_set hbyte
    · exact PieceBitfield.has_set_of_has h
  have hinsert : (Finset.range self.total).filter (fun i => (self.bitfield.set index).has i = true) =
      insert index ((Finset.range self.total).filter fun i => self.bitfield.has i = true) := by
    ext i
    simp only [Finset.mem_filter, Finset.mem_range, Finset.mem_insert, hbits]
    refine ⟨fun ⟨hi, hor⟩ => hor.imp_right fun h => ⟨hi, h⟩, fun hor => ?_⟩
    rcases hor with rfl | ⟨hi, h⟩
    · exact ⟨hindex, .inl rfl⟩
    · exact ⟨hi, .inr h⟩
  rw [pieces_set, Nat.count_eq_card_filter_range, Nat.count_eq_card_filter_range, hinsert,
    Finset.card_insert_of_notMem (by simp [hhas])]

/-- Marking a piece keeps the count exact just if the bitfield has a byte for it. -/
theorem exact_apply_iff (h : self.Exact) (operation : Operation) :
    (self.apply operation).Exact ↔ self.Reaches operation := by
  rw [exact_iff] at h ⊢
  cases operation with
  | ReplaceFromBitfield bitfield total => exact iff_of_true (bitfield.count_eq total) trivial
  | HavePiece index =>
    simp only [apply, have_piece, Reaches]
    split
    · rename_i hnew
      obtain ⟨hindex, hhas⟩ := hnew
      by_cases hbyte : index / 8 < self.bitfield.bytes.length
      · refine iff_of_true ?_ fun _ => hbyte
        rw [pieces_set, pieces_set_set hindex hhas hbyte, h]
      · -- Nothing is marked, but the piece is counted.
        have hself : self.bitfield.set index = self.bitfield := by
          rw [PieceBitfield.set, List.modify_eq_self (Nat.le_of_not_lt hbyte)]
        refine iff_of_false ?_ fun hreaches => hbyte (hreaches hindex)
        rw [pieces_set, hself, h]
        exact Nat.succ_ne_self _
    · rename_i hold
      refine iff_of_true h fun hindex => ?_
      have hhas : self.bitfield.has index = true := by simpa [hindex] using hold
      obtain ⟨byte, hbyte, -⟩ := PieceBitfield.has_eq_true_iff.mp hhas
      exact (List.getElem?_eq_some_iff.mp hbyte).1

/-- The count is exact all along just if no piece is marked that the bitfield has no byte for. -/
theorem exact_after_iff (total : Nat) (operations : List Operation) :
    (∀ before rest, operations = before ++ rest → ((PieceProgress.new total).after before).Exact) ↔
      ∀ before operation rest, operations = before ++ operation :: rest →
        ((PieceProgress.new total).after before).Reaches operation := by
  constructor
  · intro h before operation rest hsplit
    have hnext := h (before ++ [operation]) rest (by simp [hsplit])
    rw [after, List.foldl_append] at hnext
    exact (exact_apply_iff (h before _ hsplit) operation).mp hnext
  · intro h before
    induction before using List.reverseRecOn with
    | nil => exact fun _ _ => exact_new total
    | append_singleton before operation ih =>
      intro rest hsplit
      rw [List.append_assoc] at hsplit
      rw [after, List.foldl_append]
      exact (exact_apply_iff (ih _ hsplit) operation).mpr (h before operation rest hsplit)

end

/-- A piece of a bitfield without bytes is counted twice. -/
theorem pieces_have_twice :
    let progress := (PieceProgress.new 0).after [.ReplaceFromBitfield ⟨[]⟩ 2, .HavePiece 0, .HavePiece 0]
    progress.pieces_have = 2 ∧ progress.pieces_set = 0 ∧ progress.is_complete = true := by decide

end swarmotter.torrent.PieceProgress

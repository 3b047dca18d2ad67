import Swarmotter.Bytes

namespace swarmotter.peer

def BLOCK_SIZE : Nat := 16 * 1024

/-- How many blocks a piece has. -/
def blocks_for (piece_length : Nat) : Nat := (piece_length + BLOCK_SIZE - 1) / BLOCK_SIZE

/-- The loop of `block_requests`, for which the number of blocks is fuel enough. -/
def block_requests_from (piece_length : Nat) : Nat → Nat → Vec (Nat × Nat)
  | 0, _ => []
  | fuel + 1, offset =>
    if offset < piece_length then
      let len := min BLOCK_SIZE (piece_length - offset)
      (offset, len) :: block_requests_from piece_length fuel (offset + len)
    else []

/-- The offset and the length of each block of a piece. -/
def block_requests (piece_length : Nat) : Vec (Nat × Nat) :=
  block_requests_from piece_length (blocks_for piece_length) 0

/-- The blocks of a piece that have been received, in any order. -/
structure PieceAssembler where
  piece_index : Nat
  piece_length : Nat
  buf : Bytes
  received : Vec Bool
  received_count : Nat
  deriving DecidableEq

namespace PieceAssembler

def new (piece_index piece_length : Nat) : PieceAssembler where
  piece_index
  piece_length
  buf := List.replicate piece_length 0
  received := List.replicate (blocks_for piece_length) false
  received_count := 0

/-- The block is taken, and whether the piece is complete now. -/
def add_block (self : PieceAssembler) (offset : Nat) (block : Bytes) : Result (Bool × PieceAssembler) := do
  let _ ← reject_if (offset ≥ self.piece_length)
    (.Parse s!"block offset {offset} out of range for piece length {self.piece_length}")
  let stop := offset + block.length
  let _ ← reject_if (stop > self.piece_length)
    (.Parse s!"block end {stop} exceeds piece length {self.piece_length}")
  let block_index := offset / BLOCK_SIZE
  let new_block := self.received[block_index]? = some false
  let received := if new_block then self.received.set block_index true else self.received
  let received_count := if new_block then self.received_count + 1 else self.received_count
  pure (decide (received_count = received.length),
    { self with buf := self.buf.take offset ++ block ++ self.buf.drop stop, received, received_count })

def data (self : PieceAssembler) : Bytes := self.buf.take self.piece_length

end PieceAssembler

/-! The requests are those of the blocks in their order. -/

theorem block_requests_from_eq (piece_length fuel first : Nat) (h : first + fuel = blocks_for piece_length) :
    block_requests_from piece_length fuel (first * BLOCK_SIZE) =
      (List.range' first fuel).map fun i => (i * BLOCK_SIZE, min BLOCK_SIZE (piece_length - i * BLOCK_SIZE)) := by
  induction fuel generalizing first with
  | zero => rfl
  | succ fuel ih =>
    have hblock : first * BLOCK_SIZE < piece_length := by
      unfold blocks_for BLOCK_SIZE at *
      omega
    rw [block_requests_from, if_pos hblock, List.range'_succ, List.map_cons]
    dsimp only
    congr 1
    by_cases hfull : BLOCK_SIZE ≤ piece_length - first * BLOCK_SIZE
    · rw [min_eq_left hfull, ← Nat.succ_mul]
      exact ih (first + 1) (by omega)
    · -- the last block is a short one
      have hlast : fuel = 0 := by
        unfold blocks_for BLOCK_SIZE at *
        omega
      rw [hlast]
      rfl

theorem block_requests_eq (piece_length : Nat) :
    block_requests piece_length = (List.range (blocks_for piece_length)).map fun i =>
      (i * BLOCK_SIZE, min BLOCK_SIZE (piece_length - i * BLOCK_SIZE)) := by
  have h := block_requests_from_eq piece_length (blocks_for piece_length) 0 (Nat.zero_add _)
  rw [Nat.zero_mul, ← List.range_eq_range'] at h
  exact h

end swarmotter.peer

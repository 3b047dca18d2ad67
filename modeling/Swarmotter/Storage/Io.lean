import Swarmotter.Lib.Extents
import Swarmotter.Lib.Trial
import Swarmotter.Storage.Disk

open swarmotter.meta extents

namespace swarmotter.storage

/-- The part of a file that a byte range of the torrent covers. -/
structure FileSlice where
  file_index : Nat
  offset_in_file : Nat
  length : Nat
  deriving DecidableEq, Repr

/-- A plain subtraction below zero. No code path returns this error: it stands for the overflow
    itself, so that a result that is not an error has no such subtraction. -/
def overflow : CoreError := .Internal "arithmetic overflow"

/-- The loop over the files that maps the range from `start` to `stop`. The next file has the
    index `index` and begins at `offset`. -/
def file_slices (layout_overflow : Nat → CoreError) (start stop : Nat) :
    Nat → Nat → Vec MetaFile → Result (Vec FileSlice)
  | _, _, [] => pure []
  | index, offset, file :: files => do
    let file_end ← ok_or (checked_add offset file.length) (layout_overflow index)
    if file_end > start ∧ offset < stop then do
      let slice_start ← ok_or (checked_sub (max offset start) offset) overflow
      let slice_end ← ok_or (checked_sub (min file_end stop) offset) overflow
      let length ← ok_or (checked_sub slice_end slice_start) overflow
      let out ← file_slices layout_overflow start stop (index + 1) file_end files
      pure (⟨index, slice_start, length⟩ :: out)
    else file_slices layout_overflow start stop (index + 1) file_end files

/-- The file ranges of a piece. A piece that does not exist covers none. -/
def piece_file_ranges (torrent : TorrentMeta) (piece_index : Nat) : Result (Vec FileSlice) :=
  match torrent.piece_byte_range piece_index with
  | none => pure []
  | some (start, stop) => file_slices
    (fun file_index => .MalformedTorrent s!"file offset overflow at file index {file_index}")
    start stop 0 0 torrent.files

def byte_ranges_to_file_slices (torrent : TorrentMeta) (start stop : Nat) : Result (Vec FileSlice) := do
  let _ ← reject_if (start > stop ∨ stop > torrent.total_length)
    (.Storage s!"byte range {start}..{stop} is outside torrent length {torrent.total_length}")
  file_slices (fun i => .Storage s!"file layout overflows at file index {i}") start stop 0 0 torrent.files

def FileSlice.extent (slice : FileSlice) : Extent :=
  ⟨slice.file_index, slice.offset_in_file, slice.length⟩

def FileSlice.of_extent (extent : Extent) : FileSlice :=
  ⟨extent.segment, extent.offset, extent.length⟩

/-- The lengths of the files, one after another in the torrent's data. -/
abbrev lengths (torrent : TorrentMeta) : Vec Nat := torrent.files.map MetaFile.length

/-- The cells of slices: the index of a file and an offset in it. -/
def slice_cells (slices : Vec FileSlice) : Vec (Nat × Nat) := cells (slices.map FileSlice.extent)

section
variable {sha : Sha} {torrent : TorrentMeta} {files : Vec MetaFile} {start stop : Nat}

theorem map_extent_of_extent (found : List Extent) : (found.map FileSlice.of_extent).map FileSlice.extent = found := by
  rw [List.map_map]
  exact List.map_id found

/-- The loop cuts the range, and none of its arithmetic overflows. -/
theorem file_slices_eq_ok (layout_overflow : Nat → CoreError) (hrange : start ≤ stop) (index offset : Nat)
    (hfits : offset + (files.map MetaFile.length).sum ≤ usize.MAX) :
    file_slices layout_overflow start stop index offset files =
      .ok ((cut start stop index offset (files.map MetaFile.length)).map FileSlice.of_extent) := by
  induction files generalizing index offset with
  | nil => rfl
  | cons file files ih =>
    rw [List.map_cons, List.sum_cons] at hfits
    have hend : checked_add offset file.length = some (offset + file.length) :=
      checked_add_eq_some_iff.mpr ⟨by omega, rfl⟩
    have ih := ih (index + 1) (offset + file.length) (by omega)
    rw [file_slices, hend, List.map_cons, cut]
    simp only [ok_or, bind_ok]
    by_cases hin : start < offset + file.length ∧ offset < stop
    · have hstart : checked_sub (max offset start) offset = some (max offset start - offset) :=
        checked_sub_eq_some_iff.mpr ⟨by omega, rfl⟩
      have hstop : checked_sub (min (offset + file.length) stop) offset =
          some (min (offset + file.length) stop - offset) :=
        checked_sub_eq_some_iff.mpr ⟨by omega, rfl⟩
      have hlength : checked_sub (min (offset + file.length) stop - offset) (max offset start - offset) =
          some (min (offset + file.length) stop - max offset start) :=
        checked_sub_eq_some_iff.mpr ⟨by omega, by omega⟩
      rw [if_pos hin, if_pos hin, hstart, hstop, List.map_cons]
      simp only [hlength, bind_ok, ih]
      rfl
    · rw [if_neg hin, if_neg hin, ih]

theorem slice_cells_of_cut (start stop : Nat) (torrent : TorrentMeta) :
    slice_cells ((cut start stop 0 0 (lengths torrent)).map FileSlice.of_extent) =
      cells (cut start stop 0 0 (lengths torrent)) := by
  rw [slice_cells, map_extent_of_extent]

/-- The slices of a byte range of a valid torrent. -/
theorem byte_ranges_to_file_slices_eq_ok (hvalid : Valid sha torrent) (hrange : start ≤ stop)
    (hstop : stop ≤ torrent.total_length) :
    byte_ranges_to_file_slices torrent start stop =
      .ok ((cut start stop 0 0 (lengths torrent)).map FileSlice.of_extent) := by
  have hfits : 0 + (torrent.files.map MetaFile.length).sum ≤ usize.MAX := by
    rw [hvalid.files.sum_length, Nat.zero_add]
    exact hvalid.files.total_le
  have hgood : ¬ (start > stop ∨ stop > torrent.total_length) := by omega
  rw [byte_ranges_to_file_slices, reject_if, if_neg hgood, bind_ok, file_slices_eq_ok _ hrange 0 0 hfits]

end

section
variable {sha : Sha} {torrent : TorrentMeta} {index : Nat}

/-- The pieces of valid version 1 metadata: their ranges are the windows of the piece length. -/
structure PieceRange (torrent : TorrentMeta) (index start stop : Nat) : Prop where
  range : torrent.piece_byte_range index = some (start, stop)
  start_eq : start = index * torrent.piece_length
  stop_eq : stop = min (start + torrent.piece_length) torrent.total_length
  start_lt : start < stop
  stop_le : stop ≤ torrent.total_length

theorem piece_byte_range_eq (hindex : index < torrent.piece_count) :
    torrent.piece_byte_range index = some (index * torrent.piece_length,
      min (index * torrent.piece_length + torrent.piece_length) torrent.total_length) := by
  have hin : ¬ index ≥ torrent.pieces.length := Nat.not_le.mpr hindex
  rw [TorrentMeta.piece_byte_range, if_neg hin]

theorem lt_piece_count_of_range {range : Nat × Nat} (h : torrent.piece_byte_range index = some range) :
    index < torrent.piece_count := by
  unfold TorrentMeta.piece_byte_range at h
  split at h
  · cases h
  · rename_i hin
    exact Nat.not_le.mp hin

section
variable (hvalid : Valid sha torrent) (hpieces : V1Pieces torrent)
include hvalid hpieces

theorem lt_piece_count_iff : index < torrent.piece_count ↔ index * torrent.piece_length < torrent.total_length := by
  rw [TorrentMeta.piece_count, hpieces.count, div_ceil]
  exact slices.lt_div_ceil_iff hvalid.piece_length_pos

theorem PieceRange.of_lt (hindex : index < torrent.piece_count) :
    PieceRange torrent index (index * torrent.piece_length)
      (min (index * torrent.piece_length + torrent.piece_length) torrent.total_length) := by
  have hstart := (lt_piece_count_iff hvalid hpieces).mp hindex
  have hpos := hvalid.piece_length_pos
  exact ⟨piece_byte_range_eq hindex, rfl, rfl, by omega, by omega⟩

/-- The address of a piece and the one after its end are machine numbers. -/
theorem piece_address_le (hindex : index < torrent.piece_count) :
    index * torrent.piece_length + torrent.piece_length ≤ usize.MAX := by
  have hcount : index + 1 ≤ MAX_TORRENT_PIECES := Nat.le_trans hindex hpieces.count_le
  have hproduct := Nat.mul_le_mul hcount hvalid.piece_length_le
  rw [Nat.succ_mul] at hproduct
  exact hproduct.trans (by decide)

/-- The last piece has what the others leave. -/
theorem last_piece_length_eq (hlast : index + 1 = torrent.piece_count) :
    torrent.last_piece_length = torrent.total_length - index * torrent.piece_length ∧
      torrent.total_length ≤ index * torrent.piece_length + torrent.piece_length := by
  have hpos := hvalid.piece_length_pos
  have hlt : index * torrent.piece_length < torrent.total_length := (lt_piece_count_iff hvalid hpieces).mp (by omega)
  have hend : torrent.total_length ≤ index * torrent.piece_length + torrent.piece_length := by
    rw [← Nat.succ_mul]
    apply Nat.not_lt.mp
    intro hmore
    have := (lt_piece_count_iff hvalid hpieces).mpr hmore
    omega
  refine ⟨?_, hend⟩
  rw [TorrentMeta.last_piece_length, if_neg (by omega)]
  by_cases hfull : torrent.total_length = index * torrent.piece_length + torrent.piece_length
  · rw [hfull, ← Nat.succ_mul, Nat.mul_mod_left, Nat.succ_mul, Nat.add_sub_cancel_left]
    rfl
  · have hquotient : torrent.total_length / torrent.piece_length = index := by
      apply Nat.div_eq_of_lt_le hlt.le
      rw [Nat.succ_mul]
      omega
    rw [Nat.mod_eq_sub_div_mul, hquotient]
    exact if_neg (by omega)

/-- Every piece but the last one has the piece length. -/
theorem piece_length_of_range {start stop : Nat} (hrange : PieceRange torrent index start stop) :
    (if index + 1 = torrent.piece_count then torrent.last_piece_length else torrent.piece_length) = stop - start := by
  have hindex := lt_piece_count_of_range hrange.range
  have hstart := hrange.start_eq
  have hstop := hrange.stop_eq
  by_cases hlast : index + 1 = torrent.piece_count
  · obtain ⟨hlen, hend⟩ := last_piece_length_eq hvalid hpieces hlast
    rw [if_pos hlast]
    omega
  · have hmore : (index + 1) * torrent.piece_length < torrent.total_length :=
      (lt_piece_count_iff hvalid hpieces).mp (by omega)
    rw [Nat.succ_mul] at hmore
    rw [if_neg hlast]
    omega

/-- The declared length of a piece is the length of its range. -/
theorem piece_length_for_index_u32_eq {start stop : Nat} (hrange : PieceRange torrent index start stop) :
    torrent.piece_length_for_index_u32 index = .ok (stop - start) := by
  have hindex := lt_piece_count_of_range hrange.range
  have hcount : torrent.piece_count ≤ usize.MAX := hpieces.count_le.trans (by decide)
  have hnext : checked_add index 1 = some (index + 1) := checked_add_eq_some_iff.mpr ⟨by omega, rfl⟩
  rw [TorrentMeta.piece_length_for_index_u32_eq_ok hvalid.piece_length_pos hvalid.piece_length_le hindex, hnext]
  simp only [Option.some.injEq]
  exact congrArg Except.ok (piece_length_of_range hvalid hpieces hrange)

end

end

/-- The pieces on disk, one bit a piece, the high bit of a byte first. -/
structure PieceBitfield where
  bytes : Bytes
  deriving DecidableEq, Repr

namespace PieceBitfield

/-- `1 << bit` for the bit of a piece in its byte. -/
def mask (index : Nat) : UInt8 := 1 <<< UInt8.ofNat (7 - index % 8)

def new (piece_count : Nat) : PieceBitfield := ⟨List.replicate ((piece_count + 7) / 8) 0⟩

/-- A piece beyond the last byte is ignored. -/
def set (self : PieceBitfield) (index : Nat) : PieceBitfield :=
  ⟨self.bytes.modify (index / 8) (· ||| mask index)⟩

def has (self : PieceBitfield) (index : Nat) : Bool :=
  match self.bytes[index / 8]? with
  | some byte => byte &&& mask index ≠ 0
  | none => false

theorem toNat_mask (index : Nat) : (mask index).toNat = 2 ^ (7 - index % 8) := by
  have hbit : 7 - index % 8 < 8 := by omega
  have hpow : 2 ^ (7 - index % 8) < 2 ^ 8 := Nat.pow_lt_pow_right (by decide) hbit
  have hmod : (7 - index % 8) % 8 = 7 - index % 8 := Nat.mod_eq_of_lt hbit
  simpa [mask, UInt8.toNat_shiftLeft, hmod, Nat.one_shiftLeft] using hpow

theorem and_mask_ne_zero_iff (byte : UInt8) (index : Nat) :
    byte &&& mask index ≠ 0 ↔ byte.toNat.testBit (7 - index % 8) = true := by
  rw [Ne, ← UInt8.toNat_inj, UInt8.toNat_and, toNat_mask, Nat.and_two_pow]
  cases byte.toNat.testBit (7 - index % 8) <;> simp

variable {self : PieceBitfield} {index : Nat}

theorem has_eq_true_iff :
    self.has index = true ↔ ∃ byte, self.bytes[index / 8]? = some byte ∧ byte.toNat.testBit (7 - index % 8) = true := by
  unfold has
  cases self.bytes[index / 8]? with
  | none => simp
  | some byte => simpa using and_mask_ne_zero_iff byte index

theorem has_new (piece_count index : Nat) : (new piece_count).has index = false := by
  rw [← Bool.not_eq_true, has_eq_true_iff]
  rintro ⟨byte, hbyte, hbit⟩
  have hzero := List.mem_of_getElem? hbyte
  rw [List.eq_of_mem_replicate hzero] at hbit
  simp at hbit

/-- A piece whose byte is there can be marked. -/
theorem has_set (hindex : index / 8 < self.bytes.length) : (self.set index).has index = true := by
  rw [has_eq_true_iff]
  refine ⟨self.bytes[index / 8] ||| mask index, ?_, ?_⟩
  · simp [set, hindex]
  · simp [UInt8.toNat_or, toNat_mask, Nat.testBit_or]

/-- A piece that cannot be marked changes nothing. -/
theorem set_eq_self (h : (self.set index).has index = false) : self.set index = self := by
  have hbeyond : self.bytes.length ≤ index / 8 := by
    by_contra hindex
    rw [has_set (Nat.not_le.mp hindex)] at h
    exact nomatch h
  rw [set, List.modify_eq_self hbeyond]

/-- Setting a bit adds no other one. -/
theorem has_of_has_set {other : Nat} (h : (self.set index).has other = true) :
    other = index ∨ self.has other = true := by
  rw [has_eq_true_iff] at h
  obtain ⟨byte, hbyte, hbit⟩ := h
  simp only [set, List.getElem?_modify, Option.map_eq_map, Option.map_eq_some_iff] at hbyte
  obtain ⟨old, hold, rfl⟩ := hbyte
  rw [has_eq_true_iff]
  by_cases hsame : index / 8 = other / 8
  · rw [if_pos hsame, UInt8.toNat_or, toNat_mask, Nat.testBit_or, Nat.testBit_two_pow] at hbit
    cases Bool.or_eq_true_iff.mp hbit with
    | inl hbit => exact Or.inr ⟨old, hold, hbit⟩
    | inr hbit =>
      have hrem : 7 - index % 8 = 7 - other % 8 := of_decide_eq_true hbit
      exact Or.inl (by omega)
  · rw [if_neg hsame] at hbit
    exact Or.inr ⟨old, hold, hbit⟩

/-- Setting a bit takes no other one away. -/
theorem has_set_of_has {other : Nat} (h : self.has other = true) : (self.set index).has other = true := by
  obtain ⟨byte, hbyte, hbit⟩ := has_eq_true_iff.mp h
  rw [has_eq_true_iff]
  simp only [set, List.getElem?_modify, hbyte, Option.map_eq_map, Option.map_some]
  refine ⟨_, rfl, ?_⟩
  split
  · rw [UInt8.toNat_or, Nat.testBit_or, hbit, Bool.true_or]
  · exact hbit

end PieceBitfield

/-- Operations on the disk. A failed one may have written before it failed. -/
abbrev DiskM (α : Type) := trial.Trial Disk CoreError α

/-- The chunks of `data` that go to the slices, in their order. -/
def file_writes : Vec FileSlice → Bytes → Vec FileWrite
  | [], _ => []
  | slice :: slices, data =>
    ⟨slice.file_index, slice.offset_in_file, data.take slice.length⟩ ::
      file_writes slices (data.drop slice.length)

/-- Verify the SHA-1 hash of a piece against the metadata. -/
def verify_piece (sha : Sha) (torrent : TorrentMeta) (index : Nat) (data : Bytes) : Bool :=
  match torrent.pieces[index]? with
  | some expected => sha.sha1 data = expected
  | none => false

namespace StorageIo

/-- One turn of the loop of `write_file_slices`: open the file, seek and write the chunk. -/
def write_file (self : StorageIo) (write : FileWrite) : DiskM Unit := do
  let path ← trial.lift (self.file_path write.file_index)
  trial.modify fun disk => disk.write path write.offset write.bytes

/-- `mapped_len` of `write_file_slices`. -/
def mapped_len (slices : Vec FileSlice) : Result Nat :=
  slices.foldlM (fun total slice => ok_or (checked_add total slice.length)
    (.Storage "mapped storage write length overflow")) 0

/-- The part of `write_file_slices` before the first file is opened. -/
def plan_file_slices (self : StorageIo) (abs_start abs_end : Nat) (data : Bytes) :
    Result (Vec FileWrite) := do
  let range_len ← ok_or (checked_sub abs_end abs_start)
    (.Storage s!"invalid storage write range {abs_start}..{abs_end}")
  let data_len := data.length
  let _ ← reject_if (abs_end > self.torrent.total_length ∨ range_len ≠ data_len) (.Storage
    (s!"storage write range {abs_start}..{abs_end} does not match {data_len} bytes within torrent length " ++
      s!"{self.torrent.total_length}"))
  let slices ← byte_ranges_to_file_slices self.torrent abs_start abs_end
  let mapped_len ← mapped_len slices
  let _ ← reject_if (mapped_len ≠ data_len)
    (.Storage s!"storage write mapped {mapped_len} of {data_len} bytes")
  pure (file_writes slices data)

def write_file_slices (self : StorageIo) (abs_start abs_end : Nat) (data : Bytes) : DiskM Unit := do
  let writes ← trial.lift (self.plan_file_slices abs_start abs_end data)
  trial.for_each self.write_file writes

def piece_range (self : StorageIo) (piece_index : Nat) : Result (Nat × Nat) :=
  ok_or (self.torrent.piece_byte_range piece_index) (.Storage s!"piece {piece_index} out of range")

def checked_piece_range (self : StorageIo) (piece_index offset data_len : Nat) : Result (Nat × Nat) := do
  let (piece_start, piece_end) ← self.piece_range piece_index
  let piece_len ← ok_or (checked_sub piece_end piece_start) overflow
  let _ ← reject_if (offset > piece_len)
    (.Storage s!"piece {piece_index} write offset {offset} exceeds piece length {piece_len}")
  let end_offset ← ok_or (checked_add offset data_len)
    (.Storage s!"piece {piece_index} write range overflows piece offset")
  let _ ← reject_if (end_offset > piece_len)
    (.Storage s!"piece {piece_index} write end {end_offset} exceeds piece length {piece_len}")
  let abs_start ← ok_or (checked_add piece_start offset)
    (.Storage s!"piece {piece_index} absolute write offset overflows")
  let abs_end ← ok_or (checked_add piece_start end_offset)
    (.Storage s!"piece {piece_index} absolute write end overflows")
  pure (abs_start, abs_end)

/-- Write a block of a piece. -/
def write_block (self : StorageIo) (piece_index offset : Nat) (block : Bytes) : DiskM Unit := do
  let (abs_start, abs_end) ← trial.lift (self.checked_piece_range piece_index offset block.length)
  self.write_file_slices abs_start abs_end block

def write_piece_range (self : StorageIo) (piece_index offset : Nat) (data : Bytes) : DiskM Unit := do
  let (abs_start, abs_end) ← trial.lift (self.checked_piece_range piece_index offset data.length)
  self.write_file_slices abs_start abs_end data

/-- The length check of `write_piece`. -/
def check_piece_length (self : StorageIo) (piece_index : Nat) (piece : Bytes) : Result Unit := do
  let (piece_start, piece_end) ← self.piece_range piece_index
  let expected_len ← ok_or (checked_sub piece_end piece_start) overflow
  let actual_len := piece.length
  reject_if (actual_len ≠ expected_len)
    (.Storage s!"piece {piece_index} write length {actual_len} does not match expected {expected_len}")

/-- Write a whole piece, which must have exactly its length. -/
def write_piece (self : StorageIo) (piece_index : Nat) (piece : Bytes) : DiskM Unit := do
  trial.lift (self.check_piece_length piece_index piece)
  self.write_piece_range piece_index 0 piece

/-- The loop of the reading functions. -/
def read_slices (self : StorageIo) (disk : Disk) : Vec FileSlice → Result Bytes
  | [] => pure []
  | slice :: slices => do
    let path ← self.file_path slice.file_index
    let buf ← disk.read_exact path slice.offset_in_file slice.length
    let out ← self.read_slices disk slices
    pure (buf ++ out)

def read_piece (self : StorageIo) (disk : Disk) (piece_index : Nat) : Result Bytes := do
  let (start, stop) ← self.piece_range piece_index
  let slices ← byte_ranges_to_file_slices self.torrent start stop
  self.read_slices disk slices

/-- Read a block of a piece, as it is served to peers. -/
def read_block (self : StorageIo) (disk : Disk) (piece_index offset length : Nat) : Result Bytes := do
  let (abs_start, abs_end) ← self.checked_piece_range piece_index offset length
  let slices ← byte_ranges_to_file_slices self.torrent abs_start abs_end
  let out ← self.read_slices disk slices
  let _ ← reject_if (out.length ≠ length)
    (.Storage s!"storage read returned {out.length} of {length} requested bytes")
  pure out

end StorageIo

end swarmotter.storage

import Swarmotter.Storage.Window
import Swarmotter.V2.Tiling

open swarmotter.meta swarmotter.v2

namespace swarmotter.storage

/-- Every file of the torrent is there with its length, as preallocation leaves it. -/
def StorageIo.LaidOut (self : StorageIo) (disk : Disk) : Prop :=
  ∀ index file path, self.torrent.files[index]? = some file → self.file_path index = .ok path →
    ∃ bytes, disk path = some bytes ∧ file.length ≤ bytes.length

/-- A read that a change of the disk does not affect. What it returned it still returns; on a disk
    that is laid out its result is the same in every case. A file that is shorter than its length
    may have been extended, so that a read past its old end may have become possible. -/
structure Unchanged (io : StorageIo) (before after : Disk) (read : Disk → Result Bytes) : Prop where
  kept : ∀ data, read before = .ok data → read after = .ok data
  same : io.LaidOut before → read after = read before

section
variable {sha : Sha} {io : StorageIo} {disk disk' : Disk} {start stop a b : Nat} {data : Bytes}

/-- Reading a range of a valid torrent. -/
def read_range (io : StorageIo) (start stop : Nat) (disk : Disk) : Result Bytes :=
  io.read_slices disk (range_slices io.torrent start stop)

theorem read_range_eq_ok_iff (hvalid : Valid sha io.torrent) (hstop : stop ≤ io.torrent.total_length) :
    read_range io start stop disk = .ok data ↔ data.length = stop - start ∧
      patch.Holds (io.cell disk) (range_patch io.torrent start stop data) := by
  rw [read_range, read_slices_eq_ok_iff, length_range_slices hvalid hstop]
  rfl

/-- The part of a range that is in place with the range. -/
theorem range_patch_subset (hlow : start ≤ a) (hhigh : b ≤ stop) :
    range_patch io.torrent a b ((data.drop (a - start)).take (b - a)) ⊆ range_patch io.torrent start stop data := by
  rintro ⟨cell, value⟩ hmem
  cases cell with
  | Exists file_index =>
    obtain ⟨rfl, slice, hslice, rfl⟩ := exists_mem_file_writes.mp hmem
    obtain ⟨extent, hextent, rfl⟩ := List.mem_map.mp hslice
    obtain ⟨wider, hwider, hsame⟩ := extents.segment_mem_cut hlow hhigh hextent
    exact exists_mem_file_writes.mpr ⟨rfl, _, List.mem_map_of_mem hwider, hsame⟩
  | Byte file_index offset =>
    obtain ⟨i, byte, hcell, hbyte, rfl⟩ := byte_mem_file_writes.mp hmem
    rw [slice_cells_range, extents.getElem?_cells_cut] at hcell
    obtain ⟨haddress, hlt⟩ := hcell
    rw [List.getElem?_take_of_lt (by omega), List.getElem?_drop] at hbyte
    refine byte_mem_file_writes.mpr ⟨a - start + i, byte, ?_, hbyte, rfl⟩
    have hsame : start + (a - start + i) = a + i := by omega
    rw [slice_cells_range, extents.getElem?_cells_cut, hsame]
    exact ⟨haddress, by omega⟩

theorem agree_disjoint_ranges (h : stop ≤ a ∨ b ≤ start) (data data' : Bytes) :
    patch.Agree (range_patch io.torrent start stop data) (range_patch io.torrent a b data') := by
  apply agree_of_disjoint
  rw [slice_cells_range, slice_cells_range]
  exact extents.disjoint_cells_cut h

/-- On a disk that is laid out every range can be read. -/
theorem exists_read_range (hvalid : Valid sha io.torrent) (hsuffix : io.SuffixValid) (hlaid : io.LaidOut disk)
    (start stop : Nat) : ∃ data, read_range io start stop disk = .ok data := by
  have hslices : ∀ slices : Vec FileSlice, (∀ slice ∈ slices, ∃ file, io.torrent.files[slice.file_index]? = some file ∧
      slice.offset_in_file + slice.length ≤ file.length) → ∃ data, io.read_slices disk slices = .ok data := by
    intro slices
    induction slices with
    | nil => exact fun _ => ⟨[], rfl⟩
    | cons slice slices ih =>
      intro hinside
      obtain ⟨file, hfile, hin⟩ := hinside slice List.mem_cons_self
      obtain ⟨out, hout⟩ := ih fun later hlater => hinside later (List.mem_cons_of_mem _ hlater)
      obtain ⟨path, hpath⟩ : ∃ path, io.file_path slice.file_index = .ok path :=
        ⟨_, (file_path_eq_ok_iff hvalid).mpr ⟨file, hfile, hsuffix, rfl⟩⟩
      obtain ⟨bytes, hbytes, hlength⟩ := hlaid slice.file_index file path hfile hpath
      have hlen : ((bytes.drop slice.offset_in_file).take slice.length).length = slice.length := by
        rw [List.length_take, List.length_drop]
        omega
      have hread : disk.read_exact path slice.offset_in_file slice.length =
          .ok ((bytes.drop slice.offset_in_file).take slice.length) := by
        simp only [Disk.read_exact, hbytes]
        rw [if_pos hlen]
      refine ⟨(bytes.drop slice.offset_in_file).take slice.length ++ out, ?_⟩
      rw [StorageIo.read_slices, hpath, bind_ok, hread, bind_ok, hout]
      rfl
  apply hslices
  intro slice hslice
  obtain ⟨extent, hextent, rfl⟩ := List.mem_map.mp hslice
  obtain ⟨-, len, hlen, hin⟩ := extents.inside_cut hextent
  rw [Nat.sub_zero, List.getElem?_map, Option.map_eq_some_iff] at hlen
  obtain ⟨file, hfile, rfl⟩ := hlen
  exact ⟨file, hfile, hin⟩

/-- What a write of a range does to the reads of other ranges. -/
structure WroteRange (io : StorageIo) (before after : Disk) (start stop : Nat) (data : Bytes) : Prop where
  inside : ∀ a b, start ≤ a → a ≤ b → b ≤ stop →
    read_range io a b after = .ok ((data.drop (a - start)).take (b - a))
  outside : ∀ a b, b ≤ io.torrent.total_length → stop ≤ a ∨ b ≤ start →
    Unchanged io before after (read_range io a b)

theorem write_range_spec (hvalid : Valid sha io.torrent) (hsuffix : io.SuffixValid) (hrange : start ≤ stop)
    (hstop : stop ≤ io.torrent.total_length) (hdata : data.length = stop - start) (disk : Disk) :
    ∃ disk', io.write_file_slices start stop data disk = (.ok (), disk') ∧
      WroteRange io disk disk' start stop data := by
  obtain ⟨disk', hrun, hheld, hkept⟩ := write_file_slices_spec hvalid hsuffix hrange hstop hdata disk
  refine ⟨disk', hrun, ⟨fun a b hlow hab hhigh => ?_, fun a b hb hdisjoint => ?_⟩⟩
  · rw [read_range_eq_ok_iff hvalid (by omega)]
    refine ⟨?_, fun cell value hmem => hheld cell value (range_patch_subset hlow hhigh hmem)⟩
    rw [List.length_take, List.length_drop]
    omega
  · have hread : ∀ out, read_range io a b disk = .ok out → read_range io a b disk' = .ok out := by
      intro out hout
      rw [read_range_eq_ok_iff hvalid hb] at hout ⊢
      exact ⟨hout.1, hkept _ (agree_disjoint_ranges hdisjoint data out) hout.2⟩
    refine ⟨hread, fun hlaid => ?_⟩
    obtain ⟨out, hout⟩ := exists_read_range hvalid hsuffix hlaid a b
    rw [hout, hread out hout]

/-- The pieces of a torrent on the version 2 data plane are not in its version 1 table. -/
theorem v1_pieces_of_lt (hvalid : Valid sha io.torrent) {index : Nat} (hindex : index < io.torrent.piece_count) :
    V1Pieces io.torrent := by
  cases hplane : io.torrent.requires_v2_data_plane with
  | false => exact hvalid.v1_pieces hplane
  | true =>
    rw [TorrentMeta.piece_count, (hvalid.pure_v2 hplane).2] at hindex
    exact absurd hindex (Nat.not_lt_zero index)

section
variable {index offset length : Nat}

theorem piece_range_eq (hrange : PieceRange io.torrent index start stop) :
    io.piece_range index = .ok (start, stop) := by
  rw [StorageIo.piece_range, hrange.range]
  rfl

theorem check_piece_length_eq_ok (hrange : PieceRange io.torrent index start stop)
    (hdata : data.length = stop - start) : io.check_piece_length index data = .ok () := by
  have hsub : checked_sub stop start = some (stop - start) :=
    checked_sub_eq_some_iff.mpr ⟨Nat.le_of_lt hrange.start_lt, rfl⟩
  rw [StorageIo.check_piece_length, piece_range_eq hrange, bind_ok]
  dsimp only
  rw [hsub]
  exact reject_if_eq_ok_iff.mpr (by omega)

section
variable (hvalid : Valid sha io.torrent) (hrange : PieceRange io.torrent index start stop)
include hvalid hrange

theorem read_piece_eq : io.read_piece disk index = read_range io start stop disk := by
  rw [StorageIo.read_piece, piece_range_eq hrange, bind_ok]
  dsimp only
  rw [byte_ranges_to_file_slices_eq_ok hvalid (Nat.le_of_lt hrange.start_lt) hrange.stop_le]
  rfl

/-- The range checks of a block pass exactly when the block lies inside its piece. -/
theorem checked_piece_range_eq_ok_iff {range : Nat × Nat} :
    io.checked_piece_range index offset length = .ok range ↔
      offset + length ≤ stop - start ∧ range = (start + offset, start + offset + length) := by
  have hstart := hrange.start_lt
  have hstop := hrange.stop_le
  have hmax := hvalid.files.total_le
  simp only [StorageIo.checked_piece_range, piece_range_eq hrange, bind_ok, eq_ok_iff, checked_sub_eq_some_iff,
    checked_add_eq_some_iff]
  constructor
  · rintro ⟨len, ⟨-, rfl⟩, -, -, last, ⟨-, rfl⟩, -, hin, low, ⟨-, rfl⟩, high, ⟨-, rfl⟩, rfl⟩
    exact ⟨by omega, by rw [Nat.add_assoc]⟩
  · rintro ⟨hin, rfl⟩
    refine ⟨stop - start, ⟨by omega, rfl⟩, (), by omega, offset + length, ⟨by omega, rfl⟩, (), by omega,
      start + offset, ⟨by omega, rfl⟩, start + offset + length, ⟨by omega, by omega⟩, rfl⟩

theorem read_block_eq (hin : offset + length ≤ stop - start) :
    io.read_block disk index offset length = read_range io (start + offset) (start + offset + length) disk := by
  have hstart := hrange.start_lt
  have hstop := hrange.stop_le
  have hchecked := (checked_piece_range_eq_ok_iff hvalid hrange).mpr ⟨hin, rfl⟩
  have hslices : byte_ranges_to_file_slices io.torrent (start + offset) (start + offset + length) =
      .ok (range_slices io.torrent (start + offset) (start + offset + length)) :=
    byte_ranges_to_file_slices_eq_ok hvalid (by omega) (by omega)
  rw [StorageIo.read_block, hchecked, bind_ok]
  dsimp only
  rw [hslices, bind_ok, ← read_range]
  cases hread : read_range io (start + offset) (start + offset + length) disk with
  | error e => rfl
  | ok out =>
    obtain ⟨hlength, -⟩ := (read_range_eq_ok_iff hvalid (by omega)).mp hread
    have hwhole : ¬ out.length ≠ length := by omega
    rw [bind_ok, reject_if, if_neg hwhole]
    rfl

/-- A whole piece is written as its range. -/
theorem write_piece_eq (hdata : data.length = stop - start) :
    io.write_piece index data disk = io.write_file_slices start stop data disk := by
  have hchecked := (checked_piece_range_eq_ok_iff hvalid hrange).mpr
    ⟨Nat.le_of_eq ((Nat.zero_add _).trans hdata), rfl⟩
  have hstop : start + 0 + data.length = stop := by
    have := hrange.start_lt
    omega
  rw [hstop, Nat.add_zero] at hchecked
  have hlength : (trial.lift (io.check_piece_length index data) : DiskM Unit) disk = (.ok (), disk) := by
    rw [check_piece_length_eq_ok hrange hdata]
    rfl
  have hlift : (trial.lift (io.checked_piece_range index 0 data.length) : DiskM (Nat × Nat)) disk =
      (.ok (start, stop), disk) := by
    rw [hchecked]
    rfl
  rw [StorageIo.write_piece, trial.bind_of_ok hlength, StorageIo.write_piece_range, trial.bind_of_ok hlift]

/-- A whole piece is written and read back. -/
theorem write_piece_spec (hsuffix : io.SuffixValid) (hdata : data.length = stop - start) (disk : Disk) :
    ∃ disk', io.write_piece index data disk = (.ok (), disk') ∧ io.read_piece disk' index = .ok data ∧
      WroteRange io disk disk' start stop data := by
  have hle := Nat.le_of_lt hrange.start_lt
  obtain ⟨disk', hrun, hwrote⟩ := write_range_spec hvalid hsuffix hle hrange.stop_le hdata disk
  refine ⟨disk', (write_piece_eq hvalid hrange hdata).trans hrun, ?_, hwrote⟩
  rw [read_piece_eq hvalid hrange, hwrote.inside start stop (Nat.le_refl _) hle (Nat.le_refl _),
    Nat.sub_self, List.drop_zero, ← hdata, List.take_length]

theorem write_block_eq (hin : offset + data.length ≤ stop - start) :
    io.write_block index offset data disk =
      io.write_file_slices (start + offset) (start + offset + data.length) data disk := by
  have hlift : (trial.lift (io.checked_piece_range index offset data.length) : DiskM (Nat × Nat)) disk =
      (.ok (start + offset, start + offset + data.length), disk) := by
    rw [(checked_piece_range_eq_ok_iff hvalid hrange).mpr ⟨hin, rfl⟩]
    rfl
  rw [StorageIo.write_block, trial.bind_of_ok hlift]

end

/-- The ranges of different pieces do not overlap. -/
theorem PieceRange.disjoint {other start' stop' : Nat} (hrange : PieceRange io.torrent index start stop)
    (hother : PieceRange io.torrent other start' stop') (hne : other ≠ index) : stop ≤ start' ∨ stop' ≤ start := by
  have hstart := hrange.start_eq
  have hstop := hrange.stop_eq
  have hstart' := hother.start_eq
  have hstop' := hother.stop_eq
  cases Nat.lt_or_gt_of_ne hne with
  | inl hlt =>
    have hproduct := Nat.mul_le_mul_right io.torrent.piece_length (Nat.succ_le_of_lt hlt)
    rw [Nat.succ_mul] at hproduct
    omega
  | inr hgt =>
    have hproduct := Nat.mul_le_mul_right io.torrent.piece_length (Nat.succ_le_of_lt hgt)
    rw [Nat.succ_mul] at hproduct
    omega

/-- A read whose checks fail does not look at the disk. -/
theorem Unchanged.of_const {read : Disk → Result Bytes} (h : read disk' = read disk) : Unchanged io disk disk' read :=
  ⟨fun _ hread => h.trans hread, fun _ => h⟩

/-- A write inside one piece leaves the others alone. -/
theorem WroteRange.read_piece (hvalid : Valid sha io.torrent) (hpieces : V1Pieces io.torrent)
    (hrange : PieceRange io.torrent index start stop) (hwrote : WroteRange io disk disk' a b data)
    (hlow : start ≤ a) (hhigh : b ≤ stop) {other : Nat} (hne : other ≠ index) :
    Unchanged io disk disk' fun d => io.read_piece d other := by
  by_cases hother : other < io.torrent.piece_count
  · have hrange' := PieceRange.of_lt hvalid hpieces hother
    have hdisjoint := hrange.disjoint hrange' hne
    simp only [read_piece_eq hvalid hrange']
    exact hwrote.outside _ _ hrange'.stop_le (by omega)
  · have hnone : io.torrent.piece_byte_range other = none := if_pos (Nat.not_lt.mp hother)
    apply Unchanged.of_const
    simp only [StorageIo.read_piece, StorageIo.piece_range, hnone]
    rfl

/-- A write inside one piece leaves the blocks of the piece that it does not meet alone. -/
theorem WroteRange.read_block (hvalid : Valid sha io.torrent) (hrange : PieceRange io.torrent index start stop)
    (hwrote : WroteRange io disk disk' (start + a) (start + b) data) (hdisjoint : offset + length ≤ a ∨ b ≤ offset) :
    Unchanged io disk disk' fun d => io.read_block d index offset length := by
  by_cases hin : offset + length ≤ stop - start
  · have hstop := hrange.stop_le
    have hstart := hrange.start_lt
    simp only [read_block_eq hvalid hrange hin]
    exact hwrote.outside _ _ (by omega) (by omega)
  · apply Unchanged.of_const
    cases hchecked : io.checked_piece_range index offset length with
    | error e => simp only [StorageIo.read_block, hchecked, bind_error]
    | ok range => exact absurd ((checked_piece_range_eq_ok_iff hvalid hrange).mp hchecked).1 hin

end

/-- A piece that has a length is a range of the concatenated files. -/
theorem range_of_piece_length (hvalid : Valid sha io.torrent) {index length : Nat}
    (h : io.torrent.piece_length_for_index_u32 index = .ok length) :
    V1Pieces io.torrent ∧ ∃ start stop, PieceRange io.torrent index start stop ∧ length = stop - start := by
  have hindex : index < io.torrent.piece_count := by
    simp only [TorrentMeta.piece_length_for_index_u32, eq_ok_iff] at h
    obtain ⟨-, -, -, hin, -⟩ := h
    omega
  have hpieces := v1_pieces_of_lt hvalid hindex
  have hrange := PieceRange.of_lt hvalid hpieces hindex
  exact ⟨hpieces, _, _, hrange, Except.ok.inj (h.symm.trans (piece_length_for_index_u32_eq hvalid hpieces hrange))⟩

/-- Writing a piece of an accepted torrent stores it: it is read back as a whole and block by block,
    and every other piece that could be read reads as before. Writing a block does the same for that block, and leaves
    the rest of its piece and every other piece as they were. -/
theorem write_then_read {bytes : Bytes} (hparse : parse_torrent sha bytes = .ok io.torrent)
    (hsuffix : io.SuffixValid) (disk : Disk) {piece_index piece_length : Nat}
    (hpiece : io.torrent.piece_length_for_index_u32 piece_index = .ok piece_length) :
    (∀ data : Bytes, data.length = piece_length →
      ∃ disk', io.write_piece piece_index data disk = (.ok (), disk') ∧
        io.read_piece disk' piece_index = .ok data ∧
        (∀ offset length, offset + length ≤ piece_length →
          io.read_block disk' piece_index offset length = .ok ((data.drop offset).take length)) ∧
        ∀ other, other ≠ piece_index → Unchanged io disk disk' fun d => io.read_piece d other) ∧
    (∀ (offset : Nat) (block : Bytes), offset + block.length ≤ piece_length →
      ∃ disk', io.write_block piece_index offset block disk = (.ok (), disk') ∧
        (∀ inner length, inner + length ≤ block.length →
          io.read_block disk' piece_index (offset + inner) length = .ok ((block.drop inner).take length)) ∧
        (∀ other length, other + length ≤ offset ∨ offset + block.length ≤ other →
          Unchanged io disk disk' fun d => io.read_block d piece_index other length) ∧
        ∀ other, other ≠ piece_index → Unchanged io disk disk' fun d => io.read_piece d other) := by
  have hvalid := parse_torrent_valid hparse
  obtain ⟨hpieces, start, stop, hrange, hlength⟩ := range_of_piece_length hvalid hpiece
  have hstart := hrange.start_lt
  have hstop := hrange.stop_le
  constructor
  · intro data hdata
    have hdata : data.length = stop - start := hdata.trans hlength
    obtain ⟨disk', hrun, hread, hwrote⟩ := write_piece_spec hvalid hrange hsuffix hdata disk
    refine ⟨disk', hrun, hread, ?_, fun other hne =>
      hwrote.read_piece hvalid hpieces hrange (Nat.le_refl start) (Nat.le_refl stop) hne⟩
    intro offset length hin
    rw [read_block_eq hvalid hrange (by omega), hwrote.inside _ _ (by omega) (by omega) (by omega),
      Nat.add_sub_cancel_left, Nat.add_sub_cancel_left]
  · intro offset block hin
    have hlen : block.length = start + offset + block.length - (start + offset) := by omega
    obtain ⟨disk', hrun, hwrote⟩ := write_range_spec hvalid hsuffix (Nat.le_add_right (start + offset) block.length)
      (by omega) hlen disk
    refine ⟨disk', (write_block_eq hvalid hrange (by omega)).trans hrun, ?_, ?_, fun other hne =>
      hwrote.read_piece hvalid hpieces hrange (by omega) (by omega) hne⟩
    · intro inner length hinner
      rw [read_block_eq hvalid hrange (by omega), hwrote.inside _ _ (by omega) (by omega) (by omega)]
      have hfirst : start + (offset + inner) - (start + offset) = inner := by omega
      rw [hfirst, Nat.add_sub_cancel_left]
    · intro other length hdisjoint
      rw [Nat.add_assoc] at hwrote
      exact hwrote.read_block hvalid hrange hdisjoint

theorem three_files_second_piece : ∃ torrent, parse_torrent Sha.leading three_files = .ok torrent ∧
    torrent.piece_length_for_index_u32 1 = .ok 2 :=
  bind_eq_ok_iff.mp (by decide +kernel)

/-- The second piece lies in two files, with an empty one between them. -/
theorem write_then_read_second_piece : ∃ torrent disk, parse_torrent Sha.leading three_files = .ok torrent ∧
    (StorageIo.new torrent ["srv"]).write_piece 1 [7, 8] (fun _ => none) = (.ok (), disk) ∧
    (StorageIo.new torrent ["srv"]).read_piece disk 1 = .ok [7, 8] := by
  obtain ⟨torrent, hparse, hpiece⟩ := three_files_second_piece
  have hsuffix : (StorageIo.new torrent ["srv"]).SuffixValid := fun suffix h => by cases h
  obtain ⟨disk, hwrite, hread, -⟩ := (write_then_read hparse hsuffix (fun _ => none) hpiece).1 [7, 8] rfl
  exact ⟨torrent, disk, hparse, hwrite, hread⟩

/-- A write extends a file that is missing, and another piece of it can be read then. -/
theorem write_extends_other_piece : ∃ torrent disk, parse_torrent Sha.leading three_files = .ok torrent ∧
    (StorageIo.new torrent ["srv"]).write_piece 1 [7, 8] (fun _ => none) = (.ok (), disk) ∧
    (StorageIo.new torrent ["srv"]).read_piece (fun _ => none) 0 =
      .error (.Io "No such file or directory (os error 2)") ∧
    (StorageIo.new torrent ["srv"]).read_piece disk 0 = .ok [0, 0] := by
  have hrun : (parse_torrent Sha.leading three_files >>= fun torrent =>
      let io := StorageIo.new torrent ["srv"]
      let written := io.write_piece 1 [7, 8] fun _ => none
      .ok (written.1, io.read_piece (fun _ => none) 0, io.read_piece written.2 0)) =
        .ok (.ok (), .error (.Io "No such file or directory (os error 2)"), .ok [0, 0]) := by
    decide +kernel
  obtain ⟨torrent, hparse, hreads⟩ := bind_eq_ok_iff.mp hrun
  simp only [Except.ok.injEq, Prod.mk.injEq] at hreads
  exact ⟨torrent, _, hparse, Prod.ext hreads.1 rfl, hreads.2⟩

end

/-- The data plane of a torrent: pieces over the concatenated files, or aligned to files. -/
inductive DataPlane where
  | V1
  | V2 (layout : V2PieceLayout)

/-- The storage of a valid torrent on the data plane that the engine runs it on. -/
structure Payload (sha : Sha) where
  io : StorageIo
  plane : DataPlane
  valid : Valid sha io.torrent
  plane_eq : match plane with
    | .V1 => io.torrent.requires_v2_data_plane = false
    | .V2 layout => io.torrent.requires_v2_data_plane = true ∧ V2PieceLayout.from_meta io.torrent = .ok layout

namespace Payload

variable {sha : Sha}

def piece_count (self : Payload sha) : Nat :=
  match self.plane with
  | .V1 => self.io.torrent.piece_count
  | .V2 layout => layout.piece_count

end Payload

end swarmotter.storage

import Swarmotter.Storage.Io

open swarmotter.meta extents patch

namespace swarmotter.storage

section
variable {sha : Sha} {io : StorageIo} {disk disk' : Disk} {slices : Vec FileSlice} {data : Bytes}
  {cell : Cell} {value : Option UInt8}

theorem getElem?_slice_cells_head {slice : FileSlice} {k : Nat} (hk : k < slice.length) :
    (slice_cells (slice :: slices))[k]? = some (slice.file_index, slice.offset_in_file + k) := by
  have hk' : k < slice.extent.length := hk
  have hin : k < slice.extent.cells.length := by
    rw [Extent.cells, List.length_map, List.length_range']
    exact hk'
  rw [slice_cells, List.map_cons, cells, List.flatMap_cons, List.getElem?_append_left hin,
    Extent.cells, List.getElem?_map, List.getElem?_range' hk', Option.map_some, Nat.one_mul]
  rfl

theorem getElem?_slice_cells_tail (slice : FileSlice) (slices : Vec FileSlice) (k : Nat) :
    (slice_cells (slice :: slices))[slice.length + k]? = (slice_cells slices)[k]? := by
  have hlen : slice.extent.cells.length = slice.length := by
    rw [Extent.cells, List.length_map, List.length_range']
    rfl
  rw [slice_cells, List.map_cons, cells, List.flatMap_cons, List.getElem?_append_right (by omega), hlen,
    Nat.add_sub_cancel_left]
  rfl

/-- The byte that the writes of `data` put in a cell is the one at its position. -/
theorem byte_mem_file_writes {file_index offset : Nat} :
    (.Byte file_index offset, value) ∈ writes_patch (file_writes slices data) ↔
      ∃ (i : Nat) (byte : UInt8), (slice_cells slices)[i]? = some (file_index, offset) ∧
        data[i]? = some byte ∧ value = some byte := by
  induction slices generalizing data with
  | nil => simp [file_writes, writes_patch, slice_cells, cells]
  | cons slice slices ih =>
    rw [file_writes, writes_patch, List.flatMap_cons, List.mem_append, FileWrite.patch, List.mem_append,
      ← writes_patch, ih, mem_byte_patch]
    have hmarker : (Cell.Byte file_index offset, value) ∉ [(Cell.Exists slice.file_index, (none : Option UInt8))] := by
      simp
    constructor
    · rintro ((⟨k, byte, hbyte, hcell, rfl⟩ | hmem) | ⟨i, byte, hcell, hbyte, rfl⟩)
      · obtain ⟨hk, -⟩ := List.getElem?_eq_some_iff.mp hbyte
        have hlt : k < slice.length := by
          rw [List.length_take] at hk
          omega
        simp only [Cell.Byte.injEq] at hcell
        obtain ⟨rfl, rfl⟩ := hcell
        rw [List.getElem?_take_of_lt hlt] at hbyte
        exact ⟨k, byte, getElem?_slice_cells_head hlt, hbyte, rfl⟩
      · exact absurd hmem hmarker
      · refine ⟨slice.length + i, byte, ?_, ?_, rfl⟩
        · rw [getElem?_slice_cells_tail]
          exact hcell
        · rw [← List.getElem?_drop]
          exact hbyte
    · rintro ⟨i, byte, hcell, hbyte, rfl⟩
      by_cases hlt : i < slice.length
      · rw [getElem?_slice_cells_head hlt, Option.some.injEq, Prod.mk.injEq] at hcell
        obtain ⟨rfl, rfl⟩ := hcell
        refine Or.inl (Or.inl ⟨i, byte, ?_, rfl, rfl⟩)
        rw [List.getElem?_take_of_lt hlt]
        exact hbyte
      · have hsplit : slice.length + (i - slice.length) = i := by omega
        refine Or.inr ⟨i - slice.length, byte, ?_, ?_, rfl⟩
        · rw [← getElem?_slice_cells_tail slice, hsplit]
          exact hcell
        · rw [List.getElem?_drop, hsplit]
          exact hbyte

/-- The files that the writes leave behind are those of the slices. -/
theorem exists_mem_file_writes {file_index : Nat} :
    (.Exists file_index, value) ∈ writes_patch (file_writes slices data) ↔
      value = none ∧ ∃ slice ∈ slices, slice.file_index = file_index := by
  induction slices generalizing data with
  | nil => simp [file_writes, writes_patch]
  | cons slice slices ih =>
    rw [file_writes, writes_patch, List.flatMap_cons, List.mem_append, FileWrite.patch, List.mem_append,
      ← writes_patch, ih, mem_byte_patch]
    simp only [List.mem_singleton, Prod.mk.injEq, Cell.Exists.injEq, List.exists_mem_cons_iff, reduceCtorEq,
      false_and, and_false, exists_false, false_or]
    constructor
    · rintro (⟨rfl, rfl⟩ | ⟨rfl, hlater⟩)
      · exact ⟨rfl, Or.inl rfl⟩
      · exact ⟨rfl, Or.inr hlater⟩
    · rintro ⟨rfl, rfl | hlater⟩
      · exact Or.inl ⟨rfl, rfl⟩
      · exact Or.inr ⟨rfl, hlater⟩

/-- Writes agree when they give no cell two different bytes. -/
theorem agree_file_writes {slices' : Vec FileSlice} {data' : Bytes}
    (h : ∀ (i j : Nat) (found : Nat × Nat) (byte byte' : UInt8), (slice_cells slices)[i]? = some found → data[i]? =
      some byte → (slice_cells slices')[j]? = some found → data'[j]? = some byte' → byte = byte') :
    Agree (writes_patch (file_writes slices data)) (writes_patch (file_writes slices' data')) := by
  intro cell v w hv hw
  cases cell with
  | Exists file_index =>
    obtain ⟨rfl, -⟩ := exists_mem_file_writes.mp hv
    obtain ⟨rfl, -⟩ := exists_mem_file_writes.mp hw
    rfl
  | Byte file_index offset =>
    obtain ⟨i, byte, hcell, hbyte, rfl⟩ := byte_mem_file_writes.mp hv
    obtain ⟨j, byte', hcell', hbyte', rfl⟩ := byte_mem_file_writes.mp hw
    rw [h i j _ byte byte' hcell hbyte hcell' hbyte']

/-- Writes to slices that share no byte agree. -/
theorem agree_of_disjoint {slices' : Vec FileSlice} (data data' : Bytes)
    (h : (slice_cells slices).Disjoint (slice_cells slices')) :
    Agree (writes_patch (file_writes slices data)) (writes_patch (file_writes slices' data')) := by
  apply agree_file_writes
  intro i j found byte byte' hcell _ hcell' _
  exact absurd (List.mem_of_getElem? hcell') (h (List.mem_of_getElem? hcell))

theorem agree_self_of_nodup (data : Bytes) (h : (slice_cells slices).Nodup) :
    Agree (writes_patch (file_writes slices data)) (writes_patch (file_writes slices data)) := by
  apply agree_file_writes
  intro i j found byte byte' hcell hbyte hcell' hbyte'
  obtain ⟨hi, -⟩ := List.getElem?_eq_some_iff.mp hcell
  have hsame : i = j := (List.getElem?_inj hi h).mp (hcell.trans hcell'.symm)
  subst hsame
  exact Option.some.inj (hbyte.symm.trans hbyte')

/-- Reading slices gives `data` exactly when the cells hold what writing `data` to them would have
    left. -/
theorem read_slices_eq_ok_iff :
    io.read_slices disk slices = .ok data ↔ data.length = (slices.map FileSlice.length).sum ∧
      Holds (io.cell disk) (writes_patch (file_writes slices data)) := by
  induction slices generalizing data with
  | nil =>
    simp only [StorageIo.read_slices, pure_eq_ok_iff, file_writes, writes_patch, List.map_nil,
      List.sum_nil, List.flatMap_nil, List.length_eq_zero_iff]
    constructor
    · rintro rfl
      exact ⟨rfl, nofun⟩
    · rintro ⟨rfl, -⟩
      rfl
  | cons slice slices ih =>
    simp only [StorageIo.read_slices, eq_ok_iff, ih, read_exact_eq_ok_iff]
    rw [file_writes, writes_patch, List.flatMap_cons, holds_append, ← writes_patch, FileWrite.patch,
      holds_append, List.map_cons, List.sum_cons]
    constructor
    · rintro ⟨path, hpath, buf, ⟨file, hfile, hbuf, hbytes⟩, out, ⟨hout, hrest⟩, rfl⟩
      have htake : (buf ++ out).take slice.length = buf := by
        rw [← hbuf, List.take_left]
      have hdrop : (buf ++ out).drop slice.length = out := by
        rw [← hbuf, List.drop_left]
      rw [htake, hdrop, List.length_append]
      refine ⟨by omega, ⟨?_, ?_⟩, hrest⟩
      · intro cell value hmem
        obtain ⟨k, byte, hbyte, rfl, rfl⟩ := mem_byte_patch.mp hmem
        exact (cell_byte_eq_some_iff hpath).mpr ⟨file, byte, hfile, hbytes k byte hbyte, rfl⟩
      · intro cell value hmem
        obtain ⟨rfl, rfl⟩ := Prod.mk.inj (List.mem_singleton.mp hmem)
        rw [cell_exists hpath, hfile]
        rfl
    · rintro ⟨hlength, ⟨hbytes, hexists⟩, hrest⟩
      have hfound := hexists _ _ (List.mem_singleton_self _)
      cases hpath : io.file_path slice.file_index with
      | error e => simp [StorageIo.cell, hpath] at hfound
      | ok path =>
        rw [cell_exists hpath] at hfound
        obtain ⟨file, hfile, -⟩ := Option.map_eq_some_iff.mp hfound
        refine ⟨path, rfl, data.take slice.length, ⟨file, hfile, ?_, ?_⟩, data.drop slice.length, ⟨?_, hrest⟩,
          List.take_append_drop _ _⟩
        · rw [List.length_take]
          omega
        · intro k byte hbyte
          have hheld := hbytes _ _ (mem_byte_patch.mpr ⟨k, byte, hbyte, rfl, rfl⟩)
          obtain ⟨file', byte', hfile', hbyte', heq⟩ := (cell_byte_eq_some_iff hpath).mp hheld
          obtain rfl : file = file' := Option.some.inj (hfile.symm.trans hfile')
          rw [hbyte', ← Option.some.inj heq]
        · rw [List.length_drop]
          omega

end

/-- Every byte of every file, as the index of the file and an offset in it. -/
def every_byte (torrent : TorrentMeta) : Vec (Nat × Nat) :=
  torrent.files.zipIdx.flatMap fun entry => (List.range entry.1.length).map fun offset => (entry.2, offset)

section
variable {sha : Sha} {torrent : TorrentMeta} {index : Nat}

theorem every_byte_eq_all_cells (torrent : TorrentMeta) : every_byte torrent = all_cells (lengths torrent) := by
  have hfiles : ∀ (files : Vec MetaFile) (index base : Nat),
      ((files.zipIdx index).flatMap fun entry => (List.range entry.1.length).map fun offset => (entry.2, offset)) =
        (addressed index base (files.map MetaFile.length)).map Prod.snd := by
    intro files
    induction files with
    | nil => exact fun _ _ => rfl
    | cons file files ih =>
      intro index base
      rw [List.zipIdx_cons, List.flatMap_cons, ih (index + 1) (base + file.length), List.map_cons,
        addressed, List.map_append, List.map_map]
      rfl
  exact hfiles torrent.files 0 0

/-- The slices of a piece are those of its byte range. -/
theorem piece_file_ranges_eq_ok (hvalid : Valid sha torrent) {start stop : Nat}
    (hrange : PieceRange torrent index start stop) :
    piece_file_ranges torrent index = .ok ((cut start stop 0 0 (lengths torrent)).map FileSlice.of_extent) := by
  have hfits : 0 + (torrent.files.map MetaFile.length).sum ≤ usize.MAX := by
    rw [hvalid.files.sum_length, Nat.zero_add]
    exact hvalid.files.total_le
  rw [piece_file_ranges, hrange.range]
  exact file_slices_eq_ok _ (Nat.le_of_lt hrange.start_lt) 0 0 hfits

/-- The slices that a range cuts out lie inside their files, come in file order and have the
    length of the range. -/
theorem slices_of_cut (hvalid : Valid sha torrent) {start stop : Nat} (hstop : stop ≤ torrent.total_length)
    {slices : Vec FileSlice} (hslices : slices = (cut start stop 0 0 (lengths torrent)).map FileSlice.of_extent) :
    (∀ slice ∈ slices, ∃ file, torrent.files[slice.file_index]? = some file ∧
      slice.offset_in_file + slice.length ≤ file.length) ∧
    slices.Pairwise (fun left right => left.file_index < right.file_index) ∧
    (slices.map FileSlice.length).sum = stop - start := by
  subst hslices
  refine ⟨?_, ?_, ?_⟩
  · intro slice hslice
    obtain ⟨extent, hextent, rfl⟩ := List.mem_map.mp hslice
    obtain ⟨-, len, hlen, hin⟩ := inside_cut hextent
    rw [Nat.sub_zero, List.getElem?_map, Option.map_eq_some_iff] at hlen
    obtain ⟨file, hfile, rfl⟩ := hlen
    exact ⟨file, hfile, hin⟩
  · rw [List.pairwise_map]
    exact pairwise_cut start stop 0 0 (lengths torrent)
  · have hlength := length_cells_cut start stop (lengths torrent)
    rw [length_cells, hvalid.files.sum_length, Nat.min_eq_right hstop] at hlength
    rw [List.map_map]
    exact hlength

/-- The pieces of an accepted version 1 or hybrid torrent. Their byte ranges follow each other from
    the start of the data to its end and have the declared piece lengths; the slices of each piece
    lie inside their files, in file order, and add up to the piece; and all of them together are
    every byte of every file once. No addition, subtraction or product of the computation
    overflows. -/
theorem pieces_partition_files {bytes : Bytes} (hparse : parse_torrent sha bytes = .ok torrent)
    (hplane : torrent.requires_v2_data_plane = false) :
    0 < torrent.piece_count ∧
    (∀ index < torrent.piece_count, ∃ start stop, torrent.piece_byte_range index = some (start, stop) ∧
      start ≤ stop ∧ (index = 0 → start = 0) ∧
      (∀ next, torrent.piece_byte_range (index + 1) = some next → next.1 = stop) ∧
      (index + 1 = torrent.piece_count → stop = torrent.total_length) ∧
      torrent.piece_length_for_index_u32 index = .ok (stop - start) ∧
      index * torrent.piece_length + torrent.piece_length ≤ usize.MAX ∧
      ∃ slices, piece_file_ranges torrent index = .ok slices ∧
        (∀ slice ∈ slices, ∃ file, torrent.files[slice.file_index]? = some file ∧
          slice.offset_in_file + slice.length ≤ file.length) ∧
        slices.Pairwise (fun left right => left.file_index < right.file_index) ∧
        (slices.map FileSlice.length).sum = stop - start) ∧
    (List.range torrent.piece_count).flatMap
      (fun index => slice_cells ((piece_file_ranges torrent index).toOption.getD [])) = every_byte torrent := by
  have hvalid := parse_torrent_valid hparse
  have hpieces := hvalid.v1_pieces hplane
  refine ⟨?_, ?_, ?_⟩
  · rw [lt_piece_count_iff hvalid hpieces, Nat.zero_mul]
    exact hvalid.total_length_pos
  · intro index hindex
    have hrange := PieceRange.of_lt hvalid hpieces hindex
    refine ⟨_, _, hrange.range, Nat.le_of_lt hrange.start_lt, ?_, ?_, ?_,
      piece_length_for_index_u32_eq hvalid hpieces hrange, piece_address_le hvalid hpieces hindex,
      _, piece_file_ranges_eq_ok hvalid hrange, slices_of_cut hvalid hrange.stop_le rfl⟩
    · rintro rfl
      exact Nat.zero_mul _
    · intro next hnext
      have hlt : (index + 1) * torrent.piece_length < torrent.total_length :=
        (lt_piece_count_iff hvalid hpieces).mp (lt_piece_count_of_range hnext)
      rw [piece_byte_range_eq (lt_piece_count_of_range hnext)] at hnext
      obtain rfl := Option.some.inj hnext
      rw [Nat.succ_mul] at hlt ⊢
      exact (Nat.min_eq_left (Nat.le_of_lt hlt)).symm
    · intro hlast
      obtain ⟨-, hend⟩ := last_piece_length_eq hvalid hpieces hlast
      exact Nat.min_eq_right hend
  · have hsum : (lengths torrent).sum = torrent.total_length := hvalid.files.sum_length
    have hcount : (lengths torrent).sum ≤ torrent.piece_count * torrent.piece_length := by
      rw [hsum, TorrentMeta.piece_count, hpieces.count, div_ceil, ← slices.div_ceil_le_iff hvalid.piece_length_pos]
    rw [every_byte_eq_all_cells, ← flatMap_cells_cut hcount]
    apply List.flatMap_congr
    intro index hindex
    have hrange := PieceRange.of_lt hvalid hpieces (List.mem_range.mp hindex)
    rw [piece_file_ranges_eq_ok hvalid hrange, hsum]
    exact slice_cells_of_cut _ _ torrent

/-- A torrent of three pieces over three files, the second of which is empty. -/
def three_files : Bytes := as_bytes
  ("d4:infod5:filesld6:lengthi3e4:pathl1:aeed6:lengthi0e4:pathl1:beed6:lengthi2e4:pathl1:ceee4:name1:t" ++
    "12:piece lengthi2e6:pieces60:aaaaaaaaaaaaaaaaaaaabbbbbbbbbbbbbbbbbbbbccccccccccccccccccccee")

theorem pieces_partition_files_three_files : ∃ torrent, parse_torrent Sha.leading three_files = .ok torrent ∧
    torrent.requires_v2_data_plane = false ∧
    (List.range torrent.piece_count).flatMap
      (fun index => slice_cells ((piece_file_ranges torrent index).toOption.getD [])) = every_byte torrent := by
  have hplane : (parse_torrent Sha.leading three_files).map TorrentMeta.requires_v2_data_plane = .ok false := by
    decide +kernel
  cases hparse : parse_torrent Sha.leading three_files with
  | error e =>
    rw [hparse] at hplane
    cases hplane
  | ok torrent =>
    rw [hparse] at hplane
    have hplane : torrent.requires_v2_data_plane = false := Except.ok.inj hplane
    exact ⟨torrent, rfl, hplane, (pieces_partition_files hparse hplane).2.2⟩

end

/-- The slices of a range of the torrent's data. -/
def range_slices (torrent : TorrentMeta) (start stop : Nat) : Vec FileSlice :=
  (cut start stop 0 0 (lengths torrent)).map FileSlice.of_extent

/-- What writing `data` at the range leaves on disk. -/
def range_patch (torrent : TorrentMeta) (start stop : Nat) (data : Bytes) :
    Patch Cell (Option UInt8) :=
  writes_patch (file_writes (range_slices torrent start stop) data)

/-- The configured suffix of active downloads is one that storage accepts. -/
def StorageIo.SuffixValid (self : StorageIo) : Prop :=
  ∀ suffix, self.partial_file_suffix = some suffix → validate_partial_file_suffix suffix = .ok ()

section
variable {sha : Sha} {io : StorageIo} {disk : Disk} {start stop : Nat} {data : Bytes}

theorem slice_cells_range (torrent : TorrentMeta) (start stop : Nat) :
    slice_cells (range_slices torrent start stop) = cells (cut start stop 0 0 (lengths torrent)) :=
  slice_cells_of_cut start stop torrent

theorem length_range_slices (hvalid : Valid sha io.torrent) (hstop : stop ≤ io.torrent.total_length) :
    ((range_slices io.torrent start stop).map FileSlice.length).sum = stop - start :=
  (slices_of_cut hvalid hstop rfl).2.2

/-- Every file that a range touches has a path. -/
theorem range_file_path (hvalid : Valid sha io.torrent) (hsuffix : io.SuffixValid) {slice : FileSlice}
    (h : slice ∈ range_slices io.torrent start stop) : ∃ path, io.file_path slice.file_index = .ok path := by
  obtain ⟨extent, hextent, rfl⟩ := List.mem_map.mp h
  obtain ⟨-, len, hlen, -⟩ := inside_cut hextent
  rw [Nat.sub_zero, List.getElem?_map, Option.map_eq_some_iff] at hlen
  obtain ⟨file, hfile, -⟩ := hlen
  exact ⟨_, (file_path_eq_ok_iff hvalid).mpr ⟨file, hfile, hsuffix, rfl⟩⟩

theorem mem_file_writes {slices : Vec FileSlice} {write : FileWrite} (h : write ∈ file_writes slices data) :
    ∃ slice ∈ slices, slice.file_index = write.file_index := by
  induction slices generalizing data with
  | nil => cases h
  | cons slice slices ih =>
    cases h with
    | head => exact ⟨slice, List.mem_cons_self, rfl⟩
    | tail _ h =>
      obtain ⟨later, hlater, hsame⟩ := ih h
      exact ⟨later, List.mem_cons_of_mem _ hlater, hsame⟩

/-- The writes of a plan, one after another: in the end the whole plan is in place, and everything
    that agrees with it has stayed. -/
theorem write_files_spec (hvalid : Valid sha io.torrent) {writes : Vec FileWrite}
    (hpaths : ∀ write ∈ writes, ∃ path, io.file_path write.file_index = .ok path) {whole : Patch Cell (Option UInt8)}
    (hself : Agree whole whole) (hprogress : Progress (io.cell disk) whole (writes_patch writes)) :
    ∃ disk', trial.for_each io.write_file writes disk = (.ok (), disk') ∧ Holds (io.cell disk') whole ∧
      ∀ other, Agree whole other → Holds (io.cell disk) other → Holds (io.cell disk') other := by
  induction writes generalizing disk with
  | nil => exact ⟨disk, rfl, hprogress.finished, fun _ _ h => h⟩
  | cons write writes ih =>
    obtain ⟨path, hpath⟩ := hpaths write List.mem_cons_self
    have hstep : io.write_file write disk = (.ok (), disk.write path write.offset write.bytes) := by
      rw [StorageIo.write_file, hpath]
      rfl
    have hwrote := wrote_patch hvalid hpath disk
    have hsub : write.patch ⊆ whole := fun entry hentry =>
      hprogress.suffix (List.mem_append_left _ hentry)
    obtain ⟨disk', hrun, hwhole, hkept⟩ := ih (fun later hlater => hpaths later (List.mem_cons_of_mem _ hlater))
      (hprogress.step hwrote hself)
    refine ⟨disk', ?_, hwhole, fun other hagree hheld => hkept other hagree ?_⟩
    · rw [trial.for_each, trial.bind_of_ok hstep]
      exact hrun
    · exact hwrote.holds (hagree.mono hsub (List.Subset.refl other)) hheld

theorem mapped_len_eq_ok {slices : Vec FileSlice} (h : (slices.map FileSlice.length).sum ≤ usize.MAX) :
    StorageIo.mapped_len slices = .ok (slices.map FileSlice.length).sum := by
  have hfold : ∀ (slices : Vec FileSlice) (total : Nat), total + (slices.map FileSlice.length).sum ≤ usize.MAX →
      slices.foldlM (fun total slice => ok_or (checked_add total slice.length)
        (CoreError.Storage "mapped storage write length overflow")) total =
      .ok (total + (slices.map FileSlice.length).sum) := by
    intro slices
    induction slices with
    | nil => exact fun _ _ => rfl
    | cons slice slices ih =>
      intro total h
      rw [List.map_cons, List.sum_cons] at h ⊢
      have hadd : checked_add total slice.length = some (total + slice.length) :=
        checked_add_eq_some_iff.mpr ⟨by omega, rfl⟩
      rw [List.foldlM_cons, hadd, ← Nat.add_assoc]
      exact ih (total + slice.length) (by omega)
  have hsum := hfold slices 0 (by omega)
  rw [Nat.zero_add] at hsum
  exact hsum

theorem plan_file_slices_eq_ok (hvalid : Valid sha io.torrent) (hrange : start ≤ stop)
    (hstop : stop ≤ io.torrent.total_length) (hdata : data.length = stop - start) :
    io.plan_file_slices start stop data = .ok (file_writes (range_slices io.torrent start stop) data) := by
  have hsum : ((range_slices io.torrent start stop).map FileSlice.length).sum = stop - start :=
    length_range_slices hvalid hstop
  have hmapped : StorageIo.mapped_len (range_slices io.torrent start stop) = .ok (stop - start) := by
    rw [← hsum]
    apply mapped_len_eq_ok
    have := hvalid.files.total_le
    omega
  have hslices : byte_ranges_to_file_slices io.torrent start stop = .ok (range_slices io.torrent start stop) :=
    byte_ranges_to_file_slices_eq_ok hvalid hrange hstop
  simp only [StorageIo.plan_file_slices, eq_ok_iff, checked_sub_eq_some_iff, hslices, Except.ok.injEq, exists_eq_left',
    hmapped, pure_eq_ok]
  exact ⟨stop - start, ⟨hrange, rfl⟩, (), by omega, (), by omega, trivial⟩

/-- A write of a range of a valid torrent succeeds. -/
theorem write_file_slices_spec (hvalid : Valid sha io.torrent) (hsuffix : io.SuffixValid) (hrange : start ≤ stop)
    (hstop : stop ≤ io.torrent.total_length) (hdata : data.length = stop - start) (disk : Disk) :
    ∃ disk', io.write_file_slices start stop data disk = (.ok (), disk') ∧
      Holds (io.cell disk') (range_patch io.torrent start stop data) ∧
      ∀ other, Agree (range_patch io.torrent start stop data) other →
        Holds (io.cell disk) other → Holds (io.cell disk') other := by
  have hpaths : ∀ write ∈ file_writes (range_slices io.torrent start stop) data,
      ∃ path, io.file_path write.file_index = .ok path := by
    intro write hwrite
    obtain ⟨slice, hslice, hsame⟩ := mem_file_writes hwrite
    rw [← hsame]
    exact range_file_path hvalid hsuffix hslice
  have hself : Agree (range_patch io.torrent start stop data) (range_patch io.torrent start stop data) := by
    apply agree_self_of_nodup
    rw [slice_cells_range]
    exact nodup_cells_cut start stop 0 0 (lengths io.torrent)
  have hstart : Progress (io.cell disk) (range_patch io.torrent start stop data)
      (writes_patch (file_writes (range_slices io.torrent start stop) data)) := .start
  obtain ⟨disk', hrun, hheld, hkept⟩ := write_files_spec hvalid hpaths hself hstart
  refine ⟨disk', ?_, hheld, hkept⟩
  rw [StorageIo.write_file_slices, plan_file_slices_eq_ok hvalid hrange hstop hdata]
  exact hrun

end

end swarmotter.storage

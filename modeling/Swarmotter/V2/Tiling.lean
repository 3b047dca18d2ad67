import Swarmotter.Meta.Parsed

open swarmotter.meta

namespace swarmotter.v2

/-- A piece of the version 2 peer protocol. It never leaves its file. -/
structure V2Piece where
  index : Nat
  file_index : Nat
  offset : Nat
  length : Nat
  file_length : Nat
  pieces_root : V2InfoHash
  expected_hash : V2InfoHash
  deriving DecidableEq

/-- The pieces of a torrent, each file beginning with a piece of its own. -/
structure V2PieceLayout where
  piece_length : Nat
  pieces : Vec V2Piece
  deriving DecidableEq

/-- The body of the loop of `validate_storage_file_mapping`. -/
def check_mapping (is_multi_file : Bool) (index : Nat) (storage_file v2_file : MetaFile) : Result Unit := do
  let _ ← reject_if (storage_file.length ≠ v2_file.length)
    (.MalformedTorrent s!"BEP 52 file {index} length differs from payload storage layout")
  let exact_path : Bool := storage_file.path = v2_file.path
  let relative_hybrid : Bool := is_multi_file && storage_file.path.length = v2_file.path.length + 1 &&
    storage_file.path.drop 1 = v2_file.path
  reject_if (exact_path = false ∧ relative_hybrid = false)
    (.MalformedTorrent s!"BEP 52 file {index} path differs from payload storage layout")

def validate_storage_file_mapping (torrent : TorrentMeta) (v2_files : Vec MetaFile) : Result Unit := do
  let _ ← reject_if (torrent.files.length ≠ v2_files.length)
    (.MalformedTorrent "BEP 52 file tree cannot be mapped to payload storage files")
  (torrent.files.zip v2_files).zipIdx.forM fun entry =>
    check_mapping torrent.is_multi_file entry.2 entry.1.1 entry.1.2

/-- The layer of a file that needs one, checked against the piece count of the file. -/
def file_layer (piece_length : Nat) (layers : Vec V2PieceLayer) (file : MetaFile) (pieces_root : V2InfoHash)
    (count : Nat) : Result (Option (Vec V2InfoHash)) :=
  if file.length > piece_length then do
    let layer ← ok_or (layers.find? fun layer => layer.pieces_root = pieces_root)
      (.MalformedTorrent "BEP 52 file larger than piece length is missing a piece layer")
    let _ ← reject_if (layer.hashes.length ≠ count)
      (.MalformedTorrent s!"BEP 52 piece layer has {layer.hashes.length} hashes; expected {count}")
    pure (some layer.hashes)
  else pure none

/-- One piece of a file. A file of one piece has its root as the expected hash. -/
def file_piece (piece_length file_index base : Nat) (file : MetaFile) (pieces_root : V2InfoHash)
    (layer : Option (Vec V2InfoHash)) (within_file : Nat) : Result V2Piece := do
  let offset ← ok_or (checked_mul within_file piece_length) (.MalformedTorrent "piece offset overflow")
  pure {
    index := base + within_file
    file_index := file_index
    offset := offset
    length := min (file.length - offset) piece_length
    file_length := file.length
    pieces_root := pieces_root
    expected_hash := match layer with
      | some hashes => hashes.getD within_file pieces_root
      | none => pieces_root }

/-- The loop over the files, with the pieces of the files before. -/
def collect_pieces (piece_length : Nat) (layers : Vec V2PieceLayer) :
    Nat → Vec V2Piece → Vec MetaFile → Result (Vec V2Piece)
  | _, pieces, [] => pure pieces
  | file_index, pieces, file :: files =>
    if file.length = 0 then collect_pieces piece_length layers (file_index + 1) pieces files
    else do
      let pieces_root ← ok_or file.pieces_root
        (.MalformedTorrent "non-empty BEP 52 file is missing pieces root")
      let count := div_ceil file.length piece_length
      let new_count ← ok_or (checked_add pieces.length count) (.MalformedTorrent "BEP 52 piece count overflow")
      let _ ← reject_if (new_count > MAX_TORRENT_PIECES)
        (.MalformedTorrent s!"BEP 52 piece count {new_count} exceeds maximum {MAX_TORRENT_PIECES}")
      let layer ← file_layer piece_length layers file pieces_root count
      let added ← (List.range count).mapM (file_piece piece_length file_index pieces.length file pieces_root layer)
      collect_pieces piece_length layers (file_index + 1) (pieces ++ added) files

namespace V2PieceLayout

/-- The layout of complete metainfo with verified piece layers. -/
def from_meta (torrent : TorrentMeta) : Result V2PieceLayout := do
  let v2 ← ok_or torrent.v2 (.UnsupportedTorrentFeature "torrent has no BEP 52 file-tree metadata")
  let _ ← reject_if (torrent.identity.v2_info_hash = none)
    (.UnsupportedTorrentFeature "torrent has no BEP 52 identity")
  let _ ← reject_if (v2.piece_layers_verified = false)
    (.UnsupportedTorrentFeature "BEP 52 payload transfer requires verified top-level piece layers")
  let _ ← validate_storage_file_mapping torrent v2.files
  let _ ← reject_if (¬ (v2.piece_layers.map V2PieceLayer.pieces_root).Nodup)
    (.MalformedTorrent "duplicate BEP 52 piece-layer root")
  let pieces ← collect_pieces torrent.piece_length v2.piece_layers 0 [] v2.files
  let _ ← reject_if (pieces = []) (.MalformedTorrent "BEP 52 torrent has no non-empty payload pieces")
  pure ⟨torrent.piece_length, pieces⟩

def piece_count (self : V2PieceLayout) : Nat := self.pieces.length

def piece (self : V2PieceLayout) (index : Nat) : Option V2Piece := self.pieces[index]?

end V2PieceLayout

section
variable {piece_length : Nat} {layers : Vec V2PieceLayer} {pieces out : Vec V2Piece} {files : Vec MetaFile}

section
variable {file_index base count within_file : Nat} {file : MetaFile} {pieces_root : V2InfoHash}
  {layer : Option (Vec V2InfoHash)} {piece : V2Piece} {added : Vec V2Piece}

theorem file_piece_ok (h : file_piece piece_length file_index base file pieces_root layer within_file = .ok piece) :
    piece.index = base + within_file ∧ piece.file_index = file_index ∧ piece.offset = within_file * piece_length ∧
      piece.length = min (file.length - within_file * piece_length) piece_length ∧ piece.file_length = file.length ∧
      piece.pieces_root = pieces_root ∧
      piece.expected_hash = (layer.map fun hashes => hashes.getD within_file pieces_root).getD pieces_root := by
  simp only [file_piece, eq_ok_iff, checked_mul_eq_some_iff] at h
  obtain ⟨offset, ⟨-, rfl⟩, rfl⟩ := h
  refine ⟨rfl, rfl, rfl, rfl, rfl, rfl, ?_⟩
  cases layer with
  | none => rfl
  | some hashes => rfl

section
variable (h : (List.range count).mapM (file_piece piece_length file_index base file pieces_root layer) = .ok added)
include h

/-- Each piece of a file is the one that its place asks for. -/
theorem file_pieces_get :
    added.length = count ∧ ∀ i piece, added[i]? = some piece →
      file_piece piece_length file_index base file pieces_root layer i = .ok piece := by
  have hforall := mapM_eq_ok_iff.mp h
  have hlength : added.length = count := by rw [← hforall.length_eq, List.length_range]
  refine ⟨hlength, fun i piece hpiece => ?_⟩
  obtain ⟨hi, rfl⟩ := List.getElem?_eq_some_iff.mp hpiece
  have hcount : i < (List.range count).length := by rwa [List.length_range, ← hlength]
  have hbuilt := (List.forall₂_iff_get.mp hforall).2 i hcount hi
  rwa [List.get_eq_getElem, List.get_eq_getElem, List.getElem_range] at hbuilt

theorem file_pieces_lengths :
    added.map V2Piece.length = (List.range count).map fun i => min (file.length - i * piece_length) piece_length := by
  obtain ⟨hlength, hget⟩ := file_pieces_get h
  apply List.ext_getElem
  · rw [List.length_map, List.length_map, List.length_range, hlength]
  · intro i hi hi'
    rw [List.length_map] at hi
    obtain ⟨-, -, -, hpiece, -⟩ := file_piece_ok (hget i _ (List.getElem?_eq_getElem hi))
    rw [List.getElem_map, List.getElem_map, List.getElem_range, hpiece]

end

end

variable {file_index : Nat}

/-- The pieces of a file have its length together. -/
theorem file_pieces_sum {base : Nat} {file : MetaFile} {pieces_root : V2InfoHash} {layer : Option (Vec V2InfoHash)}
    {added : Vec V2Piece} (hpos : 0 < piece_length)
    (h : (List.range (div_ceil file.length piece_length)).mapM (file_piece piece_length file_index base file
      pieces_root layer) = .ok added) : (added.map V2Piece.length).sum = file.length := by
  rw [file_pieces_lengths h, slices.sum_run_lengths]
  exact Nat.min_eq_left ((slices.div_ceil_le_iff hpos).mp (Nat.le_refl _))

/-- The loop adds the pieces of the first file to those that it has, and none if the file is empty. -/
theorem collect_pieces_cons {file : MetaFile}
    (h : collect_pieces piece_length layers file_index pieces (file :: files) = .ok out) :
    ∃ run, (file.length = 0 ∧ run = [] ∨ ∃ pieces_root layer, file.pieces_root = some pieces_root ∧
        pieces.length + div_ceil file.length piece_length ≤ MAX_TORRENT_PIECES ∧
        file_layer piece_length layers file pieces_root (div_ceil file.length piece_length) = .ok layer ∧
        (List.range (div_ceil file.length piece_length)).mapM
          (file_piece piece_length file_index pieces.length file pieces_root layer) = .ok run) ∧
      collect_pieces piece_length layers (file_index + 1) (pieces ++ run) files = .ok out := by
  rw [collect_pieces] at h
  split at h
  · rename_i hempty
    exact ⟨[], Or.inl ⟨hempty, rfl⟩, by rwa [List.append_nil]⟩
  · simp only [eq_ok_iff, checked_add_eq_some_iff] at h
    obtain ⟨pieces_root, hroot, new_count, ⟨-, rfl⟩, -, hlimit, layer, hlayer, run, hrun, h⟩ := h
    exact ⟨run, Or.inr ⟨pieces_root, layer, hroot, Nat.le_of_not_lt hlimit, hlayer, hrun⟩, h⟩

/-- The pieces of the files, each of them cut into pieces of its own. -/
def total_pieces (piece_length : Nat) (files : Vec MetaFile) : Nat :=
  (files.map fun file => div_ceil file.length piece_length).sum

theorem total_pieces_cons (file : MetaFile) (files : Vec MetaFile) :
    total_pieces piece_length (file :: files) = div_ceil file.length piece_length + total_pieces piece_length files :=
  rfl

theorem div_ceil_zero (n : Nat) : div_ceil 0 n = 0 := by
  rw [div_ceil, Nat.zero_add]
  exact Nat.div_eq_zero_iff.mpr (by omega)

/-- The loop stops at the limit on the piece count. -/
theorem collect_pieces_total (h : collect_pieces piece_length layers file_index pieces files = .ok out) :
    out.length = pieces.length + total_pieces piece_length files ∧
      (pieces.length ≤ MAX_TORRENT_PIECES → out.length ≤ MAX_TORRENT_PIECES) := by
  induction files generalizing file_index pieces with
  | nil =>
    cases h
    exact ⟨rfl, id⟩
  | cons file files ih =>
    obtain ⟨run, hrun, hrest⟩ := collect_pieces_cons h
    obtain ⟨hlength, hlater⟩ := ih hrest
    rw [List.length_append] at hlength hlater
    rw [total_pieces_cons]
    obtain ⟨hempty, rfl⟩ | ⟨pieces_root, layer, -, hlimit, -, hadded⟩ := hrun
    · rw [hempty, div_ceil_zero, Nat.zero_add]
      exact ⟨hlength, hlater⟩
    · rw [(file_pieces_get hadded).1] at hlength hlater
      exact ⟨by omega, fun _ => hlater hlimit⟩

variable {torrent : TorrentMeta}

/-- The files of the tree have the lengths of the files on disk. -/
theorem validate_storage_file_mapping_lengths {v2_files : Vec MetaFile}
    (h : validate_storage_file_mapping torrent v2_files = .ok ()) :
    torrent.files.map MetaFile.length = v2_files.map MetaFile.length := by
  simp only [validate_storage_file_mapping, eq_ok_iff] at h
  obtain ⟨-, hcount, hmapped⟩ := h
  have hlength := not_not.mp hcount
  have hchecked := forM_eq_ok_iff.mp hmapped
  apply List.ext_getElem
  · rw [List.length_map, List.length_map, hlength]
  · intro i hi hi'
    rw [List.length_map] at hi hi'
    have hget : ((torrent.files.zip v2_files).zipIdx)[i]? = some ((torrent.files[i], v2_files[i]), i) := by
      simp [hi, hi']
    have hpair := hchecked _ (List.mem_of_getElem? hget)
    simp only [check_mapping, eq_ok_iff] at hpair
    rw [List.getElem_map, List.getElem_map]
    exact not_not.mp hpair.choose_spec.1

/-- A layout has the pieces of the files of the tree, of which there are some. -/
theorem from_meta_ok {layout : V2PieceLayout} (h : V2PieceLayout.from_meta torrent = .ok layout) :
    ∃ v2, torrent.v2 = some v2 ∧ 0 < torrent.piece_length ∧
      torrent.files.map MetaFile.length = v2.files.map MetaFile.length ∧
      collect_pieces torrent.piece_length v2.piece_layers 0 [] v2.files = .ok layout.pieces := by
  simp only [V2PieceLayout.from_meta, eq_ok_iff] at h
  obtain ⟨v2, hv2, -, -, -, -, ⟨⟩, hmapping, -, -, pieces, hpieces, -, hsome, rfl⟩ := h
  refine ⟨v2, hv2, Nat.pos_of_ne_zero fun hzero => hsome ?_, validate_storage_file_mapping_lengths hmapping, hpieces⟩
  -- without a piece length there is no piece
  have hlength := (collect_pieces_total hpieces).1
  rw [hzero] at hlength
  exact List.length_eq_zero_iff.mp (by simpa [total_pieces, div_ceil] using hlength)

end

section
variable {piece_length : Nat} {layers : Vec V2PieceLayer}

/-- The pieces cover one file, the first of them at a place of the layout. -/
structure Tiles (piece_length : Nat) (layers : Vec V2PieceLayer) (file_index base : Nat) (file : MetaFile)
    (run : Vec V2Piece) : Prop where
  lengths_sum : (run.map V2Piece.length).sum = file.length
  index_eq : ∀ (j : Nat) (piece : V2Piece), run[j]? = some piece → piece.index = base + j
  owner : ∀ piece ∈ run, piece.file_index = file_index ∧ piece.file_length = file.length ∧
    file.pieces_root = some piece.pieces_root
  /-- A piece begins where the one before it ends, the first one at the beginning of the file. -/
  offset_eq : ∀ (j : Nat) (piece : V2Piece), run[j]? = some piece → piece.offset = ((run.take j).map V2Piece.length).sum
  /-- No piece leaves its file. -/
  inside : ∀ piece ∈ run, 0 < piece.length ∧ piece.offset + piece.length ≤ file.length
  /-- Only the last piece can be shorter than the others. -/
  full_length : ∀ (j : Nat) (piece : V2Piece), run[j]? = some piece → j + 1 < run.length → piece.length = piece_length
  length_le : ∀ piece ∈ run, piece.length ≤ piece_length
  hash_of_whole : file.length ≤ piece_length → ∀ piece ∈ run, piece.expected_hash = piece.pieces_root
  hash_of_layer : piece_length < file.length → ∀ (j : Nat) (piece : V2Piece), run[j]? = some piece →
    ∃ layer ∈ layers, layer.pieces_root = piece.pieces_root ∧ layer.hashes[j]? = some piece.expected_hash

variable {file_index base : Nat} {file : MetaFile} {pieces_root : V2InfoHash} {layer : Option (Vec V2InfoHash)}

/-- An empty file has no piece. -/
theorem tiles_nil (hempty : file.length = 0) : Tiles piece_length layers file_index base file [] := by
  constructor <;> simp [hempty]

theorem Tiles.nil_of_empty {run : Vec V2Piece} (h : Tiles piece_length layers file_index base file run)
    (hempty : file.length = 0) : run = [] := by
  apply List.eq_nil_iff_forall_not_mem.mpr
  intro piece hpiece
  have hinside := h.inside piece hpiece
  omega

theorem file_layer_ok {count : Nat} (h : file_layer piece_length layers file pieces_root count = .ok layer) :
    (file.length ≤ piece_length ∧ layer = none) ∨
      (piece_length < file.length ∧ ∃ found ∈ layers, found.pieces_root = pieces_root ∧
        found.hashes.length = count ∧ layer = some found.hashes) := by
  rw [file_layer] at h
  split at h
  · rename_i hlarge
    simp only [eq_ok_iff] at h
    obtain ⟨found, hfound, -, hcount, rfl⟩ := h
    exact Or.inr ⟨hlarge, found, List.mem_of_find?_eq_some hfound, by simpa using List.find?_some hfound,
      not_not.mp hcount, rfl⟩
  · rename_i hsmall
    cases h
    exact Or.inl ⟨Nat.le_of_not_lt hsmall, rfl⟩

theorem tiles_file_pieces {added : Vec V2Piece} (hpos : 0 < piece_length) (hroot : file.pieces_root = some pieces_root)
    (hlayer : file_layer piece_length layers file pieces_root (div_ceil file.length piece_length) = .ok layer)
    (h : (List.range (div_ceil file.length piece_length)).mapM (file_piece piece_length file_index base file
      pieces_root layer) = .ok added) : Tiles piece_length layers file_index base file added := by
  obtain ⟨hlength, hget⟩ := file_pieces_get h
  have hstart : ∀ j piece, added[j]? = some piece → j * piece_length < file.length := by
    intro j piece hpiece
    obtain ⟨hj, -⟩ := List.getElem?_eq_some_iff.mp hpiece
    rw [hlength] at hj
    exact (slices.lt_div_ceil_iff hpos).mp hj
  have hmem : ∀ piece ∈ added, ∃ j, added[j]? = some piece := fun piece hpiece => List.mem_iff_getElem?.mp hpiece
  refine ⟨file_pieces_sum hpos h, ?_, ?_, ?_, ?_, ?_, ?_, ?_, ?_⟩
  · intro j piece hpiece
    exact (file_piece_ok (hget j piece hpiece)).1
  · intro piece hpiece
    obtain ⟨j, hj⟩ := hmem piece hpiece
    obtain ⟨-, hfile, -, -, hfile_length, hpiece_root, -⟩ := file_piece_ok (hget j piece hj)
    exact ⟨hfile, hfile_length, by rw [hroot, hpiece_root]⟩
  · intro j piece hpiece
    obtain ⟨-, -, hoffset, -⟩ := file_piece_ok (hget j piece hpiece)
    obtain ⟨hj, -⟩ := List.getElem?_eq_some_iff.mp hpiece
    have hbefore := hstart j piece hpiece
    rw [List.map_take, file_pieces_lengths h, ← List.map_take, List.take_range, ← hlength, Nat.min_eq_left hj.le,
      slices.sum_run_lengths, hoffset]
    omega
  · intro piece hpiece
    obtain ⟨j, hj⟩ := hmem piece hpiece
    obtain ⟨-, -, hoffset, hpiece_length, -⟩ := file_piece_ok (hget j piece hj)
    have hbefore := hstart j piece hj
    omega
  · intro j piece hpiece hnext
    obtain ⟨-, -, -, hpiece_length, -⟩ := file_piece_ok (hget j piece hpiece)
    have hfollowing := hstart (j + 1) added[j + 1] (List.getElem?_eq_getElem hnext)
    rw [Nat.add_mul, Nat.one_mul] at hfollowing
    omega
  · intro piece hpiece
    obtain ⟨j, hj⟩ := hmem piece hpiece
    obtain ⟨-, -, -, hpiece_length, -⟩ := file_piece_ok (hget j piece hj)
    omega
  · intro hsmall piece hpiece
    obtain ⟨j, hj⟩ := hmem piece hpiece
    obtain ⟨-, -, -, -, -, hpiece_root, hhash⟩ := file_piece_ok (hget j piece hj)
    obtain ⟨-, rfl⟩ | ⟨hlarge, -⟩ := file_layer_ok hlayer
    · rw [hhash, hpiece_root]
      rfl
    · omega
  · intro hlarge j piece hpiece
    obtain ⟨-, -, -, -, -, hpiece_root, hhash⟩ := file_piece_ok (hget j piece hpiece)
    obtain ⟨hj, -⟩ := List.getElem?_eq_some_iff.mp hpiece
    obtain ⟨hsmall, -⟩ | ⟨-, found, hfound, hfound_root, hcount, rfl⟩ := file_layer_ok hlayer
    · omega
    · have hbound : j < found.hashes.length := by rw [hcount, ← hlength]; exact hj
      refine ⟨found, hfound, hfound_root.trans hpiece_root.symm, ?_⟩
      rw [hhash, List.getElem?_eq_getElem hbound]
      exact congrArg some (List.getD_eq_getElem _ _ hbound).symm

variable {pieces out : Vec V2Piece} {files : Vec MetaFile}

theorem collect_pieces_tiles (hpos : 0 < piece_length)
    (h : collect_pieces piece_length layers file_index pieces (file :: files) = .ok out) :
    ∃ run, Tiles piece_length layers file_index pieces.length file run ∧
      collect_pieces piece_length layers (file_index + 1) (pieces ++ run) files = .ok out := by
  obtain ⟨run, hrun, hrest⟩ := collect_pieces_cons h
  refine ⟨run, ?_, hrest⟩
  obtain ⟨hempty, rfl⟩ | ⟨pieces_root, layer, hroot, -, hlayer, hadded⟩ := hrun
  · exact tiles_nil hempty
  · exact tiles_file_pieces hpos hroot hlayer hadded

/-- The loop appends the pieces of one file after the other and numbers them as it goes. -/
theorem collect_pieces_runs (hpos : 0 < piece_length)
    (h : collect_pieces piece_length layers file_index pieces files = .ok out) :
    ∃ runs : List (Vec V2Piece), out = pieces ++ runs.flatten ∧ runs.length = files.length ∧
      ∀ (i : Nat) (file : MetaFile) (run : Vec V2Piece), files[i]? = some file → runs[i]? = some run →
        Tiles piece_length layers (file_index + i) (pieces.length + (runs.take i).flatten.length) file run := by
  induction files generalizing file_index pieces with
  | nil =>
    cases h
    exact ⟨[], (List.append_nil _).symm, rfl, fun i file run hfile => by simp at hfile⟩
  | cons file files ih =>
    -- the run of the first file, and the runs of the others behind it
    obtain ⟨run, htiles, hrest⟩ := collect_pieces_tiles hpos h
    obtain ⟨runs, hout, hlength, hruns⟩ := ih hrest
    refine ⟨run :: runs, ?_, ?_, ?_⟩
    · rw [hout, List.flatten_cons, List.append_assoc]
    · rw [List.length_cons, List.length_cons, hlength]
    · intro i other_file other_run hfile hrun
      cases i with
      | zero =>
        simp only [List.getElem?_cons_zero, Option.some.injEq] at hfile hrun
        subst hfile hrun
        exact htiles
      | succ i =>
        rw [List.getElem?_cons_succ] at hfile hrun
        have htail := hruns i other_file other_run hfile hrun
        rw [List.length_append] at htail
        rwa [List.take_succ_cons, List.flatten_cons, List.length_append,
          show file_index + (i + 1) = file_index + 1 + i by omega, ← Nat.add_assoc]

theorem collect_pieces_sum (hpos : 0 < piece_length)
    (h : collect_pieces piece_length layers file_index pieces files = .ok out) :
    (out.map V2Piece.length).sum = (pieces.map V2Piece.length).sum + (files.map MetaFile.length).sum := by
  induction files generalizing file_index pieces with
  | nil =>
    cases h
    rfl
  | cons file files ih =>
    obtain ⟨run, htiles, hrest⟩ := collect_pieces_tiles hpos h
    rw [ih hrest, List.map_append, List.sum_append, htiles.lengths_sum, List.map_cons, List.sum_cons, Nat.add_assoc]

/-- The pieces of one file of the layout have its length together. -/
theorem collect_pieces_sum_file (hpos : 0 < piece_length)
    (h : collect_pieces piece_length layers file_index pieces files = .ok out) (target : Nat) :
    ((out.filter fun piece => piece.file_index = target).map V2Piece.length).sum =
      ((pieces.filter fun piece => piece.file_index = target).map V2Piece.length).sum +
        if file_index ≤ target then (files.map MetaFile.length).getD (target - file_index) 0 else 0 := by
  induction files generalizing file_index pieces with
  | nil =>
    cases h
    simp
  | cons file files ih =>
    obtain ⟨added, htiles, hrest⟩ := collect_pieces_tiles hpos h
    rw [ih hrest, List.filter_append, List.map_append, List.sum_append, Nat.add_assoc]
    congr 1
    by_cases htarget : file_index = target
    · subst htarget
      have hall : added.filter (fun piece => piece.file_index = file_index) = added := by
        rw [List.filter_eq_self]
        exact fun piece hpiece => decide_eq_true (htiles.owner piece hpiece).1
      have hlater : ¬ file_index + 1 ≤ file_index := by omega
      rw [hall, htiles.lengths_sum, if_neg hlater, if_pos (Nat.le_refl _), Nat.sub_self, List.map_cons,
        List.getD_cons_zero,
        Nat.add_zero]
    · have hnone : added.filter (fun piece => piece.file_index = target) = [] := by
        rw [List.filter_eq_nil_iff]
        intro piece hpiece
        rw [(htiles.owner piece hpiece).1]
        simpa using htarget
      rw [hnone, List.map_nil, List.sum_nil, Nat.zero_add]
      by_cases hle : file_index + 1 ≤ target
      · have hoffset : target - file_index = target - (file_index + 1) + 1 := by omega
        rw [if_pos hle, if_pos (by omega), hoffset, List.map_cons, List.getD_cons_succ]
      · rw [if_neg hle, if_neg (by omega)]

/-- A piece of a list of runs is a piece of one of them, behind the runs before. -/
theorem exists_run_of_flatten {runs : List (Vec V2Piece)} {k : Nat} {piece : V2Piece}
    (h : runs.flatten[k]? = some piece) :
    ∃ i run j, runs[i]? = some run ∧ run[j]? = some piece ∧ k = (runs.take i).flatten.length + j := by
  induction runs generalizing k with
  | nil => simp at h
  | cons run runs ih =>
    rw [List.flatten_cons] at h
    by_cases hk : k < run.length
    · rw [List.getElem?_append_left hk] at h
      exact ⟨0, run, k, rfl, h, (Nat.zero_add k).symm⟩
    · rw [List.getElem?_append_right (Nat.le_of_not_lt hk)] at h
      obtain ⟨i, other, j, hother, hpiece, hplace⟩ := ih h
      refine ⟨i + 1, other, j, hother, hpiece, ?_⟩
      rw [List.take_succ_cons, List.flatten_cons, List.length_append]
      omega

variable {torrent : TorrentMeta} {layout : V2PieceLayout}

/-- The pieces of a layout have the length of the torrent together. -/
theorem from_meta_sum (h : V2PieceLayout.from_meta torrent = .ok layout) :
    (layout.pieces.map V2Piece.length).sum = (torrent.files.map MetaFile.length).sum := by
  obtain ⟨v2, -, hpos, hlengths, hpieces⟩ := from_meta_ok h
  rw [collect_pieces_sum hpos hpieces, hlengths, List.map_nil, List.sum_nil, Nat.zero_add]

theorem from_meta_sum_file (h : V2PieceLayout.from_meta torrent = .ok layout) (target : Nat) :
    ((layout.pieces.filter fun piece => piece.file_index = target).map V2Piece.length).sum =
      (torrent.files.map MetaFile.length).getD target 0 := by
  obtain ⟨v2, -, hpos, hlengths, hpieces⟩ := from_meta_ok h
  rw [collect_pieces_sum_file hpos hpieces, hlengths, List.filter_nil, List.map_nil, List.sum_nil, Nat.zero_add,
    if_pos (Nat.zero_le _), Nat.sub_zero]

theorem from_meta_runs (h : V2PieceLayout.from_meta torrent = .ok layout) :
    ∃ (v2 : V2TorrentMeta) (runs : List (Vec V2Piece)), torrent.v2 = some v2 ∧ layout.pieces = runs.flatten ∧
      runs.length = v2.files.length ∧
      ∀ (i : Nat) (file : MetaFile) (run : Vec V2Piece), v2.files[i]? = some file → runs[i]? = some run →
        Tiles torrent.piece_length v2.piece_layers i (runs.take i).flatten.length file run := by
  obtain ⟨v2, hv2, hpos, -, hpieces⟩ := from_meta_ok h
  obtain ⟨runs, hflatten, hlength, hruns⟩ := collect_pieces_runs hpos hpieces
  rw [List.nil_append] at hflatten
  simp only [List.length_nil, Nat.zero_add] at hruns
  exact ⟨v2, runs, hv2, hflatten, hlength, hruns⟩

/-- Every piece is in its place and has a byte. -/
theorem from_meta_piece (h : V2PieceLayout.from_meta torrent = .ok layout) {k : Nat} {piece : V2Piece}
    (hpiece : layout.pieces[k]? = some piece) : piece.index = k ∧ 0 < piece.length := by
  obtain ⟨v2, runs, -, hflatten, hlength, hruns⟩ := from_meta_runs h
  rw [hflatten] at hpiece
  obtain ⟨i, run, j, hrun, hplace, rfl⟩ := exists_run_of_flatten hpiece
  obtain ⟨hi, -⟩ := List.getElem?_eq_some_iff.mp hrun
  have hfile : v2.files[i]? = some v2.files[i] := List.getElem?_eq_getElem (by rwa [← hlength])
  have htiles := hruns i _ run hfile hrun
  exact ⟨htiles.index_eq j piece hplace, (htiles.inside piece (List.mem_of_getElem? hplace)).1⟩

/-- The pieces of a layout are its files one after the other, each of them cut into pieces of its own. -/
theorem from_meta_tiles {torrent : TorrentMeta} {layout : V2PieceLayout}
    (h : V2PieceLayout.from_meta torrent = .ok layout) :
    ∃ (v2 : V2TorrentMeta) (runs : List (Vec V2Piece)), torrent.v2 = some v2 ∧ layout.pieces = runs.flatten ∧
      runs.length = v2.files.length ∧
      (∀ (k : Nat) (piece : V2Piece), layout.pieces[k]? = some piece → piece.index = k) ∧
      ∀ (i : Nat) (file : MetaFile) (run : Vec V2Piece), v2.files[i]? = some file → runs[i]? = some run →
        (file.length = 0 → run = []) ∧
          Tiles torrent.piece_length v2.piece_layers i (runs.take i).flatten.length file run := by
  obtain ⟨v2, runs, hv2, hflatten, hlength, hruns⟩ := from_meta_runs h
  refine ⟨v2, runs, hv2, hflatten, hlength, fun k piece hpiece => (from_meta_piece h hpiece).1, ?_⟩
  intro i file run hfile hrun
  have htiles := hruns i file run hfile hrun
  exact ⟨htiles.nil_of_empty, htiles⟩

end

/-- An empty file, a file of three pieces and a file of one. -/
def three_files : Vec MetaFile :=
  [⟨["a"], 0, none⟩, ⟨["b"], 5, some (.from_slice [1])⟩, ⟨["c"], 2, some (.from_slice [2])⟩]

def three_files_meta : TorrentMeta where
  info_hash := .ZERO
  identity := .V2 .ZERO
  name := "t"
  piece_length := 2
  pieces := []
  files := three_files
  total_length := 7
  private_flag := false
  announce := none
  announce_list := []
  webseeds := []
  comment := none
  created_by := none
  creation_date := none
  is_multi_file := true
  v2 := some {
    meta_version := 2
    files := three_files
    piece_layers := [⟨.from_slice [1], [.from_slice [3], .from_slice [4], .from_slice [5]]⟩]
    piece_layers_verified := true }
  raw_info := none

theorem from_meta_tiles_three_files :
    ∃ layout, V2PieceLayout.from_meta three_files_meta = .ok layout ∧ layout.piece_count = 4 ∧
      ∃ (v2 : V2TorrentMeta) (runs : List (Vec V2Piece)), three_files_meta.v2 = some v2 ∧
        layout.pieces = runs.flatten ∧ runs.length = v2.files.length ∧
        (∀ (k : Nat) (piece : V2Piece), layout.pieces[k]? = some piece → piece.index = k) ∧
        ∀ (i : Nat) (file : MetaFile) (run : Vec V2Piece), v2.files[i]? = some file → runs[i]? = some run →
          (file.length = 0 → run = []) ∧
            Tiles three_files_meta.piece_length v2.piece_layers i (runs.take i).flatten.length file run := by
  have hcount : (V2PieceLayout.from_meta three_files_meta).map V2PieceLayout.piece_count = .ok 4 := by decide +kernel
  cases hlayout : V2PieceLayout.from_meta three_files_meta with
  | error error => simp [hlayout, Except.map] at hcount
  | ok layout =>
    rw [hlayout] at hcount
    exact ⟨layout, rfl, Except.ok.inj hcount, from_meta_tiles hlayout⟩

end swarmotter.v2

import Mathlib.Algebra.Order.BigOperators.Group.List
import Swarmotter.Bencode.Lookup
import Swarmotter.Meta.Layered
import Swarmotter.V2.Tiling

open swarmotter.meta swarmotter.bencode

namespace swarmotter.v2

/-- What the loop of `from_meta` asks of a file, apart from the limit on the piece count. -/
structure Laid (piece_length : Nat) (layers : Vec V2PieceLayer) (file : MetaFile) : Prop where
  length_le : file.length ≤ usize.MAX
  root : file.length ≠ 0 → ∃ root layer, file.pieces_root = some root ∧
    file_layer piece_length layers file root (div_ceil file.length piece_length) = .ok layer

variable {files : Vec MetaFile} {torrent : TorrentMeta}

section
variable {piece_length : Nat} {layers : Vec V2PieceLayer}

/-- No offset inside a file overflows. -/
theorem exists_file_pieces (hpos : 0 < piece_length) {file : MetaFile} (hfile : file.length ≤ usize.MAX)
    (file_index base : Nat) (pieces_root : V2InfoHash) (layer : Option (Vec V2InfoHash)) :
    ∃ added, (List.range (div_ceil file.length piece_length)).mapM
      (file_piece piece_length file_index base file pieces_root layer) = .ok added := by
  refine ⟨_, mapM_eq_ok fun i hi => by
    have hlt := (slices.lt_div_ceil_iff hpos).mp (List.mem_range.mp hi)
    have hoffset : checked_mul i piece_length = some (i * piece_length) := checked_mul_eq_some_iff.mpr ⟨by omega, rfl⟩
    simp only [file_piece, hoffset, ok_or, bind_ok]
    rfl⟩

theorem from_meta_total {v2 : V2TorrentMeta} {layout : V2PieceLayout}
    (h : V2PieceLayout.from_meta torrent = .ok layout) (hv2 : torrent.v2 = some v2) :
    total_pieces torrent.piece_length v2.files ≤ MAX_TORRENT_PIECES := by
  obtain ⟨found, hfound, -, -, hpieces⟩ := from_meta_ok h
  obtain rfl := Option.some.inj (hv2.symm.trans hfound)
  obtain ⟨htotal, hlimit⟩ := collect_pieces_total hpieces
  rw [List.length_nil, Nat.zero_add] at htotal
  exact htotal ▸ hlimit (Nat.zero_le _)

/-- Within the limit the loop succeeds. -/
theorem exists_collect_pieces (hpos : 0 < piece_length) {file_index : Nat} {pieces : Vec V2Piece}
    (hfiles : ∀ file ∈ files, Laid piece_length layers file)
    (hlimit : pieces.length + total_pieces piece_length files ≤ MAX_TORRENT_PIECES) :
    ∃ out, collect_pieces piece_length layers file_index pieces files = .ok out := by
  induction files generalizing file_index pieces with
  | nil => exact ⟨pieces, rfl⟩
  | cons file files ih =>
    obtain ⟨hfile, hrest⟩ := List.forall_mem_cons.mp hfiles
    rw [total_pieces_cons] at hlimit
    rw [collect_pieces]
    split
    · exact ih hrest (by omega)
    · rename_i hsome
      obtain ⟨root, layer, hroot, hlayer⟩ := hfile.root hsome
      obtain ⟨added, hadded⟩ := exists_file_pieces hpos hfile.length_le file_index pieces.length root layer
      have hfits : pieces.length + div_ceil file.length piece_length ≤ MAX_TORRENT_PIECES := by omega
      have hsum : checked_add pieces.length (div_ceil file.length piece_length) =
          some (pieces.length + div_ceil file.length piece_length) :=
        checked_add_eq_some_iff.mpr ⟨hfits.trans (by decide), rfl⟩
      have hnext : (pieces ++ added).length = pieces.length + div_ceil file.length piece_length := by
        rw [List.length_append, (file_pieces_get hadded).1]
      simp only [hroot, hsum, ok_or, reject_if, if_neg (Nat.not_lt.mpr hfits), bind_ok, hlayer, hadded]
      exact ih hrest (by omega)

end

theorem validate_storage_file_mapping_self (h : torrent.files = files) :
    validate_storage_file_mapping torrent files = .ok () := by
  simp only [validate_storage_file_mapping, eq_ok_iff, h]
  refine ⟨(), not_not.mpr rfl, forM_eq_ok_iff.mpr fun entry hentry => ?_⟩
  have hzip := List.mem_zipIdx_iff_getElem?.mp hentry
  obtain ⟨hleft, hright⟩ := List.getElem?_zip_eq_some.mp hzip
  have hsame : entry.1.1 = entry.1.2 := Option.some.inj (hleft.symm.trans hright)
  simp [check_mapping, reject_if, hsame]

/-- The metadata of a pure version 2 torrent that the parser has accepted. -/
theorem parse_torrent_pure_v2 {sha : Sha} {bytes : Bytes} {hash : V2InfoHash}
    (h : parse_torrent sha bytes = .ok torrent) (hidentity : torrent.identity = .V2 hash) :
    ∃ v2, torrent.v2 = some v2 ∧ torrent.files = v2.files ∧ v2.piece_layers_verified = true ∧
      (v2.piece_layers.map V2PieceLayer.pieces_root).Nodup ∧
      ∀ file ∈ v2.files, Laid torrent.piece_length v2.piece_layers file := by
  have hvalid := parse_torrent_valid h
  simp only [parse_torrent, bind_eq_ok_iff] at h
  obtain ⟨root, -, dict, -, info_bytes, -, h⟩ := h
  obtain ⟨info, -, hparsed⟩ := parse_torrent_root_parsed h
  cases hparsed with
  | v1 _ h => simp [h.identity] at hidentity
  | hybrid _ h => simp [h.identity] at hidentity
  | v2 _ h =>
    obtain ⟨v2, hv2, hfiles, hmetadata⟩ := h.v2
    obtain ⟨-, -, total, -, -, hlayers, -, hchecked⟩ := parse_v2_metadata_eq_ok_iff.mp hmetadata
    have hverified := parse_v2_piece_layers_required hlayers
    obtain ⟨rooted, hfiles_checked, -, hlayers_checked⟩ := validate_v2_metadata_eq_ok_iff.mp hchecked
    have hlayers_checked := hlayers_checked hverified
    refine ⟨v2, hv2, hfiles, hverified, hlayers_checked.nodup, fun file hfile => ⟨?_, fun hsome => ?_⟩⟩
    · have hle := List.le_sum_of_mem (List.mem_map_of_mem (f := MetaFile.length) hfile)
      rw [← hfiles, hvalid.files.sum_length] at hle
      exact hle.trans hvalid.files.total_le
    · obtain ⟨root, hroot, -⟩ := exists_root_of_rooted_files hfiles_checked.rooted hfile hsome
      by_cases hlarge : torrent.piece_length < file.length
      · obtain ⟨layer, hlayer, hlayer_root, hcount⟩ :=
          ((layersChecked_iff hfiles_checked.rooted).mp hlayers_checked).2.1 file hfile root ⟨hlarge, hroot⟩
        have hfind := (find_layer_eq_some_iff hlayers_checked.nodup).mpr ⟨hlayer, hlayer_root⟩
        refine ⟨root, some layer.hashes, hroot, ?_⟩
        rw [file_layer, if_pos hlarge, hfind]
        simp [ok_or, reject_if, hcount]
      · exact ⟨root, none, hroot, if_neg hlarge⟩

section
variable {sha : Sha} {bytes : Bytes} {torrent : TorrentMeta} {hash : V2InfoHash}

theorem exists_from_meta (h : parse_torrent sha bytes = .ok torrent) (hidentity : torrent.identity = .V2 hash)
    (hlimit : total_pieces torrent.piece_length torrent.files ≤ MAX_TORRENT_PIECES) :
    ∃ layout, V2PieceLayout.from_meta torrent = .ok layout := by
  have hvalid := parse_torrent_valid h
  obtain ⟨v2, hv2, hfiles, hverified, hnodup, hlaid⟩ := parse_torrent_pure_v2 h hidentity
  rw [hfiles] at hlimit
  obtain ⟨pieces, hpieces⟩ : ∃ pieces,
      collect_pieces torrent.piece_length v2.piece_layers 0 [] v2.files = .ok pieces :=
    exists_collect_pieces hvalid.piece_length_pos hlaid (by rwa [List.length_nil, Nat.zero_add])
  have hsome : pieces ≠ [] := by
    rintro rfl
    have hsum := collect_pieces_sum hvalid.piece_length_pos hpieces
    rw [← hfiles, hvalid.files.sum_length, List.map_nil, List.sum_nil, Nat.zero_add] at hsum
    have htotal := hvalid.total_length_pos
    omega
  have hv2_identity : torrent.identity.v2_info_hash ≠ none := by simp [hidentity, TorrentIdentity.v2_info_hash]
  refine ⟨⟨torrent.piece_length, pieces⟩, ?_⟩
  simp only [V2PieceLayout.from_meta, eq_ok_iff]
  exact ⟨v2, hv2, (), hv2_identity, (), by simp [hverified], (), validate_storage_file_mapping_self hfiles, (),
    not_not.mpr hnodup, pieces, hpieces, (), hsome, rfl⟩

theorem total_le_of_from_meta (h : parse_torrent sha bytes = .ok torrent) (hidentity : torrent.identity = .V2 hash)
    {layout : V2PieceLayout} (hlayout : V2PieceLayout.from_meta torrent = .ok layout) :
    total_pieces torrent.piece_length torrent.files ≤ MAX_TORRENT_PIECES := by
  obtain ⟨v2, hv2, hfiles, -⟩ := parse_torrent_pure_v2 h hidentity
  rw [hfiles]
  exact from_meta_total hlayout hv2

end

/-- Accepted metadata is laid out exactly if its files have no more pieces together than a torrent may have. -/
theorem from_meta_succeeds_iff {sha : Sha} {bytes : Bytes} {torrent : TorrentMeta} {hash : V2InfoHash}
    (h : parse_torrent sha bytes = .ok torrent) (hidentity : torrent.identity = .V2 hash) :
    (∃ layout, V2PieceLayout.from_meta torrent = .ok layout) ↔
      total_pieces torrent.piece_length torrent.files ≤ MAX_TORRENT_PIECES := by
  constructor
  · rintro ⟨layout, hlayout⟩
    exact total_le_of_from_meta h hidentity hlayout
  · exact exists_from_meta h hidentity

/-- A file of the tree whose hashes are all the same. -/
def uniform_file (length : Nat) : Value :=
  .Dict [(as_bytes "", .Dict [(as_bytes "length", .Int (Int64.ofNat length)),
    (as_bytes "pieces root", .Str (uniform_layer 0).pieces_root.as_bytes)])]

/-- The `info` dictionary of a torrent with two files of one length and one content. -/
def twin_info (length : Nat) : Value :=
  .Dict [(as_bytes "file tree", .Dict [(as_bytes "x", uniform_file length), (as_bytes "y", uniform_file length)]),
    (as_bytes "meta version", .Int 2), (as_bytes "name", .Str (as_bytes "t")),
    (as_bytes "piece length", .Int 16384)]

/-- What the file tree of the two files is read as. -/
def twin_files (length : Nat) : Vec MetaFile :=
  [⟨["x"], length, some (uniform_layer 0).pieces_root⟩, ⟨["y"], length, some (uniform_layer 0).pieces_root⟩]

/-- The top level of the torrent, with one layer that both files use. -/
def twin_root (length count : Nat) : Dict := layered_root (twin_info length) [] [uniform_layer count]

/-- Two files of two pieces. -/
theorem from_meta_succeeds_iff_twins :
    ∃ torrent layout, parse_torrent Sha.leading (Value.Dict (twin_root 20000 2)).serialize = .ok torrent ∧
      V2PieceLayout.from_meta torrent = .ok layout := by
  have hread : (parse_torrent Sha.leading (Value.Dict (twin_root 20000 2)).serialize >>= fun torrent =>
      .ok (torrent.identity, total_pieces torrent.piece_length torrent.files)) =
      .ok (.V2 (.from_info_bencoded Sha.leading (twin_info 20000).serialize), 4) := by decide +kernel
  obtain ⟨torrent, htorrent, hfields⟩ := bind_eq_ok_iff.mp hread
  obtain ⟨hidentity, htotal⟩ := Prod.ext_iff.mp (Except.ok.inj hfields)
  have hfew : total_pieces torrent.piece_length torrent.files ≤ MAX_TORRENT_PIECES := htotal.le.trans (by decide)
  obtain ⟨layout, hlayout⟩ := (from_meta_succeeds_iff htorrent hidentity).mpr hfew
  exact ⟨torrent, layout, htorrent, hlayout⟩

section
variable (length count : Nat)

theorem twin_root_eq : twin_root length count = [(as_bytes "info", twin_info length),
    (as_bytes "piece layers", .Dict [((uniform_layer 0).pieces_root.as_bytes,
      .Str ((uniform_layer count).hashes.flatMap V2InfoHash.as_bytes))])] := rfl

theorem get_info_twin_root :
    (Value.Dict (twin_root length count)).get (as_bytes "info") = some (twin_info length) := rfl

theorem twin_root_admissible : (Value.Dict (twin_root length count)).Admissible := by
  rw [twin_root_eq]
  refine ⟨?_, ?_, ?_⟩
  · simp only [twin_info, uniform_file, Value.DistinctKeys, Value.DistinctKeysEntries, List.map_cons, List.map_nil]
    decide +kernel
  · simp [twin_info, uniform_file, Value.depth, Value.depth_entries, MAX_BENCODE_DEPTH]
  · simp [twin_info, uniform_file, Value.nodes, Value.nodes_entries, MAX_BENCODE_NODES]

theorem length_layer_bytes : ((uniform_layer count).hashes.flatMap V2InfoHash.as_bytes).length = 32 * count := by
  rw [List.length_flatMap, List.map_congr_left fun hash _ => V2InfoHash.length_as_bytes hash]
  simp [uniform_layer, Nat.mul_comm]

/-- The torrent around its `info` dictionary and the hashes of its layer. -/
theorem length_twin_root :
    (Value.Dict (twin_root length count)).serialize.length =
      (twin_info length).serialize.length + (decimal.render (32 * count)).length + 32 * count + 61 := by
  have hinfo : (serialize_str (as_bytes "info")).length = 6 := by decide +kernel
  have hlayers : (serialize_str (as_bytes "piece layers")).length = 15 := by decide +kernel
  have hroot : (serialize_str (uniform_layer 0).pieces_root.as_bytes).length = 35 := by decide +kernel
  rw [twin_root_eq]
  simp only [Value.serialize, Value.serialize_entries, List.length_cons, List.length_append, List.length_nil, hinfo,
    hlayers, hroot, length_serialize_str ((uniform_layer count).hashes.flatMap _), length_layer_bytes]
  omega

end

/-- The torrent is accepted with its layer if its `info` dictionary is on its own. -/
theorem parse_twin_torrent {length count : Nat} {self : TorrentMeta} {v2 : V2TorrentMeta} {hash : V2InfoHash}
    (hsize : (Value.Dict (twin_root length count)).serialize.length ≤ MAX_TORRENT_METADATA_BYTES)
    (hself : parse_torrent_root Sha.leading [(as_bytes "info", twin_info length)] (twin_info length).serialize false =
      .ok self)
    (hidentity : self.identity = .V2 hash) (hpiece_length : self.piece_length = 16384) (hv2 : self.v2 = some v2)
    (hrequired : require_layers self.piece_length v2.files [] = .ok [((uniform_layer 0).pieces_root, count)])
    (hpos : 0 < count) (hcount : count ≤ MAX_TORRENT_PIECES) :
    parse_torrent Sha.leading (Value.Dict (twin_root length count)).serialize =
      .ok (({ self with v2 := some ⟨2, v2.files, [uniform_layer count], true⟩ } : TorrentMeta).under
        (twin_root length count)) := by
  have hdecode : decode (Value.Dict (twin_root length count)).serialize = .ok (.Dict (twin_root length count)) :=
    decode_eq_ok_iff.mpr ⟨rfl, twin_root_admissible _ _, hsize⟩
  have hinfo : extract_value_bytes (Value.Dict (twin_root length count)).serialize (as_bytes "info") =
      some (twin_info length).serialize := by
    rw [extract_value_bytes_of_decode hdecode, get_info_twin_root, Option.map_some]
  have hlayers : parse_v2_piece_layers (twin_root length count) true = .ok ([uniform_layer count], true) := by
    refine (parse_v2_piece_layers_layers_dict (lookup_layered_root _ _ _)).mpr ⟨fun layer hlayer => ?_, rfl, rfl⟩
    rw [List.mem_singleton.mp hlayer, uniform_layer, List.length_replicate]
    exact hcount
  have hroots : ∀ layer ∈ [uniform_layer count],
      v2_piece_layer_root Sha.leading layer.hashes self.piece_length = .ok layer.pieces_root := by
    intro layer hlayer
    rw [List.mem_singleton.mp hlayer, hpiece_length]
    exact uniform_layer_root hpos (hcount.trans (by decide))
  have hexact : ([uniform_layer count].map fun layer => (layer.pieces_root, layer.hashes.length)).Perm
      [((uniform_layer 0).pieces_root, count)] := by
    rw [List.map_singleton, uniform_layer, List.length_replicate]
    exact List.Perm.refl _
  have hinfo_size : (twin_info length).serialize.length ≤ MAX_TORRENT_METADATA_BYTES := by
    rw [length_twin_root] at hsize
    omega
  simp only [parse_torrent, hdecode, hinfo, bind_ok, Value.as_dict, ok_or]
  exact parse_torrent_root_completed hinfo_size (find_info_layered_root (twin_info length) [] [uniform_layer count])
    hself (by rw [hidentity]; rfl) hv2 hrequired hexact hroots hlayers

theorem length_large_twins :
    (Value.Dict (twin_root 6144016384 375001)).serialize.length ≤ MAX_TORRENT_METADATA_BYTES := by
  have hinfo : (twin_info 6144016384).serialize.length ≤ 300 := by decide +kernel
  have hrender : (decimal.render (32 * 375001)).length = 8 := by decide +kernel
  rw [length_twin_root, hrender]
  generalize (twin_info 6144016384).serialize.length = size at hinfo ⊢
  have hmax : MAX_TORRENT_METADATA_BYTES = 16777216 := rfl
  omega

/-- Two files of 375001 pieces share one layer: the torrent is accepted. -/
theorem parse_large_twins :
    ∃ torrent, parse_torrent Sha.leading (Value.Dict (twin_root 6144016384 375001)).serialize = .ok torrent ∧
      torrent.identity = .V2 (.from_info_bencoded Sha.leading (twin_info 6144016384).serialize) ∧
      total_pieces torrent.piece_length torrent.files = 750002 := by
  have hread : (parse_torrent_root Sha.leading [(as_bytes "info", twin_info 6144016384)]
      (twin_info 6144016384).serialize false >>= fun self =>
        .ok (self.identity, self.piece_length, self.files, self.v2.map V2TorrentMeta.files)) =
      .ok (.V2 (.from_info_bencoded Sha.leading (twin_info 6144016384).serialize), 16384,
        twin_files 6144016384, some (twin_files 6144016384)) := by decide +kernel
  obtain ⟨self, hself, hfields⟩ := bind_eq_ok_iff.mp hread
  simp only [Except.ok.injEq, Prod.mk.injEq, Option.map_eq_some_iff] at hfields
  obtain ⟨hidentity, hpiece_length, hstorage, v2, hv2, hfiles⟩ := hfields
  have hrequired : require_layers self.piece_length v2.files [] = .ok [((uniform_layer 0).pieces_root, 375001)] := by
    rw [hpiece_length, hfiles]
    decide +kernel
  have hparsed := parse_twin_torrent length_large_twins hself hidentity hpiece_length hv2 hrequired (by decide)
    (by decide)
  refine ⟨_, hparsed, hidentity, ?_⟩
  simp only [TorrentMeta.under, hpiece_length, hstorage]
  decide

/-- The two files have too many pieces to be laid out. -/
theorem twins_not_laid_out :
    ∃ torrent, parse_torrent Sha.leading (Value.Dict (twin_root 6144016384 375001)).serialize = .ok torrent ∧
      torrent.identity = .V2 (.from_info_bencoded Sha.leading (twin_info 6144016384).serialize) ∧
      ∀ layout, V2PieceLayout.from_meta torrent ≠ .ok layout := by
  obtain ⟨torrent, hparsed, hidentity, hcount⟩ := parse_large_twins
  refine ⟨torrent, hparsed, hidentity, fun layout hlayout => ?_⟩
  have htotal := total_le_of_from_meta hparsed hidentity hlayout
  rw [hcount] at htotal
  exact absurd htotal (by decide)

end swarmotter.v2

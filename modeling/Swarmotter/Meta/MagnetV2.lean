import Swarmotter.Meta.Required

open swarmotter.bencode

namespace swarmotter.meta

section
variable {sha : Sha} {root info : Dict} {info_bytes : Bytes} {torrent : TorrentMeta} {require : Bool}

/-- What the parser reads from the `info` dictionary of a pure version 2 torrent. -/
structure V2Tree (info : Dict) (name : String) (piece_length : Nat) (files : Vec MetaFile) (total : Nat) : Prop where
  parse_name : parse_name info = .ok name
  parse_piece_length : parse_piece_length info = .ok piece_length
  block_length : validate_v2_piece_length piece_length = .ok ()
  parse_files : ∃ file_tree, (lookup info "file tree").bind Value.as_dict = some file_tree ∧
    parse_v2_file_tree file_tree = .ok files
  file_length : total_file_length files "BEP 52 file tree" = .ok total
  total_ne_zero : total ≠ 0

/-- The metadata that the parser builds for a pure version 2 torrent. -/
def pure_v2_meta (sha : Sha) (root info : Dict) (info_bytes : Bytes) (name : String)
    (piece_length total : Nat) (v2 : V2TorrentMeta) : TorrentMeta where
  info_hash := InfoHash.ZERO
  identity := .V2 (V2InfoHash.from_info_bencoded sha info_bytes)
  name := name
  piece_length := piece_length
  pieces := []
  files := v2.files
  total_length := total
  private_flag := (get_int info "private").getD 0 = 1
  announce := get_str root "announce"
  announce_list := parse_announce_list root
  webseeds := parse_url_list root
  comment := get_str root "comment"
  created_by := get_str root "created by"
  creation_date := (get_int root "creation date").map Int64.toUInt64
  is_multi_file := v2.files.length ≠ 1
  v2 := some v2
  raw_info := some info_bytes

theorem parse_name_eq_ok_iff {name : String} :
    parse_name info = .ok name ↔ get_str info "name" = some name ∧
      validate_path_component name "torrent name" = .ok () ∧ name ≠ "" := by
  simp only [parse_name, eq_ok_iff]
  constructor
  · rintro ⟨found, hfound, ⟨⟩, hvalid, -, hne, rfl⟩
    exact ⟨hfound, hvalid, hne⟩
  · rintro ⟨hfound, hvalid, hne⟩
    exact ⟨name, hfound, (), hvalid, (), hne, rfl⟩

theorem parse_piece_length_bounds {piece_length : Nat} (h : parse_piece_length info = .ok piece_length) :
    piece_length ≠ 0 ∧ piece_length ≤ MAX_PIECE_LENGTH := by
  simp only [parse_piece_length, eq_ok_iff] at h
  obtain ⟨length, -, -, hpositive, -, hmaximum, rfl⟩ := h
  omega

/-- The context of a file list is only for its error messages. -/
theorem validate_file_list_context {files : Vec MetaFile} {total : Nat} {context other : String}
    (h : validate_file_list files total context = .ok ()) : validate_file_list files total other = .ok () := by
  have hfold : ∀ (files : Vec MetaFile) (start sum : Nat),
      files.foldlM (fun total file => ok_or (checked_add total file.length)
        (CoreError.MalformedTorrent s!"{context} total file length exceeds u64")) start = .ok sum →
      files.foldlM (fun total file => ok_or (checked_add total file.length)
        (CoreError.MalformedTorrent s!"{other} total file length exceeds u64")) start = .ok sum := by
    intro files
    induction files with
    | nil => exact fun _ _ h => h
    | cons file files ih =>
      intro start sum h
      rw [List.foldlM_cons, bind_eq_ok_iff] at h ⊢
      obtain ⟨next, hnext, h⟩ := h
      rw [ok_or_eq_ok_iff] at hnext
      exact ⟨next, (ok_or_eq_ok_iff).mpr hnext, ih next sum h⟩
  simp only [validate_file_list, eq_ok_iff] at h ⊢
  obtain ⟨-, hne, -, hcount, ⟨⟩, hpaths, sum, hsum, htotal⟩ := h
  exact ⟨(), hne, (), hcount, (), hpaths, sum, hfold files 0 sum hsum, htotal⟩

/-- Piece layers that were asked for are there. -/
theorem parse_v2_piece_layers_required {layers : Vec V2PieceLayer} {verified : Bool}
    (h : parse_v2_piece_layers root true = .ok (layers, verified)) : verified = true := by
  cases hlookup : lookup root "piece layers" with
  | none => simp [parse_v2_piece_layers, hlookup] at h
  | some value =>
    simp only [parse_v2_piece_layers, hlookup, eq_ok_iff, Prod.mk.injEq] at h
    obtain ⟨-, -, -, -, -, hverified⟩ := h
    exact hverified.symm

/-- The final validation of pure version 2 metadata repeats checks that parsing has made. -/
theorem pure_v2_meta_valid {name : String} {piece_length total : Nat} {files : Vec MetaFile}
    {layers : Vec V2PieceLayer} (hsize : info_bytes.length ≤ MAX_TORRENT_METADATA_BYTES)
    (htree : V2Tree info name piece_length files total)
    (hvalid : validate_v2_metadata sha ⟨2, files, layers, true⟩ piece_length total = .ok ()) :
    (pure_v2_meta sha root info info_bytes name piece_length total ⟨2, files, layers, true⟩).validate sha
      = .ok () := by
  obtain ⟨-, hname, hne⟩ := parse_name_eq_ok_iff.mp htree.parse_name
  obtain ⟨hpositive, hmaximum⟩ := parse_piece_length_bounds htree.parse_piece_length
  obtain ⟨rooted, hfiles, -, -⟩ := validate_v2_metadata_eq_ok_iff.mp hvalid
  have hlist : validate_file_list files total "torrent" = .ok () := validate_file_list_context hfiles.files
  have hraw : validate_raw_info sha
      (pure_v2_meta sha root info info_bytes name piece_length total ⟨2, files, layers, true⟩) = .ok () := by
    simp only [validate_raw_info, pure_v2_meta, eq_ok_iff]
    refine ⟨(), by omega, ?_⟩
    simp [TorrentIdentity.matches_info_bencoded, reject_if]
  simp only [TorrentMeta.validate, eq_ok_iff]
  refine ⟨(), hne, (), hname, (), hpositive, (), by simpa [pure_v2_meta] using hmaximum, (),
    htree.total_ne_zero, (), hlist, (), ?_, (), hraw, ?_⟩
  · simp [pure_v2_meta]
  · simp [validate_identity, pure_v2_meta, ok_or, reject_if, hvalid]

/-- What the parser accepts as pure version 2 metainfo, and the metadata it makes of it. -/
theorem parse_v2_torrent_root_eq_ok_iff (hsize : info_bytes.length ≤ MAX_TORRENT_METADATA_BYTES) :
    parse_v2_torrent_root sha root info info_bytes require = .ok torrent ↔
      ∃ name piece_length total, ∃ v2 : V2TorrentMeta, V2Tree info name piece_length v2.files total ∧
        parse_v2_piece_layers root require = .ok (v2.piece_layers, v2.piece_layers_verified) ∧
        validate_v2_metadata sha v2 piece_length total = .ok () ∧
        torrent = pure_v2_meta sha root info info_bytes name piece_length total v2 := by
  simp only [parse_v2_torrent_root, parse_v2_metadata, eq_ok_iff]
  constructor
  · rintro ⟨name, hname, piece_length, hlength, ⟨⟩, hblock, v2,
      ⟨⟨⟩, -, file_tree, htree, files, hfiles, total, htotal, -, hne, ⟨layers, verified⟩, hlayers, ⟨⟩,
        hvalid, rfl⟩, total', htotal', -, -, -, -, rfl⟩
    have hsame : total' = total := Except.ok.inj (htotal'.symm.trans htotal)
    subst hsame
    exact ⟨name, piece_length, total', ⟨2, files, layers, verified⟩,
      ⟨hname, hlength, hblock, ⟨file_tree, htree, hfiles⟩, htotal, hne⟩, hlayers, hvalid, rfl⟩
  · rintro ⟨name, piece_length, total, ⟨version, files, layers, verified⟩, htree, hlayers, hvalid, rfl⟩
    obtain ⟨rooted, hchecked, -, -⟩ := validate_v2_metadata_eq_ok_iff.mp hvalid
    have hversion : version = 2 := hchecked.version
    subst hversion
    obtain ⟨file_tree, hfile_tree, hfiles⟩ := htree.parse_files
    refine ⟨name, htree.parse_name, piece_length, htree.parse_piece_length, (), htree.block_length,
      ⟨2, files, layers, verified⟩, ⟨(), htree.block_length, file_tree, hfile_tree, files, hfiles, total,
        htree.file_length, (), htree.total_ne_zero, (layers, verified), hlayers, (), hvalid, rfl⟩,
      total, htree.file_length, (), htree.total_ne_zero, (), ?_, rfl⟩
    cases require with
    | false => rfl
    | true =>
      have hverified : verified = true := parse_v2_piece_layers_required hlayers
      subst hverified
      exact pure_v2_meta_valid hsize htree hvalid

end

variable {layers : Vec V2PieceLayer}

section
variable {sha : Sha} {info_bytes : Bytes} {trackers : Vec String} {torrent : TorrentMeta}

theorem magnet_root_info (info : Value) (extra : Dict) :
    lookup (magnet_root_with_trackers info trackers ++ extra) "info" = some info := by
  apply lookup_append_of_some
  have hannounce : (as_bytes "announce" == as_bytes "info") = false := by decide
  have hlist : (as_bytes "announce-list" == as_bytes "info") = false := by decide
  rcases trackers with _ | ⟨primary, _ | ⟨second, rest⟩⟩ <;>
    simp [magnet_root_with_trackers, lookup, hannounce, hlist]

theorem magnet_root_no_layers (info : Value) :
    lookup (magnet_root_with_trackers info trackers) "piece layers" = none := by
  have hannounce : (as_bytes "announce" == as_bytes "piece layers") = false := by decide
  have hlist : (as_bytes "announce-list" == as_bytes "piece layers") = false := by decide
  have hinfo : (as_bytes "info" == as_bytes "piece layers") = false := by decide
  rcases trackers with _ | ⟨primary, _ | ⟨second, rest⟩⟩ <;>
    simp [magnet_root_with_trackers, lookup, hannounce, hlist, hinfo]

theorem parse_v2_hash_bytes_as_bytes (hash : V2InfoHash) (field : String) :
    parse_v2_hash_bytes hash.as_bytes field = .ok hash := by
  rw [parse_v2_hash_bytes, dif_pos hash.length_as_bytes]
  refine congrArg Except.ok (V2InfoHash.as_bytes_injective ?_)
  simp [V2InfoHash.as_bytes, Vector.toList]

/-- A layer written out and read back is the layer, unless it is too long to be read. -/
theorem parse_v2_layer_as_bytes (layer : V2PieceLayer) {parsed : V2PieceLayer} :
    parse_v2_layer layer.pieces_root.as_bytes (.Str (layer.hashes.flatMap V2InfoHash.as_bytes)) = .ok parsed ↔
      layer.hashes.length ≤ MAX_TORRENT_PIECES ∧ parsed = layer := by
  have hlength : (layer.hashes.flatMap V2InfoHash.as_bytes).length = 32 * layer.hashes.length := by
    simp [List.length_flatMap, V2InfoHash.length_as_bytes, Nat.mul_comm]
  have hhashes : (slices.chunks 32 (layer.hashes.flatMap V2InfoHash.as_bytes)).mapM
      (fun hash => parse_v2_hash_bytes hash "BEP 52 piece-layer hash") = .ok layer.hashes := by
    rw [slices.chunks_flatMap (by decide) _ V2InfoHash.length_as_bytes, mapM_eq_ok_iff,
      List.forall₂_map_left_iff, List.forall₂_same]
    exact fun hash _ => parse_v2_hash_bytes_as_bytes hash _
  simp only [parse_v2_layer, Value.as_str, parse_v2_hash_bytes_as_bytes, ok_or, bind_ok, eq_ok_iff, hlength, hhashes,
    Nat.mul_mod_right, ne_eq, not_true_eq_false, not_false_eq_true, Nat.mul_div_cancel_left _ (show 0 < 32 by decide),
    not_lt, exists_const, true_and, gt_iff_lt]
  exact and_congr_right fun _ => eq_comm

variable {require : Bool}

/-- The `piece layers` that the daemon writes for fetched layers are read back as those layers. -/
theorem parse_v2_piece_layers_layers_dict {root : Dict} {parsed : Vec V2PieceLayer} {verified : Bool}
    (hroot : lookup root "piece layers" = some (.Dict (layers_dict layers))) :
    parse_v2_piece_layers root require = .ok (parsed, verified) ↔
      (∀ layer ∈ layers, layer.hashes.length ≤ MAX_TORRENT_PIECES) ∧ parsed = layers ∧ verified = true := by
  simp only [parse_v2_piece_layers, hroot, Value.as_dict, ok_or, bind_ok, eq_ok_iff, Prod.mk.injEq, layers_dict,
    mapM_eq_ok_iff, List.forall₂_map_left_iff, parse_v2_layer_as_bytes]
  constructor
  · rintro ⟨read, hall, hread, hverified⟩
    have hsame : read = layers := by
      have heq : List.Forall₂ Eq layers read := hall.imp fun _ _ h => h.2.symm
      rw [List.forall₂_eq_eq_eq] at heq
      exact heq.symm
    subst hsame hread hverified
    rw [List.forall₂_same] at hall
    exact ⟨fun layer hlayer => (hall layer hlayer).1, rfl, rfl⟩
  · rintro ⟨hall, rfl, rfl⟩
    exact ⟨parsed, List.forall₂_same.mpr fun layer hlayer => ⟨hall layer hlayer, rfl⟩, rfl, rfl⟩

/-- An `info` dictionary of the pure version 2 kind, as the parser reads it. -/
structure V2Info (info_bytes : Bytes) (value : Value) (info : Dict) (name : String)
    (piece_length : Nat) (files : Vec MetaFile) (total : Nat) : Prop where
  decoded : decode_info info_bytes = .ok value
  as_dict : value.as_dict = some info
  kind : kind info = .v2
  version : (lookup info "meta version").bind Value.as_int = some 2
  tree : V2Tree info name piece_length files total

theorem decode_info_length {value : Value} (h : decode_info info_bytes = .ok value) :
    info_bytes.length ≤ MAX_TORRENT_METADATA_BYTES := by
  simp only [decode_info, bind_eq_ok_iff] at h
  obtain ⟨decoded, hdecoded, -⟩ := h
  exact (decode_eq_ok_iff.mp hdecoded).2.2

theorem parse_torrent_root_of_kind_v2 {root info : Dict}
    (hroot : find_info_dict root = .ok info) (hkind : kind info = .v2)
    (hversion : (lookup info "meta version").bind Value.as_int = some 2) :
    parse_torrent_root sha root info_bytes require = parse_v2_torrent_root sha root info info_bytes require := by
  obtain ⟨version, hlookup, hint⟩ := Option.bind_eq_some_iff.mp hversion
  have hkeys : (has_key info "pieces" || (has_key info "length" || has_key info "files")) = false := by
    simp only [kind, hlookup] at hkind
    cases hpieces : has_key info "pieces" <;> cases hlength : has_key info "length" <;>
      cases hfiles : has_key info "files" <;> simp_all
  simp only [parse_torrent_root, hroot, bind_ok, hlookup, hint, ok_or, reject_if, hkeys]
  simp

theorem parse_torrent_root_version {root info : Dict} (hroot : find_info_dict root = .ok info) (hkind : kind info ≠ .v1)
    (h : parse_torrent_root sha root info_bytes require = .ok torrent) :
    (lookup info "meta version").bind Value.as_int = some 2 := by
  cases hlookup : lookup info "meta version" with
  | none => simp [kind, hlookup] at hkind
  | some version =>
    simp only [parse_torrent_root, hroot, bind_ok, hlookup, eq_ok_iff, ne_eq, not_not] at h
    obtain ⟨meta_version, hint, -, rfl, -⟩ := h
    exact hint

/-- Metadata that needs the SHA-256 data plane comes from an `info` dictionary of the pure version 2
    kind. -/
theorem parse_with_layers_v2Info (h : parse_info_dict_with_piece_layers sha info_bytes trackers layers = .ok torrent)
    (hv2 : torrent.requires_v2_data_plane = true) :
    ∃ value info name piece_length files total,
      V2Info info_bytes value info name piece_length files total := by
  simp only [parse_info_dict_with_piece_layers, bind_eq_ok_iff] at h
  obtain ⟨value, hvalue, h⟩ := h
  obtain ⟨info, hinfo, hparsed⟩ := parse_torrent_root_parsed h
  have hdict : value.as_dict = some info := by
    simpa [find_info_dict, magnet_root_info] using hinfo
  cases hparsed with
  | v1 _ h => simp [TorrentMeta.requires_v2_data_plane_iff, h.identity] at hv2
  | hybrid _ h => simp [TorrentMeta.requires_v2_data_plane_iff, h.identity] at hv2
  | v2 hkind _ =>
    have hversion := parse_torrent_root_version hinfo (by rw [hkind]; decide) h
    rw [parse_torrent_root_of_kind_v2 hinfo hkind hversion,
      parse_v2_torrent_root_eq_ok_iff (decode_info_length hvalue)] at h
    obtain ⟨name, piece_length, total, v2, htree, -, -, -⟩ := h
    exact ⟨value, info, name, piece_length, v2.files, total, hvalue, hdict, hkind, hversion, htree⟩

end

section
variable {sha : Sha} {info_bytes : Bytes} {trackers : Vec String} {value : Value} {info : Dict}
  {name : String} {piece_length total : Nat} {files : Vec MetaFile}

theorem V2Tree.unique (h : V2Tree info name piece_length files total) {name' : String}
    {piece_length' total' : Nat} {files' : Vec MetaFile}
    (h' : V2Tree info name' piece_length' files' total') :
    name' = name ∧ piece_length' = piece_length ∧ files' = files ∧ total' = total := by
  obtain ⟨tree, htree, hfiles⟩ := h.parse_files
  obtain ⟨tree', htree', hfiles'⟩ := h'.parse_files
  obtain rfl : tree' = tree := Option.some.inj (htree'.symm.trans htree)
  obtain rfl : files' = files := Except.ok.inj (hfiles'.symm.trans hfiles)
  refine ⟨Except.ok.inj (h'.parse_name.symm.trans h.parse_name),
    Except.ok.inj (h'.parse_piece_length.symm.trans h.parse_piece_length), rfl,
    Except.ok.inj (h'.file_length.symm.trans h.file_length)⟩

/-- A pure version 2 `info` dictionary is accepted with exactly the layers that pass validation,
    each short enough to be read back. -/
theorem parse_with_layers_isOk_iff (h : V2Info info_bytes value info name piece_length files total) :
    (∃ torrent, parse_info_dict_with_piece_layers sha info_bytes trackers layers = .ok torrent) ↔
      (∀ layer ∈ layers, layer.hashes.length ≤ MAX_TORRENT_PIECES) ∧
        validate_v2_metadata sha ⟨2, files, layers, true⟩ piece_length total = .ok () := by
  have hroot : find_info_dict (magnet_root_with_trackers value trackers ++
      [(as_bytes "piece layers", .Dict (layers_dict layers))]) = .ok info := by
    simp [find_info_dict, magnet_root_info, h.as_dict, ok_or]
  have hlookup : lookup (magnet_root_with_trackers value trackers ++
      [(as_bytes "piece layers", .Dict (layers_dict layers))]) "piece layers" = some (.Dict (layers_dict layers)) := by
    rw [lookup_append_of_none (magnet_root_no_layers value)]
    simp [lookup]
  simp only [parse_info_dict_with_piece_layers, h.decoded, bind_ok,
    parse_torrent_root_of_kind_v2 hroot h.kind h.version,
    parse_v2_torrent_root_eq_ok_iff (decode_info_length h.decoded),
    parse_v2_piece_layers_layers_dict hlookup]
  constructor
  · rintro ⟨_, name', piece_length', total', ⟨version, files', layers', verified⟩, htree,
      ⟨hshort, rfl, rfl⟩, hvalid, -⟩
    obtain ⟨rfl, rfl, rfl, rfl⟩ := h.tree.unique htree
    obtain ⟨rooted, hchecked, -, -⟩ := validate_v2_metadata_eq_ok_iff.mp hvalid
    have hversion : version = 2 := hchecked.version
    subst hversion
    exact ⟨hshort, hvalid⟩
  · rintro ⟨hshort, hvalid⟩
    exact ⟨_, name, piece_length, total, ⟨2, files, layers, true⟩, h.tree, ⟨hshort, rfl, rfl⟩, hvalid, rfl⟩

/-- Whatever the layers, the identity is the SHA-256 of the exchanged bytes. -/
theorem parse_with_layers_identity (h : V2Info info_bytes value info name piece_length files total)
    {torrent : TorrentMeta} (hok : parse_info_dict_with_piece_layers sha info_bytes trackers layers = .ok torrent) :
    torrent.identity = .V2 (V2InfoHash.from_info_bencoded sha info_bytes) ∧
      torrent.piece_length = piece_length := by
  have hroot : find_info_dict (magnet_root_with_trackers value trackers ++
      [(as_bytes "piece layers", .Dict (layers_dict layers))]) = .ok info := by
    simp [find_info_dict, magnet_root_info, h.as_dict, ok_or]
  simp only [parse_info_dict_with_piece_layers, h.decoded, bind_ok,
    parse_torrent_root_of_kind_v2 hroot h.kind h.version] at hok
  have hparsed := parse_v2_torrent_root_parsed hok
  exact ⟨hparsed.identity, Except.ok.inj (hparsed.piece_length.symm.trans h.tree.parse_piece_length)⟩

/-- Inspection asks for the layers before they are there, and describes the files alike. -/
theorem inspect_bep9_v2_info_of_v2Info (h : V2Info info_bytes value info name piece_length files total)
    {rooted : Vec (V2InfoHash × MetaFile)}
    (hfiles : FilesChecked ⟨2, files, [], false⟩ piece_length total rooted) :
    inspect_bep9_v2_info sha info_bytes =
      .ok (some ⟨V2InfoHash.from_info_bencoded sha info_bytes, piece_length, files⟩) := by
  have hroot : find_info_dict [(as_bytes "info", value)] = .ok info := by
    simp [find_info_dict, lookup, h.as_dict, ok_or]
  have hnone : parse_v2_piece_layers [(as_bytes "info", value)] false = .ok ([], false) := by
    have hkey : (as_bytes "info" == as_bytes "piece layers") = false := by decide
    simp [parse_v2_piece_layers, lookup, hkey]
  have hvalid : validate_v2_metadata sha ⟨2, files, [], false⟩ piece_length total = .ok () :=
    validate_v2_metadata_eq_ok_iff.mpr ⟨rooted, hfiles, fun _ => rfl, by simp⟩
  have hparse : parse_torrent_root sha [(as_bytes "info", value)] info_bytes false =
      .ok (pure_v2_meta sha [(as_bytes "info", value)] info info_bytes name piece_length total
        ⟨2, files, [], false⟩) := by
    rw [parse_torrent_root_of_kind_v2 hroot h.kind h.version,
      parse_v2_torrent_root_eq_ok_iff (decode_info_length h.decoded)]
    exact ⟨name, piece_length, total, _, h.tree, hnone, hvalid, rfl⟩
  simp [inspect_bep9_v2_info, h.decoded, hparse, pure_v2_meta, TorrentIdentity.v2_info_hash, ok_or]

end

end swarmotter.meta

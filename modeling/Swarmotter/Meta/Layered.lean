import Swarmotter.Meta.MagnetV2

open swarmotter.bencode

namespace swarmotter.meta

section
variable {sha : Sha} {info_bytes : Bytes} {trackers : Vec String} {value : Value} {info root root' : Dict}
  {layers : Vec V2PieceLayer} {torrent self : TorrentMeta} {v2 : V2TorrentMeta} {piece_length total : Nat}
  {files : Vec MetaFile} {required : Vec (V2InfoHash × Nat)}

/-- The same metadata under another top-level dictionary. -/
def TorrentMeta.under (self : TorrentMeta) (root : Dict) : TorrentMeta :=
  { self with
    announce := get_str root "announce"
    announce_list := parse_announce_list root
    webseeds := parse_url_list root
    comment := get_str root "comment"
    created_by := get_str root "created by"
    creation_date := (get_int root "creation date").map Int64.toUInt64 }

/-- No check looks at these fields. -/
theorem TorrentMeta.validate_under (self : TorrentMeta) (root : Dict) :
    (self.under root).validate sha = self.validate sha := rfl

/-- The version 1 parser reads the top-level dictionary for these fields only. -/
theorem parse_v1_torrent_root_under (hroot : find_info_dict root' = find_info_dict root)
    (h : parse_v1_torrent_root sha root info_bytes = .ok self) :
    parse_v1_torrent_root sha root' info_bytes = .ok (self.under root') := by
  simp only [parse_v1_torrent_root, eq_ok_iff, hroot] at h ⊢
  obtain ⟨info, hinfo, name, hname, length, hlength, u₁, h₁, u₂, h₂, pieces, hpieces, u₃, h₃, u₄, h₄,
    parsed, hparsed, u₅, h₅, u₆, h₆, u₇, h₇, u₈, hvalid, rfl⟩ := h
  exact ⟨info, hinfo, name, hname, length, hlength, u₁, h₁, u₂, h₂, pieces, hpieces, u₃, h₃, u₄, h₄,
    parsed, hparsed, u₅, h₅, u₆, h₆, u₇, h₇, u₈, hvalid, rfl⟩

/-- What the parser reads from the `info` dictionary for the version 2 part of metadata. -/
theorem parse_v2_metadata_eq_ok_iff {require : Bool} :
    parse_v2_metadata sha root info piece_length require = .ok v2 ↔ validate_v2_piece_length piece_length = .ok () ∧
      (∃ file_tree, (lookup info "file tree").bind Value.as_dict = some file_tree ∧
        parse_v2_file_tree file_tree = .ok v2.files) ∧
      ∃ total, total_file_length v2.files "BEP 52 file tree" = .ok total ∧ total ≠ 0 ∧
        parse_v2_piece_layers root require = .ok (v2.piece_layers, v2.piece_layers_verified) ∧
        v2.meta_version = 2 ∧ validate_v2_metadata sha v2 piece_length total = .ok () := by
  simp only [parse_v2_metadata, eq_ok_iff]
  constructor
  · rintro ⟨⟨⟩, hlength, file_tree, htree, files, hfiles, total, htotal, -, hne, ⟨layers, verified⟩, hlayers, ⟨⟩,
      hvalid, rfl⟩
    exact ⟨hlength, ⟨file_tree, htree, hfiles⟩, total, htotal, hne, hlayers, rfl, hvalid⟩
  · rintro ⟨hlength, ⟨file_tree, htree, hfiles⟩, total, htotal, hne, hlayers, hversion, hvalid⟩
    obtain ⟨version, files, layers, verified⟩ := v2
    obtain rfl : version = 2 := hversion
    exact ⟨(), hlength, file_tree, htree, files, hfiles, total, htotal, (), hne, (layers, verified), hlayers, (),
      hvalid, rfl⟩

/-- Metadata without layers that is valid is valid with the layers that it requires. -/
theorem validate_v2_metadata_completed (hvalid : validate_v2_metadata sha v2 piece_length total = .ok ())
    (hrequired : require_layers piece_length v2.files [] = .ok required)
    (hexact : (layers.map fun layer => (layer.pieces_root, layer.hashes.length)).Perm required)
    (hroots : ∀ layer ∈ layers, v2_piece_layer_root sha layer.hashes piece_length = .ok layer.pieces_root) :
    validate_v2_metadata sha ⟨2, v2.files, layers, true⟩ piece_length total = .ok () := by
  obtain ⟨rooted, hfiles, -, -⟩ := validate_v2_metadata_eq_ok_iff.mp hvalid
  exact validate_v2_metadata_eq_ok_iff.mpr ⟨rooted, ⟨rfl, hfiles.piece_length, hfiles.files, hfiles.rooted⟩, by simp,
    fun _ => .of_required hfiles.rooted hrequired hexact hroots⟩

/-- Hybrid metadata stays valid when its version 2 part is exchanged for a valid one with the same files. -/
theorem validate_hybrid_exchange {v1 : InfoHash} {hash : V2InfoHash} (hidentity : self.identity = .Hybrid v1 hash)
    (hv2 : self.v2 = some v2) {v2' : V2TorrentMeta} (hfiles : v2'.files = v2.files)
    (hvalid' : validate_v2_metadata sha v2' self.piece_length self.total_length = .ok ())
    (hvalid : self.validate sha = .ok ()) : ({ self with v2 := some v2' } : TorrentMeta).validate sha = .ok () := by
  simp only [TorrentMeta.validate, bind_eq_ok_iff] at hvalid ⊢
  obtain ⟨u₁, h₁, u₂, h₂, u₃, h₃, u₄, h₄, u₅, h₅, u₆, h₆, u₇, h₇, u₈, h₈, hlast⟩ := hvalid
  refine ⟨u₁, h₁, u₂, h₂, u₃, h₃, u₄, h₄, u₅, h₅, u₆, h₆, u₇, h₇, u₈, h₈, ?_⟩
  simp only [validate_identity, hidentity, hv2, eq_ok_iff] at hlast ⊢
  obtain ⟨w₁, hhash, w₂, hpieces, found, ⟨⟩, w₃, -, hlayout⟩ := hlast
  exact ⟨w₁, hhash, w₂, hpieces, v2', rfl, (), hvalid', by rw [hfiles]; exact hlayout⟩

/-- What the parser makes of hybrid metainfo. -/
def hybrid_meta (sha : Sha) (info_bytes : Bytes) (v1 : TorrentMeta) (v2 : V2TorrentMeta) : TorrentMeta :=
  { v1 with identity := .Hybrid v1.info_hash (V2InfoHash.from_info_bencoded sha info_bytes), v2 := some v2 }

theorem parse_torrent_root_hybrid_eq_ok_iff {require : Bool} (hroot : find_info_dict root = .ok info)
    (hkind : kind info = .hybrid) :
    parse_torrent_root sha root info_bytes require = .ok torrent ↔
      (lookup info "meta version").bind Value.as_int = some 2 ∧
      (has_key info "pieces" && (has_key info "length" || has_key info "files")) = true ∧
      ∃ v1 v2, parse_v1_torrent_root sha root info_bytes = .ok v1 ∧
        parse_v2_metadata sha root info v1.piece_length require = .ok v2 ∧
        validate_hybrid_layout v1.files v2.files v1.is_multi_file = .ok () ∧
        (hybrid_meta sha info_bytes v1 v2).validate sha = .ok () ∧ torrent = hybrid_meta sha info_bytes v1 v2 := by
  obtain ⟨version, hversion⟩ : ∃ version, lookup info "meta version" = some version := by
    cases hlookup : lookup info "meta version" with
    | none => simp [kind, hlookup] at hkind
    | some version => exact ⟨version, rfl⟩
  have hkeys : (has_key info "pieces" || (has_key info "length" || has_key info "files")) = true := by
    by_contra hnone
    simp [kind, hversion, Bool.or_assoc, hnone] at hkind
  simp only [parse_torrent_root, hroot, bind_ok, hversion, hkeys, if_true, eq_ok_iff, Option.bind_some, ne_eq, not_not,
    Bool.not_eq_false]
  constructor
  · rintro ⟨two, htwo, -, rfl, -, hboth, v1, hv1, v2, hv2, ⟨⟩, hlayout, ⟨⟩, hvalid, rfl⟩
    exact ⟨htwo, hboth, v1, v2, hv1, hv2, hlayout, hvalid, rfl⟩
  · rintro ⟨htwo, hboth, v1, v2, hv1, hv2, hlayout, hvalid, rfl⟩
    exact ⟨2, htwo, (), rfl, (), hboth, v1, hv1, v2, hv2, (), hlayout, (), hvalid, rfl⟩

/-- With the layers it requires, what was inspected is accepted in full and keeps its description. -/
theorem parse_torrent_root_completed {identity : V2InfoHash} (hsize : info_bytes.length ≤ MAX_TORRENT_METADATA_BYTES)
    (hroot : find_info_dict root' = find_info_dict root) (h : parse_torrent_root sha root info_bytes false = .ok self)
    (hidentity : self.identity.v2_info_hash = some identity) (hv2 : self.v2 = some v2)
    (hrequired : require_layers self.piece_length v2.files [] = .ok required)
    (hexact : (layers.map fun layer => (layer.pieces_root, layer.hashes.length)).Perm required)
    (hroots : ∀ layer ∈ layers, v2_piece_layer_root sha layer.hashes self.piece_length = .ok layer.pieces_root)
    (hlayers : parse_v2_piece_layers root' true = .ok (layers, true)) :
    parse_torrent_root sha root' info_bytes true =
      .ok (({ self with v2 := some ⟨2, v2.files, layers, true⟩ } : TorrentMeta).under root') := by
  obtain ⟨info, hinfo, hparsed⟩ := parse_torrent_root_parsed h
  have hinfo' := hroot.trans hinfo
  cases hparsed with
  | v1 _ hv1 => simp [hv1.identity, TorrentIdentity.v2_info_hash] at hidentity
  | v2 hkind _ =>
    have hversion := parse_torrent_root_version hinfo (by rw [hkind]; decide) h
    rw [parse_torrent_root_of_kind_v2 hinfo hkind hversion, parse_v2_torrent_root_eq_ok_iff hsize] at h
    obtain ⟨name, piece_length, total, found, htree, -, hvalid, rfl⟩ := h
    obtain rfl : found = v2 := Option.some.inj hv2
    rw [parse_torrent_root_of_kind_v2 hinfo' hkind hversion, parse_v2_torrent_root_eq_ok_iff hsize]
    exact ⟨name, piece_length, total, ⟨2, found.files, layers, true⟩, htree, hlayers,
      validate_v2_metadata_completed hvalid hrequired hexact hroots, rfl⟩
  | hybrid hkind _ =>
    rw [parse_torrent_root_hybrid_eq_ok_iff hinfo hkind] at h
    obtain ⟨hversion, hkeys, v1, found, hv1, hmetadata, hlayout, hvalid, rfl⟩ := h
    obtain rfl : found = v2 := Option.some.inj hv2
    obtain ⟨hblock, htree, total, htotal, hne, -, -, hchecked⟩ := parse_v2_metadata_eq_ok_iff.mp hmetadata
    obtain ⟨found', hfound, hwhole⟩ := validate_v2_metadata_of_validate hvalid hidentity
    obtain rfl : found' = found := (Option.some.inj hfound).symm
    rw [parse_torrent_root_hybrid_eq_ok_iff hinfo' hkind]
    refine ⟨hversion, hkeys, v1.under root', ⟨2, found'.files, layers, true⟩,
      parse_v1_torrent_root_under hroot hv1, ?_, hlayout, ?_, rfl⟩
    · exact parse_v2_metadata_eq_ok_iff.mpr ⟨hblock, htree, total, htotal, hne, hlayers, rfl,
        validate_v2_metadata_completed hchecked hrequired hexact hroots⟩
    · have hcompleted := validate_v2_metadata_completed hwhole hrequired hexact hroots
      have hsame : hybrid_meta sha info_bytes (v1.under root') ⟨2, found'.files, layers, true⟩ =
          ({ hybrid_meta sha info_bytes v1 found' with v2 := some ⟨2, found'.files, layers, true⟩ } :
            TorrentMeta).under root' := rfl
      rw [hsame, TorrentMeta.validate_under]
      exact validate_hybrid_exchange rfl hv2 rfl hcompleted hvalid

/-- Layers that were asked for are read, whatever the kind of the metadata. -/
theorem parse_v2_piece_layers_of_parsed (h : parse_torrent_root sha root' info_bytes true = .ok torrent)
    (hinfo : find_info_dict root' = .ok info) (hkind : kind info ≠ .v1) :
    ∃ v2, parse_v2_piece_layers root' true = .ok v2 := by
  obtain ⟨found, hfound, hparsed⟩ := parse_torrent_root_parsed h
  obtain rfl : found = info := Except.ok.inj (hfound.symm.trans hinfo)
  cases hparsed with
  | v1 hv1 _ => exact absurd hv1 hkind
  | v2 _ h =>
    obtain ⟨v2, -, -, hv2⟩ := h.v2
    obtain ⟨-, -, total, -, -, hlayers, -⟩ := parse_v2_metadata_eq_ok_iff.mp hv2
    exact ⟨_, hlayers⟩
  | hybrid _ h =>
    obtain ⟨v2, -, hv2⟩ := h.v2
    obtain ⟨-, -, total, -, -, hlayers, -⟩ := parse_v2_metadata_eq_ok_iff.mp hv2
    exact ⟨_, hlayers⟩

/-- The top-level dictionary with the layers that were fetched. -/
def layered_root (value : Value) (trackers : Vec String) (layers : Vec V2PieceLayer) : Dict :=
  magnet_root_with_trackers value trackers ++ [(as_bytes "piece layers", .Dict (layers_dict layers))]

theorem lookup_layered_root (value : Value) (trackers : Vec String) (layers : Vec V2PieceLayer) :
    lookup (layered_root value trackers layers) "piece layers" = some (.Dict (layers_dict layers)) := by
  rw [layered_root, lookup_append_of_none (magnet_root_no_layers value)]
  simp [lookup]

theorem find_info_layered_root (value : Value) (trackers : Vec String) (layers : Vec V2PieceLayer) :
    find_info_dict (layered_root value trackers layers) = find_info_dict [(as_bytes "info", value)] := by
  have hinfo : lookup [(as_bytes "info", value)] "info" = some value := by simp [lookup]
  simp only [find_info_dict, layered_root, magnet_root_info, hinfo]

/-- What inspection reports: the dictionary, read without its layers. -/
theorem inspect_bep9_v2_info_eq_some {info : Bep9V2Info} (h : inspect_bep9_v2_info sha info_bytes = .ok (some info)) :
    ∃ value self v2, decode_info info_bytes = .ok value ∧
      parse_torrent_root sha [(as_bytes "info", value)] info_bytes false = .ok self ∧
      self.identity.v2_info_hash = some info.identity ∧ self.piece_length = info.piece_length ∧
      self.v2 = some v2 ∧ v2.files = info.files := by
  simp only [inspect_bep9_v2_info, bind_eq_ok_iff] at h
  obtain ⟨value, hvalue, self, hself, h⟩ := h
  cases hidentity : self.identity.v2_info_hash with
  | none => simp [hidentity] at h
  | some identity =>
    simp only [hidentity, eq_ok_iff, Option.some.injEq, Option.map_eq_some_iff] at h
    obtain ⟨files, ⟨v2, hv2, rfl⟩, rfl⟩ := h
    exact ⟨value, self, v2, hvalue, hself, hidentity, rfl, hv2, rfl⟩

theorem parse_with_layers_eq (hvalue : decode_info info_bytes = .ok value) :
    parse_info_dict_with_piece_layers sha info_bytes trackers layers =
      parse_torrent_root sha (layered_root value trackers layers) info_bytes true := by
  rw [parse_info_dict_with_piece_layers, hvalue, bind_ok]
  rfl

/-- The layers of accepted metadata are short enough to be read back. -/
theorem short_of_parse_with_layers {info : Bep9V2Info}
    (hinspect : inspect_bep9_v2_info sha info_bytes = .ok (some info))
    (h : parse_info_dict_with_piece_layers sha info_bytes trackers layers = .ok torrent) :
    ∀ layer ∈ layers, layer.hashes.length ≤ MAX_TORRENT_PIECES := by
  obtain ⟨value, self, v2, hvalue, hself, hidentity, -, -, -⟩ := inspect_bep9_v2_info_eq_some hinspect
  rw [parse_with_layers_eq hvalue] at h
  obtain ⟨dict, hdict, hparsed⟩ := parse_torrent_root_parsed hself
  have hkind : kind dict ≠ .v1 := by
    intro hkind
    cases hparsed with
    | v1 _ h => simp [h.identity, TorrentIdentity.v2_info_hash] at hidentity
    | v2 hv2 _ => rw [hkind] at hv2; cases hv2
    | hybrid hhybrid _ => rw [hkind] at hhybrid; cases hhybrid
  have hroot := find_info_layered_root value trackers layers
  obtain ⟨⟨parsed, verified⟩, hlayers⟩ := parse_v2_piece_layers_of_parsed h (hroot.trans hdict) hkind
  exact ((parse_v2_piece_layers_layers_dict (lookup_layered_root value trackers layers)).mp hlayers).1

/-- What inspection accepts is accepted with the layers that it requires, under any trackers, exactly when no
    layer has more hashes than the parser reads; and then it is what inspection has reported. -/
theorem parse_with_required_layers_iff {info : Bep9V2Info}
    (hinspect : inspect_bep9_v2_info sha info_bytes = .ok (some info))
    (hrequired : info.required_piece_layers = .ok required)
    (hexact : (layers.map fun layer => (layer.pieces_root, layer.hashes.length)).Perm required)
    (hroots : ∀ layer ∈ layers, v2_piece_layer_root sha layer.hashes info.piece_length = .ok layer.pieces_root)
    (trackers : Vec String) :
    ((∃ torrent, parse_info_dict_with_piece_layers sha info_bytes trackers layers = .ok torrent) ↔
      ∀ entry ∈ required, entry.2 ≤ MAX_TORRENT_PIECES) ∧
    ∀ torrent, parse_info_dict_with_piece_layers sha info_bytes trackers layers = .ok torrent →
      torrent.identity.v2_info_hash = some info.identity ∧ torrent.piece_length = info.piece_length ∧
      torrent.v2.map V2TorrentMeta.files = some info.files := by
  obtain ⟨value, self, v2, hvalue, hself, hidentity, hlength, hv2, hfiles⟩ := inspect_bep9_v2_info_eq_some hinspect
  have hroot := find_info_layered_root value trackers layers
  have hlookup := lookup_layered_root value trackers layers
  have hshort : (∀ entry ∈ required, entry.2 ≤ MAX_TORRENT_PIECES) ↔
      ∀ layer ∈ layers, layer.hashes.length ≤ MAX_TORRENT_PIECES := by
    simp only [← hexact.mem_iff, List.forall_mem_map]
  have hcompleted : (∀ layer ∈ layers, layer.hashes.length ≤ MAX_TORRENT_PIECES) →
      parse_info_dict_with_piece_layers sha info_bytes trackers layers =
        .ok (({ self with v2 := some ⟨2, v2.files, layers, true⟩ } : TorrentMeta).under
          (layered_root value trackers layers)) := by
    intro hlayers
    rw [← hlength] at hroots
    rw [parse_with_layers_eq hvalue]
    refine parse_torrent_root_completed (decode_info_length hvalue) hroot hself hidentity hv2 ?_ hexact hroots
      ((parse_v2_piece_layers_layers_dict hlookup).mpr ⟨hlayers, rfl, rfl⟩)
    rw [hlength, hfiles]
    exact hrequired
  rw [hshort]
  refine ⟨⟨?_, fun hlayers => ⟨_, hcompleted hlayers⟩⟩, ?_⟩
  · rintro ⟨torrent, htorrent⟩
    exact short_of_parse_with_layers hinspect htorrent
  · intro torrent htorrent
    obtain rfl := Except.ok.inj ((hcompleted (short_of_parse_with_layers hinspect htorrent)).symm.trans htorrent)
    exact ⟨hidentity, hlength, congrArg some hfiles⟩

end

/-- The `info` dictionary of a pure version 2 torrent with one file of the given length. -/
def sized_info (length : Nat) : Bytes :=
  as_bytes "d9:file treed1:xd0:d6:lengthi" ++ decimal.render length ++
    as_bytes ("e11:pieces root32:" ++ "aaaaaaaaaaaaaaaaaaaaaaaaaaaaaaaa" ++
      "eee12:meta versioni2e4:name1:x12:piece lengthi16384ee")

/-- A layer of `count` equal hashes, which under the stand-in for SHA-256 is its own root. -/
def uniform_layer (count : Nat) : V2PieceLayer :=
  ⟨⟨Vector.replicate 32 97⟩, List.replicate count ⟨Vector.replicate 32 97⟩⟩

/-- What inspection reports of `sized_info`. -/
def sized_inspection (length : Nat) : Bep9V2Info :=
  ⟨V2InfoHash.from_info_bencoded Sha.leading (sized_info length), 16384,
    [⟨["x"], length, some (uniform_layer 0).pieces_root⟩]⟩

/-- A file of two pieces. -/
theorem parse_with_required_layers_iff_two :
    ∃ torrent, parse_info_dict_with_piece_layers Sha.leading (sized_info 20000) ["udp://one", "udp://two"]
      [uniform_layer 2] = .ok torrent := by
  have hinspect : inspect_bep9_v2_info Sha.leading (sized_info 20000) = .ok (some (sized_inspection 20000)) := by
    decide +kernel
  have hrequired : (sized_inspection 20000).required_piece_layers = .ok [((uniform_layer 2).pieces_root, 2)] := by
    decide +kernel
  have hroots : ∀ layer ∈ [uniform_layer 2],
      v2_piece_layer_root Sha.leading layer.hashes 16384 = .ok layer.pieces_root := by decide +kernel
  exact (parse_with_required_layers_iff hinspect hrequired (List.Perm.refl _) hroots _).1.mpr (by decide)

theorem v2_hash_pair_leading (left right : V2InfoHash) : v2.v2_hash_pair Sha.leading left right = left :=
  calc v2.v2_hash_pair Sha.leading left right
    _ = V2InfoHash.from_slice (left.as_bytes ++ right.as_bytes) := rfl
    _ = V2InfoHash.from_slice left.as_bytes := by
      refine congrArg V2InfoHash.mk (congrArg Vector.ofFn (funext fun i => ?_))
      exact List.getD_append _ _ _ _ (by rw [V2InfoHash.length_as_bytes]; exact i.isLt)
    _ = left := left.from_slice_as_bytes

/-- A root that is the first leaf. -/
theorem tree_leading (d : Nat) (leaf : Nat → V2InfoHash) :
    merkle.tree (v2.v2_hash_pair Sha.leading) d leaf = leaf 0 := by
  induction d generalizing leaf with
  | zero => rfl
  | succ d ih => rw [merkle.tree, v2_hash_pair_leading, ih]

theorem uniform_layer_root {count : Nat} (hpos : 0 < count) (hle : count ≤ 2 ^ 20) :
    v2_piece_layer_root Sha.leading (uniform_layer count).hashes 16384 = .ok (uniform_layer count).pieces_root := by
  have hlength : (uniform_layer count).hashes.length = count := List.length_replicate
  have hne : (uniform_layer count).hashes ≠ [] := List.length_pos_iff.mp (by rw [hlength]; exact hpos)
  have htree := v2.v2_piece_layer_root_eq Sha.leading hne (by decide : 0 < 64)
    (show (uniform_layer count).hashes.length ≤ 2 ^ 20 by rw [hlength]; exact hle) (by decide)
  rw [tree_leading] at htree
  cases count with
  | zero => omega
  | succ count => exact htree

/-- A file with one piece more than the limit passes inspection, and its layer is refused. -/
theorem long_layer_refused :
    inspect_bep9_v2_info Sha.leading (sized_info 12288016384) = .ok (some (sized_inspection 12288016384)) ∧
    (sized_inspection 12288016384).required_piece_layers =
      .ok [((uniform_layer 750001).pieces_root, (uniform_layer 750001).hashes.length)] ∧
    v2_piece_layer_root Sha.leading (uniform_layer 750001).hashes 16384 = .ok (uniform_layer 750001).pieces_root ∧
    ∀ trackers torrent, parse_info_dict_with_piece_layers Sha.leading (sized_info 12288016384) trackers
      [uniform_layer 750001] ≠ .ok torrent := by
  have hlength : (uniform_layer 750001).hashes.length = 750001 := List.length_replicate
  have hinspect : inspect_bep9_v2_info Sha.leading (sized_info 12288016384) =
      .ok (some (sized_inspection 12288016384)) := by decide +kernel
  have hrequired : (sized_inspection 12288016384).required_piece_layers =
      .ok [((uniform_layer 750001).pieces_root, (uniform_layer 750001).hashes.length)] := by
    rw [hlength]
    decide +kernel
  refine ⟨hinspect, hrequired, uniform_layer_root (by decide) (by decide), fun trackers torrent htorrent => ?_⟩
  have hshort := short_of_parse_with_layers hinspect htorrent _ List.mem_cons_self
  rw [hlength] at hshort
  exact absurd hshort (by decide)

end swarmotter.meta

import Swarmotter.Meta.Parse
import Mathlib.Data.List.Lex

open swarmotter.bencode

namespace swarmotter.meta

/-- The top-level dictionary that `parse_info_dict` builds around exchanged `info` bytes. The first
    tracker becomes `announce` and the others one tier of `announce-list`. -/
def magnet_root_with_trackers (info : Value) (trackers : Vec String) : Dict :=
  let announce := match trackers.head? with
    | some primary => [(as_bytes "announce", Value.Str (as_bytes primary))]
    | none => []
  let announce_list :=
    if trackers.length > 1 then
      [(as_bytes "announce-list",
        Value.List [.List (trackers.tail.map fun tracker => .Str (as_bytes tracker))])]
    else []
  announce ++ announce_list ++ [(as_bytes "info", info)]

/-- Decode exchanged `info` bytes, which must be a dictionary. -/
def decode_info (info_bytes : Bytes) : Result Value := do
  let info ← decode info_bytes
  let _ ← reject_if (info.as_dict = none)
    (.MalformedTorrent "BEP 9 info metadata must be a dictionary")
  pure info

/-- Parse a BEP 9 `info` dictionary with the trackers of its magnet. Only executable metadata is
    returned, so that a pure version 2 dictionary is refused. -/
def parse_info_dict (sha : Sha) (info_bytes : Bytes) (trackers : Vec String) : Result TorrentMeta := do
  let info ← decode_info info_bytes
  let self ← parse_torrent_root sha (magnet_root_with_trackers info trackers) info_bytes false
  let _ ← reject_if (self.requires_v2_data_plane = true)
    (.MalformedTorrent "pure v2 metadata requires verified piece layers")
  pure self

/-- What a BEP 9 `info` dictionary says about the piece layers it still needs. -/
def inspect_bep9_v2_info (sha : Sha) (info_bytes : Bytes) : Result (Option Bep9V2Info) := do
  let info ← decode_info info_bytes
  let self ← parse_torrent_root sha [(as_bytes "info", info)] info_bytes false
  match self.identity.v2_info_hash with
  | none => pure none
  | some identity => do
    let files ← ok_or (self.v2.map V2TorrentMeta.files)
      (.MalformedTorrent "BEP 52 identity has no v2 file tree")
    pure (some ⟨identity, self.piece_length, files⟩)

/-- The `piece layers` dictionary of a list of layers. -/
def layers_dict (piece_layers : Vec V2PieceLayer) : Dict :=
  piece_layers.map fun layer =>
    (layer.pieces_root.as_bytes, Value.Str (layer.hashes.flatMap V2InfoHash.as_bytes))

/-- Parse a BEP 9 `info` dictionary together with the piece layers fetched for it. -/
def parse_info_dict_with_piece_layers (sha : Sha) (info_bytes : Bytes) (trackers : Vec String)
    (piece_layers : Vec V2PieceLayer) : Result TorrentMeta := do
  let info ← decode_info info_bytes
  let root := magnet_root_with_trackers info trackers ++
    [(as_bytes "piece layers", .Dict (layers_dict piece_layers))]
  parse_torrent_root sha root info_bytes true

/-- `BTreeMap::insert`, on the entries in the order of their keys. -/
def btree_insert (root : V2InfoHash) (count : Nat) : Vec (V2InfoHash × Nat) → Vec (V2InfoHash × Nat)
  | [] => [(root, count)]
  | (key, value) :: entries =>
    if root = key then (root, count) :: entries
    else if root.ord_key < key.ord_key then (root, count) :: (key, value) :: entries
    else (key, value) :: btree_insert root count entries

/-- The loop of `required_piece_layers`. -/
def require_layers (piece_length : Nat) :
    Vec MetaFile → Vec (V2InfoHash × Nat) → Result (Vec (V2InfoHash × Nat))
  | [], layers => pure layers
  | file :: files, layers =>
    if file.length ≤ piece_length then require_layers piece_length files layers
    else do
      let root ← ok_or file.pieces_root (.MalformedTorrent "non-empty BEP 52 file is missing pieces root")
      let count := div_ceil file.length piece_length
      let _ ← reject_if (∃ previous ∈ layers, previous.1 = root ∧ previous.2 ≠ count)
        (.MalformedTorrent "BEP 52 files sharing a pieces root have inconsistent lengths")
      require_layers piece_length files (btree_insert root count layers)

/-- The file roots that need a piece layer, each with the hashes its layer has. -/
def Bep9V2Info.required_piece_layers (self : Bep9V2Info) : Result (Vec (V2InfoHash × Nat)) :=
  require_layers self.piece_length self.files []

section
variable {sha : Sha} {root info : Dict} {info_bytes : Bytes} {torrent : TorrentMeta} {require : Bool}

/-- What accepted version 1 metainfo consists of. -/
structure ParsedV1 (sha : Sha) (root : Dict) (info_bytes : Bytes) (torrent : TorrentMeta) : Prop where
  info_hash : torrent.info_hash = InfoHash.from_info_bencoded sha info_bytes
  identity : torrent.identity = .V1 (InfoHash.from_info_bencoded sha info_bytes)
  announce : torrent.announce = get_str root "announce"
  announce_list : torrent.announce_list = parse_announce_list root
  raw_info : torrent.raw_info = some info_bytes
  valid : torrent.validate sha = .ok ()

theorem parse_v1_torrent_root_parsed (h : parse_v1_torrent_root sha root info_bytes = .ok torrent) :
    ParsedV1 sha root info_bytes torrent := by
  simp only [parse_v1_torrent_root, eq_ok_iff] at h
  obtain ⟨info, -, name, -, piece_length, -, -, -, -, -, pieces_bytes, -, -, -, -, -,
    ⟨files, total_length, is_multi_file⟩, -, -, -, -, -, -, -, u, hvalid, rfl⟩ := h
  exact ⟨rfl, rfl, rfl, rfl, rfl, hvalid⟩

/-- What accepted pure version 2 metainfo consists of, apart from its piece layers. -/
structure ParsedV2 (sha : Sha) (root info : Dict) (info_bytes : Bytes) (require : Bool)
    (torrent : TorrentMeta) : Prop where
  identity : torrent.identity = .V2 (V2InfoHash.from_info_bencoded sha info_bytes)
  announce : torrent.announce = get_str root "announce"
  announce_list : torrent.announce_list = parse_announce_list root
  piece_length : parse_piece_length info = .ok torrent.piece_length
  pieces : torrent.pieces = []
  v2 : ∃ v2, torrent.v2 = some v2 ∧ torrent.files = v2.files ∧
    parse_v2_metadata sha root info torrent.piece_length require = .ok v2
  valid : require = true → torrent.validate sha = .ok ()

theorem parse_v2_torrent_root_parsed (h : parse_v2_torrent_root sha root info info_bytes require = .ok torrent) :
    ParsedV2 sha root info info_bytes require torrent := by
  simp only [parse_v2_torrent_root, eq_ok_iff] at h
  obtain ⟨name, -, piece_length, hpiece, -, -, v2, hv2, total_length, -, -, -, u, hvalid, rfl⟩ := h
  refine ⟨rfl, rfl, rfl, hpiece, rfl, ⟨v2, rfl, rfl, hv2⟩, fun hrequire => ?_⟩
  rw [TorrentMeta.validate_if, if_pos hrequire] at hvalid
  exact hvalid

/-- What accepted hybrid metainfo consists of: version 1 metainfo that carries a version 2 file
    tree with the same layout. -/
structure ParsedHybrid (sha : Sha) (root info : Dict) (info_bytes : Bytes) (require : Bool)
    (torrent : TorrentMeta) : Prop where
  identity : torrent.identity = .Hybrid (InfoHash.from_info_bencoded sha info_bytes)
    (V2InfoHash.from_info_bencoded sha info_bytes)
  announce : torrent.announce = get_str root "announce"
  announce_list : torrent.announce_list = parse_announce_list root
  v2 : ∃ v2, torrent.v2 = some v2 ∧ parse_v2_metadata sha root info torrent.piece_length require = .ok v2
  valid : torrent.validate sha = .ok ()

/-- The three kinds of metainfo, told apart by the keys of the `info` dictionary. -/
inductive Kind where
  | v1
  | v2
  | hybrid
  deriving DecidableEq

def kind (info : Dict) : Kind :=
  if (lookup info "meta version").isNone then .v1
  else if has_key info "pieces" || has_key info "length" || has_key info "files" then .hybrid
  else .v2

/-- What the parser accepts, by the kind of the `info` dictionary. -/
inductive Parsed (sha : Sha) (root info : Dict) (info_bytes : Bytes) (require : Bool)
    (torrent : TorrentMeta) : Prop where
  | v1 (hkind : kind info = .v1) (h : ParsedV1 sha root info_bytes torrent)
  | v2 (hkind : kind info = .v2) (h : ParsedV2 sha root info info_bytes require torrent)
  | hybrid (hkind : kind info = .hybrid) (h : ParsedHybrid sha root info info_bytes require torrent)

theorem parse_torrent_root_parsed (h : parse_torrent_root sha root info_bytes require = .ok torrent) :
    ∃ info, find_info_dict root = .ok info ∧ Parsed sha root info info_bytes require torrent := by
  rw [parse_torrent_root, bind_eq_ok_iff] at h
  obtain ⟨info, hinfo, h⟩ := h
  refine ⟨info, hinfo, ?_⟩
  cases hversion : lookup info "meta version" with
  | none =>
    rw [hversion] at h
    have hkind : kind info = .v1 := by simp [kind, hversion]
    exact .v1 hkind (parse_v1_torrent_root_parsed h)
  | some version =>
    rw [hversion] at h
    simp only [bind_eq_ok_iff] at h
    obtain ⟨meta_version, -, -, -, h⟩ := h
    have hkinds : kind info =
        if has_key info "pieces" || (has_key info "length" || has_key info "files") then .hybrid else .v2 := by
      simp [kind, hversion, Bool.or_assoc]
    split at h
    · rename_i hkeys
      simp only [eq_ok_iff] at h
      obtain ⟨-, -, v1, hv1, v2, hv2, -, -, u, hvalid, rfl⟩ := h
      have hparsed := parse_v1_torrent_root_parsed hv1
      refine .hybrid (hkinds.trans (if_pos hkeys))
        ⟨?_, hparsed.announce, hparsed.announce_list, ⟨v2, rfl, hv2⟩, hvalid⟩
      rw [hparsed.info_hash]
    · rename_i hkeys
      exact .v2 (hkinds.trans (if_neg hkeys)) (parse_v2_torrent_root_parsed h)

/-- Whatever its kind, accepted metainfo has the trackers of its top-level dictionary. -/
theorem parse_torrent_root_trackers (h : parse_torrent_root sha root info_bytes require = .ok torrent) :
    torrent.announce = get_str root "announce" ∧ torrent.announce_list = parse_announce_list root := by
  obtain ⟨info, -, hparsed⟩ := parse_torrent_root_parsed h
  cases hparsed with
  | v1 _ h => exact ⟨h.announce, h.announce_list⟩
  | v2 _ h => exact ⟨h.announce, h.announce_list⟩
  | hybrid _ h => exact ⟨h.announce, h.announce_list⟩

end

section
variable {sha : Sha} {files : Vec MetaFile} {total : Nat} {context : String} {torrent : TorrentMeta}

/-- A component that names an entry of its directory and nothing else. -/
structure PlainComponent (value : String) : Prop where
  ne_empty : value ≠ ""
  ne_dot : value ≠ "."
  ne_dotdot : value ≠ ".."
  no_slash : '/' ∉ value.toList
  no_backslash : '\\' ∉ value.toList
  no_colon : ':' ∉ value.toList

theorem PlainComponent.of_validate {value kind : String} (h : validate_path_component value kind = .ok ()) :
    PlainComponent value := by
  simp only [validate_path_component, eq_ok_iff, not_or] at h
  obtain ⟨-, hempty, -, ⟨hdot, hdotdot⟩, -, -, -, ⟨hslash, hbackslash⟩, hcolon⟩ := h
  exact ⟨hempty, hdot, hdotdot, hslash, hbackslash, hcolon⟩

/-- What the validation of a file list establishes. -/
structure ValidFiles (files : Vec MetaFile) (total : Nat) : Prop where
  path_ne_nil : ∀ file ∈ files, file.path ≠ []
  plain : ∀ file ∈ files, ∀ component ∈ file.path, PlainComponent component
  nodup : (files.map MetaFile.path).Nodup
  sum_length : (files.map MetaFile.length).sum = total
  total_le : total ≤ usize.MAX

theorem check_paths_ok {paths : Vec (Vec String)} (h : check_paths files paths = .ok ()) :
    (∀ file ∈ files, file.path ≠ [] ∧ (∀ component ∈ file.path, PlainComponent component) ∧
      file.path ∉ paths) ∧ (files.map MetaFile.path).Nodup := by
  induction files generalizing paths with
  | nil => exact ⟨nofun, List.nodup_nil⟩
  | cons file files ih =>
    simp only [check_paths, eq_ok_iff] at h
    obtain ⟨-, hne, ⟨⟩, hcomponents, -, hnew, h⟩ := h
    obtain ⟨hrest, hnodup⟩ := ih h
    have hplain : ∀ component ∈ file.path, PlainComponent component := fun component hmem =>
      .of_validate (forM_eq_ok_iff.mp hcomponents component hmem)
    refine ⟨?_, List.nodup_cons.mpr ⟨?_, hnodup⟩⟩
    · intro other hother
      cases List.mem_cons.mp hother with
      | inl heq => exact heq ▸ ⟨hne, hplain, hnew⟩
      | inr hmem =>
        obtain ⟨hne', hplain', hnew'⟩ := hrest other hmem
        exact ⟨hne', hplain', fun hseen => hnew' (List.mem_cons_of_mem _ hseen)⟩
    · intro hseen
      obtain ⟨other, hother, heq⟩ := List.mem_map.mp hseen
      obtain ⟨-, -, hnew'⟩ := hrest other hother
      exact hnew' (heq ▸ List.mem_cons_self)

theorem total_file_length_ok (h : total_file_length files context = .ok total) :
    (files.map MetaFile.length).sum = total ∧ total ≤ usize.MAX := by
  have hfold : ∀ (files : Vec MetaFile) (start sum : Nat), start ≤ usize.MAX →
      files.foldlM (fun total file => ok_or (checked_add total file.length)
        (CoreError.MalformedTorrent s!"{context} total file length exceeds u64")) start = .ok sum →
      start + (files.map MetaFile.length).sum = sum ∧ sum ≤ usize.MAX := by
    intro files
    induction files with
    | nil =>
      intro start sum hstart h
      cases h
      exact ⟨Nat.add_zero start, hstart⟩
    | cons file files ih =>
      intro start sum _ h
      rw [List.foldlM_cons, bind_eq_ok_iff] at h
      obtain ⟨next, hnext, h⟩ := h
      rw [ok_or_eq_ok_iff, checked_add_eq_some_iff] at hnext
      obtain ⟨hfits, rfl⟩ := hnext
      obtain ⟨hsum, hmax⟩ := ih _ _ hfits h
      rw [List.map_cons, List.sum_cons]
      exact ⟨by omega, hmax⟩
  obtain ⟨hsum, hmax⟩ := hfold files 0 total (Nat.zero_le _) h
  exact ⟨by omega, hmax⟩

theorem ValidFiles.of_validate (h : validate_file_list files total context = .ok ()) : ValidFiles files total := by
  simp only [validate_file_list, eq_ok_iff] at h
  obtain ⟨-, -, -, -, ⟨⟩, hpaths, sum, hsum, hsame⟩ := h
  have hsame : sum = total := not_not.mp hsame
  subst hsame
  obtain ⟨hfiles, hnodup⟩ := check_paths_ok hpaths
  obtain ⟨hlength, hmax⟩ := total_file_length_ok hsum
  exact ⟨fun file hfile => (hfiles file hfile).1, fun file hfile => (hfiles file hfile).2.1, hnodup,
    hlength, hmax⟩

/-- What validation establishes whatever the identity. -/
structure Valid (sha : Sha) (torrent : TorrentMeta) : Prop where
  piece_length_pos : 0 < torrent.piece_length
  piece_length_le : torrent.piece_length ≤ MAX_PIECE_LENGTH
  total_length_pos : 0 < torrent.total_length
  files : ValidFiles torrent.files torrent.total_length
  identity : validate_identity sha torrent = .ok ()

theorem Valid.of_validate (h : torrent.validate sha = .ok ()) : Valid sha torrent := by
  simp only [TorrentMeta.validate, eq_ok_iff] at h
  obtain ⟨-, -, -, -, -, hpositive, -, hmaximum, -, htotal, ⟨⟩, hfiles, -, -, -, -, hidentity⟩ := h
  exact ⟨by omega, by omega, by omega, .of_validate hfiles, hidentity⟩

/-- The piece hashes of version 1 metadata match its length. -/
structure V1Pieces (torrent : TorrentMeta) : Prop where
  count : torrent.pieces.length = div_ceil torrent.total_length torrent.piece_length
  count_le : torrent.pieces.length ≤ MAX_TORRENT_PIECES

theorem V1Pieces.of_validate (h : validate_v1_piece_layout torrent = .ok ()) : V1Pieces torrent := by
  simp only [validate_v1_piece_layout, eq_ok_iff] at h
  obtain ⟨-, hmaximum, -, -, hcount⟩ := h
  exact ⟨not_not.mp hcount, by omega⟩

/-- Every torrent on the version 1 data plane has its piece hashes checked, hybrid ones included. -/
theorem Valid.v1_pieces (h : Valid sha torrent) (hplane : torrent.requires_v2_data_plane = false) :
    V1Pieces torrent := by
  have hidentity := h.identity
  unfold validate_identity at hidentity
  cases hid : torrent.identity with
  | Unknown =>
    rw [hid] at hidentity
    exact .of_validate hidentity
  | V1 v1 =>
    simp only [hid, bind_eq_ok_iff] at hidentity
    obtain ⟨-, -, -, -, hpieces⟩ := hidentity
    exact .of_validate hpieces
  | V2 v2 => simp [TorrentMeta.requires_v2_data_plane, hid, TorrentIdentity.v1_info_hash] at hplane
  | Hybrid v1 v2 =>
    simp only [hid, bind_eq_ok_iff] at hidentity
    obtain ⟨-, -, ⟨⟩, hpieces, -⟩ := hidentity
    exact .of_validate hpieces

/-- The version 2 data plane is that of pure version 2 metadata, which has no piece hashes of its own. -/
theorem Valid.pure_v2 (h : Valid sha torrent) (hplane : torrent.requires_v2_data_plane = true) :
    (∃ hash, torrent.identity = .V2 hash) ∧ torrent.pieces = [] := by
  obtain ⟨hash, hid⟩ := TorrentMeta.requires_v2_data_plane_iff.mp hplane
  have hidentity := h.identity
  simp only [validate_identity, hid, eq_ok_iff, ne_eq, not_not] at hidentity
  obtain ⟨-, -, -, hnone, -⟩ := hidentity
  exact ⟨⟨hash, hid⟩, hnone⟩

theorem parse_torrent_valid {bytes : Bytes} (h : parse_torrent sha bytes = .ok torrent) : Valid sha torrent := by
  simp only [parse_torrent, bind_eq_ok_iff] at h
  obtain ⟨-, -, root, -, info_bytes, -, h⟩ := h
  obtain ⟨info, -, hparsed⟩ := parse_torrent_root_parsed h
  apply Valid.of_validate
  cases hparsed with
  | v1 _ h => exact h.valid
  | v2 _ h => exact h.valid rfl
  | hybrid _ h => exact h.valid

end

/-- One piece of two bytes in one file. -/
def one_piece : TorrentMeta where
  info_hash := InfoHash.ZERO
  identity := .V1 InfoHash.ZERO
  name := "t"
  piece_length := 2
  pieces := [Sha.leading.sha1 [1, 2]]
  files := [⟨["t"], 2, none⟩]
  total_length := 2
  private_flag := false
  announce := none
  announce_list := []
  webseeds := []
  comment := none
  created_by := none
  creation_date := none
  is_multi_file := false
  v2 := none
  raw_info := none

end swarmotter.meta

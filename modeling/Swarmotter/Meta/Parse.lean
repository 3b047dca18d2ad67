import Swarmotter.V2.Roots
import Swarmotter.Bencode.Items

open swarmotter.bencode

namespace swarmotter.meta

/-- The entries of a bencoded dictionary. -/
abbrev Dict := Vec (Bytes × Value)

/-- A file of a torrent. A version 1 entry has no `pieces_root`. -/
structure MetaFile where
  path : Vec String
  length : Nat
  pieces_root : Option V2InfoHash
  deriving DecidableEq

/-- The hashes of the pieces of one file, under the Merkle root of the file. -/
structure V2PieceLayer where
  pieces_root : V2InfoHash
  hashes : Vec V2InfoHash
  deriving DecidableEq

structure V2TorrentMeta where
  meta_version : Nat
  files : Vec MetaFile
  piece_layers : Vec V2PieceLayer
  piece_layers_verified : Bool
  deriving DecidableEq

structure TorrentMeta where
  info_hash : InfoHash
  identity : TorrentIdentity
  name : String
  piece_length : Nat
  pieces : Vec (Vector UInt8 20)
  files : Vec MetaFile
  total_length : Nat
  private_flag : Bool
  announce : Option String
  announce_list : Vec (Vec String)
  webseeds : Vec String
  comment : Option String
  created_by : Option String
  creation_date : Option UInt64
  is_multi_file : Bool
  v2 : Option V2TorrentMeta
  raw_info : Option Bytes
  deriving DecidableEq

/-- The description of version 2 metadata that a BEP 9 exchange gives before its piece layers are
    known. -/
structure Bep9V2Info where
  identity : V2InfoHash
  piece_length : Nat
  files : Vec MetaFile
  deriving DecidableEq

/-- `u64::div_ceil`. -/
def div_ceil (n d : Nat) : Nat := (n + d - 1) / d

/-- The value of the first entry under `key`. -/
def lookup (dict : Dict) (key : String) : Option Value :=
  (dict.find? fun entry => entry.1 == as_bytes key).map Prod.snd

theorem lookup_append_of_some {dict : Dict} {key : String} {value : Value}
    (h : lookup dict key = some value) (rest : Dict) : lookup (dict ++ rest) key = some value := by
  simp only [lookup, Option.map_eq_some_iff] at h
  obtain ⟨entry, hentry, rfl⟩ := h
  simp [lookup, List.find?_append, hentry]

theorem lookup_append_of_none {dict : Dict} {key : String} (h : lookup dict key = none) (rest : Dict) :
    lookup (dict ++ rest) key = lookup rest key := by
  have hnone : dict.find? (fun entry => entry.1 == as_bytes key) = none := by simpa [lookup] using h
  simp [lookup, List.find?_append, hnone]

def get_str (dict : Dict) (key : String) : Option String := (lookup dict key).bind Value.as_str_utf8

def get_int (dict : Dict) (key : String) : Option Int64 := (lookup dict key).bind Value.as_int

def non_negative_length (value : Int64) (field : String) : Result Nat := do
  let _ ← reject_if (value.toInt < 0) (.MalformedTorrent s!"{field} must not be negative")
  pure value.toInt.toNat

namespace TorrentMeta

/-- Whether the torrent needs the SHA-256 data plane. -/
def requires_v2_data_plane (self : TorrentMeta) : Bool :=
  self.identity.v1_info_hash.isNone && self.identity ≠ .Unknown

def piece_count (self : TorrentMeta) : Nat := self.pieces.length

def last_piece_length (self : TorrentMeta) : Nat :=
  if self.total_length = 0 then 0
  else
    let rem := self.total_length % self.piece_length
    if rem = 0 then self.piece_length else rem

/-- The byte range of a piece within the torrent's data. -/
def piece_byte_range (self : TorrentMeta) (index : Nat) : Option (Nat × Nat) :=
  if index ≥ self.pieces.length then none
  else
    let start := index * self.piece_length
    some (start, min (start + self.piece_length) self.total_length)

def piece_length_u32 (self : TorrentMeta) : Result Nat := do
  let _ ← reject_if (self.piece_length > MAX_PIECE_LENGTH)
    (.MalformedTorrent s!"piece length {self.piece_length} exceeds maximum {MAX_PIECE_LENGTH}")
  let _ ← reject_if (self.piece_length > u32.MAX)
    (.MalformedTorrent s!"piece length {self.piece_length} exceeds u32 range")
  pure self.piece_length

/-- The length of one piece; the last one may be shorter. -/
def piece_length_for_index_u32 (self : TorrentMeta) (index : Nat) : Result Nat := do
  let regular_piece_length ← self.piece_length_u32
  let _ ← reject_if (index ≥ self.piece_count)
    (.MalformedTorrent s!"piece index {index} is out of range")
  if checked_add index 1 = some self.piece_count then do
    let len := self.last_piece_length
    let _ ← reject_if (len > u32.MAX) (.MalformedTorrent s!"piece length {len} exceeds u32 range")
    pure len
  else pure regular_piece_length

variable {self : TorrentMeta}

theorem requires_v2_data_plane_iff : self.requires_v2_data_plane = true ↔ ∃ v2, self.identity = .V2 v2 := by
  cases hidentity : self.identity <;> simp [requires_v2_data_plane, hidentity, TorrentIdentity.v1_info_hash]

theorem last_piece_length_le (hpos : 0 < self.piece_length) : self.last_piece_length ≤ self.piece_length := by
  have hrem := Nat.mod_lt self.total_length hpos
  unfold last_piece_length
  dsimp only
  split
  · omega
  · split <;> omega

theorem piece_length_for_index_u32_eq_ok (hpos : 0 < self.piece_length) (hle : self.piece_length ≤ MAX_PIECE_LENGTH)
    {index : Nat} (h : index < self.piece_count) :
    self.piece_length_for_index_u32 index =
      .ok (if checked_add index 1 = some self.piece_count then self.last_piece_length else self.piece_length) := by
  have hsmall : self.piece_length ≤ u32.MAX := hle.trans (by decide)
  have hlast := last_piece_length_le hpos
  simp only [piece_length_for_index_u32, piece_length_u32, reject_if, if_neg (Nat.not_lt.mpr hle),
    if_neg (Nat.not_lt.mpr hsmall), if_neg (Nat.not_le.mpr h), if_neg (Nat.not_lt.mpr (hlast.trans hsmall)), bind_ok]
  split <;> rfl

end TorrentMeta

def validate_path_component (value kind : String) : Result Unit := do
  let _ ← reject_if (value = "") (.MalformedTorrent s!"{kind} is empty")
  let _ ← reject_if (value = "." ∨ value = "..")
    (.MalformedTorrent s!"{kind} cannot be relative traversal component")
  let _ ← reject_if (value.toList.head? = some '/' ∨ value.toList.head? = some '\\')
    (.MalformedTorrent s!"{kind} cannot be absolute")
  let _ ← reject_if ('/' ∈ value.toList ∨ '\\' ∈ value.toList)
    (.MalformedTorrent s!"{kind} cannot contain path separators")
  reject_if (':' ∈ value.toList)
    (.MalformedTorrent s!"{kind} cannot contain windows-style prefix characters")

def join_path (path : Vec String) : String := "/".intercalate path

def total_file_length (files : Vec MetaFile) (context : String) : Result Nat :=
  files.foldlM (fun total file => ok_or (checked_add total file.length)
    (.MalformedTorrent s!"{context} total file length exceeds u64")) 0

/-- The loop of `validate_file_list`, which has met the paths `paths`. -/
def check_paths : Vec MetaFile → Vec (Vec String) → Result Unit
  | [], _ => pure ()
  | file :: files, paths => do
    let _ ← reject_if (file.path = []) (.MalformedTorrent "file with empty path")
    let _ ← file.path.forM fun component => validate_path_component component "file path component"
    let _ ← reject_if (file.path ∈ paths)
      (.MalformedTorrent s!"duplicate file path: {join_path file.path}")
    check_paths files (file.path :: paths)

def validate_file_list (files : Vec MetaFile) (expected_total : Nat) (context : String) : Result Unit := do
  let _ ← reject_if (files = []) (.MalformedTorrent s!"{context} must contain at least one file")
  let _ ← reject_if (files.length > MAX_TORRENT_FILES)
    (.MalformedTorrent s!"{context} file count {files.length} exceeds maximum {MAX_TORRENT_FILES}")
  let _ ← check_paths files []
  let total ← total_file_length files context
  reject_if (total ≠ expected_total) (.MalformedTorrent
    s!"{context} file lengths total {total} does not match recorded length {expected_total}")

def validate_v1_piece_layout (self : TorrentMeta) : Result Unit := do
  let _ ← reject_if (self.pieces.length > MAX_TORRENT_PIECES)
    (.MalformedTorrent s!"piece count {self.pieces.length} exceeds maximum {MAX_TORRENT_PIECES}")
  let expected_pieces := div_ceil self.total_length self.piece_length
  let _ ← reject_if (expected_pieces > MAX_TORRENT_PIECES)
    (.MalformedTorrent s!"expected piece count {expected_pieces} exceeds maximum {MAX_TORRENT_PIECES}")
  reject_if (self.pieces.length ≠ expected_pieces)
    (.MalformedTorrent s!"piece count {self.pieces.length} does not match expected {expected_pieces}")

/-- The files that need Merkle roots, each with its root. -/
def rooted_files (files : Vec MetaFile) : Result (Vec (V2InfoHash × MetaFile)) :=
  (files.filter fun file => file.length ≠ 0).mapM fun file => do
    let root ← ok_or file.pieces_root (.MalformedTorrent "non-empty BEP 52 file is missing pieces root")
    pure (root, file)

/-- The files of `files_by_root` under one root. -/
def files_under (rooted : Vec (V2InfoHash × MetaFile)) (root : V2InfoHash) : Vec MetaFile :=
  (rooted.filter fun entry => entry.1 = root).map Prod.snd

/-- The hash count of a layer against the length of one of its files. -/
def check_layer_count (layer : V2PieceLayer) (piece_length : Nat) (file : MetaFile) : Result Unit :=
  if file.length ≤ piece_length then pure ()
  else
    let expected := div_ceil file.length piece_length
    reject_if (layer.hashes.length ≠ expected)
      (.MalformedTorrent s!"BEP 52 piece layer has {layer.hashes.length} hashes; expected {expected}")

/-- The body of the loop over `files_by_root`. -/
def check_root (sha : Sha) (layers : Vec V2PieceLayer) (piece_length : Nat) (root : V2InfoHash)
    (files : Vec MetaFile) : Result Unit :=
  let requires_layer := files.any fun file => file.length > piece_length
  let layer := layers.find? fun layer => layer.pieces_root = root
  if requires_layer then do
    let layer ← ok_or layer
      (.MalformedTorrent "BEP 52 file larger than piece length is missing a piece layer")
    let _ ← files.forM (check_layer_count layer piece_length)
    let computed ← v2_piece_layer_root sha layer.hashes piece_length
    reject_if (computed ≠ root) (.MalformedTorrent "BEP 52 piece layer does not match its pieces root")
  else
    reject_if (layer.isSome = true)
      (.MalformedTorrent "BEP 52 file at or below piece length must not have a piece layer")

/-- The hash maps of the source are lists here, walked in the order of the metainfo. Their order
    in the source is arbitrary, so that only the choice among several errors can differ. -/
def validate_v2_metadata (sha : Sha) (v2 : V2TorrentMeta) (piece_length total_length : Nat) :
    Result Unit := do
  let _ ← reject_if (v2.meta_version ≠ 2)
    (.MalformedTorrent s!"unsupported BEP 52 meta version {v2.meta_version}")
  let _ ← validate_v2_piece_length piece_length
  let _ ← validate_file_list v2.files total_length "BEP 52 file tree"
  let rooted ← rooted_files v2.files
  let roots := (rooted.map Prod.fst).eraseDups
  if v2.piece_layers_verified = false then
    reject_if (v2.piece_layers ≠ [])
      (.MalformedTorrent "unverified BEP 52 metadata must not carry piece layers")
  else do
    let _ ← reject_if (¬ (v2.piece_layers.map V2PieceLayer.pieces_root).Nodup)
      (.MalformedTorrent "duplicate BEP 52 piece-layer root")
    let _ ← roots.forM fun root =>
      check_root sha v2.piece_layers piece_length root (files_under rooted root)
    v2.piece_layers.forM fun layer => reject_if (layer.pieces_root ∉ roots)
      (.MalformedTorrent "BEP 52 piece layer does not correspond to a file root")

/-- `same_layout` of `validate_hybrid_layout`. -/
def same_layout (left : Vec (Vec String × Nat)) (right : Vec MetaFile) : Bool :=
  left = right.map fun file => (file.path, file.length)

def validate_hybrid_layout (v1_files v2_files : Vec MetaFile) (v1_is_multi_file : Bool) : Result Unit :=
  let full := v1_files.map fun file => (file.path, file.length)
  let relative := v1_files.map fun file => (file.path.drop 1, file.length)
  if same_layout full v2_files then pure ()
  else if v1_is_multi_file && same_layout relative v2_files then pure ()
  else .error (.MalformedTorrent "hybrid v1 and v2 file layouts are not identical")

/-- The exact `info` bytes against the identity they are stored with. -/
def validate_raw_info (sha : Sha) (self : TorrentMeta) : Result Unit :=
  match self.raw_info with
  | none => pure ()
  | some raw_info => do
    let _ ← reject_if (raw_info.length > MAX_TORRENT_METADATA_BYTES) (.MalformedTorrent
      s!"raw info dictionary size {raw_info.length} exceeds maximum {MAX_TORRENT_METADATA_BYTES}")
    if self.identity = .Unknown then
      reject_if (InfoHash.from_info_bencoded sha raw_info ≠ self.info_hash)
        (.MalformedTorrent "raw info dictionary does not match legacy v1 info hash")
    else
      reject_if (self.identity.matches_info_bencoded sha raw_info = false)
        (.MalformedTorrent "raw info dictionary does not match torrent identity")

/-- The part of `validate` that depends on the identity. -/
def validate_identity (sha : Sha) (self : TorrentMeta) : Result Unit :=
  match self.identity with
  | .Unknown => validate_v1_piece_layout self
  | .V1 v1 => do
    let _ ← reject_if (v1 ≠ self.info_hash)
      (.MalformedTorrent "explicit v1 identity does not match legacy info hash")
    let _ ← reject_if (self.v2.isSome = true)
      (.MalformedTorrent "v1 identity cannot carry BEP 52 metadata")
    validate_v1_piece_layout self
  | .V2 _ => do
    let _ ← reject_if (self.info_hash ≠ InfoHash.ZERO)
      (.MalformedTorrent "pure v2 metadata must not carry a v1 info hash")
    let _ ← reject_if (self.pieces ≠ [])
      (.MalformedTorrent "pure v2 metadata must not carry v1 piece hashes")
    let v2 ← ok_or self.v2 (.MalformedTorrent "v2 identity is missing BEP 52 metadata")
    let _ ← validate_v2_metadata sha v2 self.piece_length self.total_length
    reject_if (v2.piece_layers_verified = false)
      (.MalformedTorrent "pure v2 metadata requires verified piece layers")
  | .Hybrid v1 _ => do
    let _ ← reject_if (v1 ≠ self.info_hash)
      (.MalformedTorrent "hybrid v1 identity does not match legacy info hash")
    let _ ← validate_v1_piece_layout self
    let v2 ← ok_or self.v2 (.MalformedTorrent "hybrid identity is missing BEP 52 metadata")
    let _ ← validate_v2_metadata sha v2 self.piece_length self.total_length
    validate_hybrid_layout self.files v2.files self.is_multi_file

/-- The invariants that parsing establishes and that durable state is checked against. -/
def TorrentMeta.validate (sha : Sha) (self : TorrentMeta) : Result Unit := do
  let _ ← reject_if (self.name = "") (.MalformedTorrent "empty torrent name")
  let _ ← validate_path_component self.name "torrent name"
  let _ ← reject_if (self.piece_length = 0) (.MalformedTorrent "piece length must be greater than zero")
  let _ ← reject_if (self.piece_length > MAX_PIECE_LENGTH)
    (.MalformedTorrent s!"piece length {self.piece_length} exceeds maximum {MAX_PIECE_LENGTH}")
  let _ ← reject_if (self.total_length = 0)
    (.MalformedTorrent "torrent total length must be greater than zero")
  let _ ← validate_file_list self.files self.total_length "torrent"
  let _ ← reject_if (self.is_multi_file = false ∧ self.files.length ≠ 1)
    (.MalformedTorrent "single-file torrent must contain exactly one file")
  let _ ← validate_raw_info sha self
  validate_identity sha self

def find_info_dict (root : Dict) : Result Dict :=
  ok_or ((lookup root "info").bind Value.as_dict) (.MalformedTorrent "missing 'info' dictionary")

def parse_announce_list (root : Dict) : Vec (Vec String) :=
  match (lookup root "announce-list").bind Value.as_list with
  | some tiers => tiers.map fun tier =>
    match tier.as_list with
    | some items => items.filterMap Value.as_str_utf8
    | none => []
  | none => []

/-- `out.retain(|url| !url.is_empty() && seen.insert(url.clone()))`. -/
def retain_new : Vec String → Vec String → Vec String
  | [], _ => []
  | url :: urls, seen =>
    if url = "" ∨ url ∈ seen then retain_new urls seen else url :: retain_new urls (url :: seen)

def parse_url_list (dict : Dict) : Vec String :=
  let out := match lookup dict "url-list" with
    | some (.Str _) => (get_str dict "url-list").toList
    | some (.List items) => items.filterMap Value.as_str_utf8
    | _ => []
  retain_new out []

def parse_name (info : Dict) : Result String := do
  let name ← ok_or (get_str info "name") (.MalformedTorrent "missing 'name'")
  let _ ← validate_path_component name "torrent name"
  let _ ← reject_if (name = "") (.MalformedTorrent "empty 'name'")
  pure name

/-- The body of `as_chunks::<20>` over the `pieces` string. -/
def piece_hashes (pieces_bytes : Bytes) : Vec (Vector UInt8 20) :=
  (slices.chunks 20 pieces_bytes).map fun chunk => Vector.ofFn fun i => chunk.getD i 0

/-- The path of one entry of `files`, below the torrent name. -/
def parse_path : Vec Value → Vec String → Result (Vec String)
  | [], full_path => pure full_path
  | p :: path_vals, full_path => do
    let s ← ok_or p.as_str_utf8 (.MalformedTorrent "path component not utf8")
    let _ ← validate_path_component s "file path component"
    parse_path path_vals (full_path ++ [s])

/-- The loop over `files`, with the entries read so far and their total length. -/
def parse_files (name : String) : Vec Value → Nat → Vec MetaFile → Result (Vec MetaFile × Nat)
  | [], total, out => pure (out, total)
  | f :: list, total, out => do
    let length ← ok_or ((f.get (as_bytes "length")).bind Value.as_int)
      (.MalformedTorrent "file missing length")
    let length ← non_negative_length length "file length"
    let path_vals ← ok_or ((f.get (as_bytes "path")).bind Value.as_list)
      (.MalformedTorrent "file missing path")
    let full_path ← parse_path path_vals [name]
    let _ ← reject_if (path_vals = []) (.MalformedTorrent "file with empty path")
    let _ ← reject_if (full_path ∈ out.map MetaFile.path)
      (.MalformedTorrent s!"duplicate file path: {join_path full_path}")
    let total ← ok_or (checked_add total length) (.MalformedTorrent "total file length exceeds u64")
    parse_files name list total (out ++ [⟨full_path, length, none⟩])

/-- The version 1 file layout: the files, their total length, and whether there is a list of them. -/
def parse_v1_files (info : Dict) (name : String) : Result (Vec MetaFile × Nat × Bool) :=
  match lookup info "length" with
  | some length_v => do
    let length ← ok_or length_v.as_int (.MalformedTorrent "'length' must be an integer")
    let length ← non_negative_length length "'length'"
    pure ([⟨[name], length, none⟩], length, false)
  | none =>
    match lookup info "files" with
    | some files_v => do
      let list ← ok_or files_v.as_list (.MalformedTorrent "'files' must be a list")
      let _ ← reject_if (list.length > MAX_TORRENT_FILES)
        (.MalformedTorrent s!"file count {list.length} exceeds maximum {MAX_TORRENT_FILES}")
      let (files, total) ← parse_files name list 0 []
      pure (files, total, true)
    | none => .error (.MalformedTorrent "info missing file/files")

def parse_v1_torrent_root (sha : Sha) (root : Dict) (info_bytes : Bytes) : Result TorrentMeta := do
  let info_hash := InfoHash.from_info_bencoded sha info_bytes
  let info ← find_info_dict root
  let name ← parse_name info
  let piece_length ← ok_or (get_int info "piece length") (.MalformedTorrent "missing 'piece length'")
  let _ ← reject_if (piece_length.toInt ≤ 0) (.MalformedTorrent "piece_length must be > 0")
  let piece_length := piece_length.toInt.toNat
  let _ ← reject_if (piece_length > MAX_PIECE_LENGTH)
    (.MalformedTorrent s!"piece_length {piece_length} exceeds maximum {MAX_PIECE_LENGTH}")
  let pieces_bytes ← ok_or ((lookup info "pieces").bind Value.as_str) (.MalformedTorrent "missing 'pieces'")
  let _ ← reject_if (pieces_bytes.length % 20 ≠ 0) (.MalformedTorrent "pieces length not multiple of 20")
  let piece_count := pieces_bytes.length / 20
  let _ ← reject_if (piece_count > MAX_TORRENT_PIECES)
    (.MalformedTorrent s!"piece count {piece_count} exceeds maximum {MAX_TORRENT_PIECES}")
  let pieces := piece_hashes pieces_bytes
  let private_flag := (get_int info "private").getD 0 = 1
  let (files, total_length, is_multi_file) ← parse_v1_files info name
  let _ ← reject_if (total_length = 0) (.MalformedTorrent "torrent total length must be greater than zero")
  let expected_pieces := div_ceil total_length piece_length
  let _ ← reject_if (expected_pieces > MAX_TORRENT_PIECES)
    (.MalformedTorrent s!"expected piece count {expected_pieces} exceeds maximum {MAX_TORRENT_PIECES}")
  let _ ← reject_if (pieces.length ≠ expected_pieces) (.MalformedTorrent
    s!"piece count {pieces.length} does not match expected {expected_pieces} for length {total_length}")
  let self : TorrentMeta := {
    info_hash := info_hash
    identity := .V1 info_hash
    name := name
    piece_length := piece_length
    pieces := pieces
    files := files
    total_length := total_length
    private_flag := private_flag
    announce := get_str root "announce"
    announce_list := parse_announce_list root
    webseeds := parse_url_list root
    comment := get_str root "comment"
    created_by := get_str root "created by"
    creation_date := (get_int root "creation date").map Int64.toUInt64
    is_multi_file := is_multi_file
    v2 := none
    raw_info := some info_bytes }
  let _ ← self.validate sha
  pure self

def parse_v2_hash_bytes (bytes : Bytes) (field : String) : Result V2InfoHash :=
  if h : bytes.length = 32 then pure ⟨⟨bytes.toArray, by simpa using h⟩⟩
  else .error (.MalformedTorrent s!"{field} must be exactly 32 bytes, got {bytes.length}")

def parse_v2_hash_value (value : Value) : Result V2InfoHash := do
  let bytes ← ok_or value.as_str (.MalformedTorrent "BEP 52 hash must be a byte string")
  parse_v2_hash_bytes bytes "BEP 52 hash"

/-- The first pass over a node of the file tree: the properties under the empty key. -/
def node_properties : Dict → Option Dict → Result (Option Dict)
  | [], properties => pure properties
  | (key, value) :: node, properties =>
    if key = [] then do
      let dict ← ok_or value.as_dict
        (.MalformedTorrent "BEP 52 file properties must be a dictionary")
      node_properties node (some dict)
    else node_properties node properties

/-- A node with properties is a file. -/
def parse_v2_file (node properties : Dict) (path : Vec String) : Result MetaFile := do
  let _ ← reject_if (path = []) (.MalformedTorrent "BEP 52 file tree root must not describe a file")
  let _ ← reject_if ((node.filter fun entry => entry.1 ≠ []) ≠ [])
    (.MalformedTorrent "BEP 52 file node must not contain sibling entries")
  let length ← ok_or (get_int properties "length")
    (.MalformedTorrent "BEP 52 file is missing integer 'length'")
  let length ← non_negative_length length "BEP 52 file length"
  let pieces_root ← match lookup properties "pieces root" with
    | some value => (parse_v2_hash_value value).map some
    | none => pure none
  let _ ← reject_if (length > 0 ∧ pieces_root = none)
    (.MalformedTorrent "non-empty BEP 52 file is missing 'pieces root'")
  pure ⟨path, length, pieces_root⟩

/-- A node is a file, or a directory whose entries `children` reads. -/
def file_or_directory (node : Dict) (path : Vec String) (files : Vec MetaFile)
    (children : Result (Vec MetaFile)) : Result (Vec MetaFile) := do
  match ← node_properties node none with
  | some properties => do
    let file ← parse_v2_file node properties path
    pure (files ++ [file])
  | none => children

mutual

/-- The loop over the entries of a directory, which has no entry under the empty key. -/
def parse_v2_children : List (Bytes × Value) → Vec String → Vec MetaFile → Result (Vec MetaFile)
  | [], _, files => pure files
  | (key, value) :: node, path, files => do
    let component ← ok_or (from_utf8 key)
      (.MalformedTorrent "BEP 52 file-tree path component is not UTF-8")
    let _ ← validate_path_component component "BEP 52 file-tree path component"
    let files ← parse_v2_entry value (path ++ [component]) files
    parse_v2_children node path files

def parse_v2_entry : Value → Vec String → Vec MetaFile → Result (Vec MetaFile)
  | .Dict child, path, files => file_or_directory child path files (parse_v2_children child path files)
  | _, _, _ => .error (.MalformedTorrent "BEP 52 file-tree entry must be a dictionary")

end

def parse_v2_file_tree_node (node : Dict) (path : Vec String) (files : Vec MetaFile) :
    Result (Vec MetaFile) :=
  file_or_directory node path files (parse_v2_children node path files)

def parse_v2_file_tree (file_tree : Dict) : Result (Vec MetaFile) := do
  let files ← parse_v2_file_tree_node file_tree [] []
  let _ ← reject_if (files = []) (.MalformedTorrent "BEP 52 file tree must contain at least one file")
  let _ ← reject_if (files.length > MAX_TORRENT_FILES) (.MalformedTorrent
    s!"BEP 52 file tree has {files.length} files; maximum is {MAX_TORRENT_FILES}")
  pure files

def parse_v2_layer (root_bytes : Bytes) (hashes : Value) : Result V2PieceLayer := do
  let pieces_root ← parse_v2_hash_bytes root_bytes "BEP 52 piece-layer key"
  let hashes ← ok_or hashes.as_str (.MalformedTorrent "BEP 52 piece layer must be a byte string")
  let _ ← reject_if (hashes.length % 32 ≠ 0)
    (.MalformedTorrent "BEP 52 piece layer length must be a multiple of 32")
  let _ ← reject_if (hashes.length / 32 > MAX_TORRENT_PIECES)
    (.MalformedTorrent s!"BEP 52 piece layer contains more than {MAX_TORRENT_PIECES} hashes")
  let hashes ← (slices.chunks 32 hashes).mapM fun hash =>
    parse_v2_hash_bytes hash "BEP 52 piece-layer hash"
  pure ⟨pieces_root, hashes⟩

def parse_v2_piece_layers (root : Dict) (require_piece_layers : Bool) :
    Result (Vec V2PieceLayer × Bool) :=
  match lookup root "piece layers" with
  | none =>
    if require_piece_layers then
      .error (.MalformedTorrent "BEP 52 metainfo is missing top-level 'piece layers'")
    else pure ([], false)
  | some value => do
    let layers ← ok_or value.as_dict (.MalformedTorrent "BEP 52 'piece layers' must be a dictionary")
    let parsed ← layers.mapM fun entry => parse_v2_layer entry.1 entry.2
    pure (parsed, true)

def parse_v2_metadata (sha : Sha) (root info : Dict) (piece_length : Nat) (require_piece_layers : Bool) :
    Result V2TorrentMeta := do
  let _ ← validate_v2_piece_length piece_length
  let file_tree ← ok_or ((lookup info "file tree").bind Value.as_dict)
    (.MalformedTorrent "missing BEP 52 'file tree'")
  let files ← parse_v2_file_tree file_tree
  let total ← total_file_length files "BEP 52 file tree"
  let _ ← reject_if (total = 0) (.MalformedTorrent "torrent total length must be greater than zero")
  let (piece_layers, piece_layers_verified) ← parse_v2_piece_layers root require_piece_layers
  let v2 : V2TorrentMeta := ⟨2, files, piece_layers, piece_layers_verified⟩
  let _ ← validate_v2_metadata sha v2 piece_length total
  pure v2

def parse_piece_length (info : Dict) : Result Nat := do
  let piece_length ← ok_or (get_int info "piece length") (.MalformedTorrent "missing 'piece length'")
  let _ ← reject_if (piece_length.toInt ≤ 0) (.MalformedTorrent "piece_length must be greater than zero")
  let piece_length := piece_length.toInt.toNat
  let _ ← reject_if (piece_length > MAX_PIECE_LENGTH)
    (.MalformedTorrent s!"piece_length {piece_length} exceeds maximum {MAX_PIECE_LENGTH}")
  pure piece_length

/-- A BEP 9 exchange has no piece layers yet: what it describes is validated once they are known. -/
def TorrentMeta.validate_if (sha : Sha) (self : TorrentMeta) (require_v2_piece_layers : Bool) : Result Unit :=
  if require_v2_piece_layers then self.validate sha else pure ()

def parse_v2_torrent_root (sha : Sha) (root info : Dict) (info_bytes : Bytes)
    (require_v2_piece_layers : Bool) : Result TorrentMeta := do
  let name ← parse_name info
  let piece_length ← parse_piece_length info
  let _ ← validate_v2_piece_length piece_length
  let v2 ← parse_v2_metadata sha root info piece_length require_v2_piece_layers
  let total_length ← total_file_length v2.files "BEP 52 file tree"
  let _ ← reject_if (total_length = 0) (.MalformedTorrent "torrent total length must be greater than zero")
  let self : TorrentMeta := {
    info_hash := InfoHash.ZERO
    identity := .V2 (V2InfoHash.from_info_bencoded sha info_bytes)
    name := name
    piece_length := piece_length
    pieces := []
    files := v2.files
    total_length := total_length
    private_flag := (get_int info "private").getD 0 = 1
    announce := get_str root "announce"
    announce_list := parse_announce_list root
    webseeds := parse_url_list root
    comment := get_str root "comment"
    created_by := get_str root "created by"
    creation_date := (get_int root "creation date").map Int64.toUInt64
    is_multi_file := v2.files.length ≠ 1
    v2 := some v2
    raw_info := some info_bytes }
  let _ ← self.validate_if sha require_v2_piece_layers
  pure self

def has_key (dict : Dict) (key : String) : Bool := dict.any fun entry => entry.1 == as_bytes key

/-- The parser behind every entry point. Without a `meta version` the metainfo is version 1; with
    it, version 1 keys make it hybrid. -/
def parse_torrent_root (sha : Sha) (root : Dict) (info_bytes : Bytes)
    (require_v2_piece_layers : Bool) : Result TorrentMeta := do
  let info ← find_info_dict root
  match lookup info "meta version" with
  | none => parse_v1_torrent_root sha root info_bytes
  | some meta_version => do
    let meta_version ← ok_or meta_version.as_int (.MalformedTorrent "'meta version' must be an integer")
    let _ ← reject_if (meta_version ≠ 2)
      (.MalformedTorrent s!"unsupported BEP 52 meta version {meta_version.toInt}")
    let has_v1_pieces := has_key info "pieces"
    let has_v1_layout := has_key info "length" || has_key info "files"
    if has_v1_pieces || has_v1_layout then do
      let _ ← reject_if ((has_v1_pieces && has_v1_layout) = false) (.MalformedTorrent
        "hybrid torrent must contain both v1 pieces and a v1 file layout")
      let v1 ← parse_v1_torrent_root sha root info_bytes
      let v2 ← parse_v2_metadata sha root info v1.piece_length require_v2_piece_layers
      let v2_hash := V2InfoHash.from_info_bencoded sha info_bytes
      let _ ← validate_hybrid_layout v1.files v2.files v1.is_multi_file
      let hybrid := { v1 with identity := .Hybrid v1.info_hash v2_hash, v2 := some v2 }
      let _ ← hybrid.validate sha
      pure hybrid
    else parse_v2_torrent_root sha root info info_bytes require_v2_piece_layers

/-- Parse the bytes of a `.torrent` file. -/
def parse_torrent (sha : Sha) (bytes : Bytes) : Result TorrentMeta := do
  let root ← decode bytes
  let root ← ok_or root.as_dict (.MalformedTorrent "top-level must be a dict")
  let info_bytes ← ok_or (extract_value_bytes bytes (as_bytes "info"))
    (.MalformedTorrent "missing 'info' dictionary")
  parse_torrent_root sha root info_bytes true

end swarmotter.meta

import Swarmotter.Meta.MagnetV2

open swarmotter.meta swarmotter.bencode

namespace swarmotter.metadata

def METADATA_HASH_REQUEST_MAX : Nat := 512

/-- `Message::HashRequest`. -/
structure HashRequest where
  pieces_root : V2InfoHash
  base_layer : Nat
  index : Nat
  length : Nat
  proof_layers : Nat
  deriving DecidableEq

/-- The remote end of a BEP 52 hash exchange: what `read_piece_layer_response` returns for each
    request. No exchange sends the same request twice, so that a function describes any peer. -/
abbrev Peer := HashRequest → Result (Vec V2InfoHash)

/-- `u32::try_from`. -/
def u32_try_from (n : Nat) (error : CoreError) : Result Nat := do
  let _ ← reject_if (n ≥ 2 ^ 32) error
  pure n

/-- The hashes of one response that lie within the layer. -/
def layer_hashes (start request_length expected_count : Nat) (response_hashes : Vec V2InfoHash) :
    Vec V2InfoHash :=
  ((response_hashes.take request_length).zipIdx.filter fun entry => start + entry.2 < expected_count).map
    Prod.fst

/-- One turn of the request loop of `fetch_v2_piece_layers`. -/
def request_hashes (peer : Peer) (pieces_root : V2InfoHash)
    (base_layer request_length full_layer_depth expected_count start : Nat) : Result (Vec V2InfoHash) := do
  let index ← u32_try_from start
    (.MalformedTorrent "BEP 52 piece-layer index exceeds u32 range")
  let length ← u32_try_from request_length
    (.MalformedTorrent "BEP 52 piece-layer request length exceeds u32 range")
  let response_hashes ← peer ⟨pieces_root, base_layer, index, length, full_layer_depth⟩
  let proof_hashes := full_layer_depth - trailing_zeros request_length
  let expected_response_hashes ← ok_or (checked_add request_length proof_hashes)
    (.MalformedTorrent "BEP 52 piece-layer response length overflow")
  let _ ← reject_if (response_hashes.length ≠ expected_response_hashes) (.MalformedTorrent
    s!"BEP 52 piece-layer response contained {response_hashes.length} hashes; expected {expected_response_hashes}")
  pure (layer_hashes start request_length expected_count response_hashes)

/-- `(0..logical_width).step_by(request_length)`. -/
def request_starts (logical_width request_length : Nat) : List Nat :=
  (List.range (div_ceil logical_width request_length)).map (· * request_length)

/-- Fetch one layer in requests of at most 512 hashes and check it against its root. -/
def fetch_layer (sha : Sha) (peer : Peer) (piece_length : Nat) (required : V2InfoHash × Nat) :
    Result V2PieceLayer := do
  let (pieces_root, expected_count) := required
  let _ ← reject_if (¬ (2 ≤ expected_count ∧ expected_count ≤ MAX_TORRENT_PIECES))
    (.MalformedTorrent s!"BEP 52 piece layer has invalid expected count {expected_count}")
  let logical_width ← ok_or (checked_next_power_of_two expected_count)
    (.MalformedTorrent "BEP 52 piece-layer width exceeds platform limits")
  let request_length := min logical_width METADATA_HASH_REQUEST_MAX
  let full_layer_depth := trailing_zeros logical_width
  let base_layer := trailing_zeros (piece_length / V2_BLOCK_LENGTH)
  let responses ← (request_starts logical_width request_length).mapM
    (request_hashes peer pieces_root base_layer request_length full_layer_depth expected_count)
  let hashes := responses.flatten
  let _ ← reject_if (hashes.length ≠ expected_count) (.MalformedTorrent
    s!"BEP 52 piece-layer assembly contained {hashes.length} hashes; expected {expected_count}")
  let computed_root ← v2_piece_layer_root sha hashes piece_length
  let _ ← reject_if (computed_root ≠ pieces_root)
    (.MalformedTorrent "BEP 52 piece-layer hashes do not match the file-tree root")
  pure ⟨pieces_root, hashes⟩

/-- Retrieve every piece layer that makes a pure version 2 `info` dictionary executable. -/
def fetch_v2_piece_layers (sha : Sha) (peer : Peer) (info_bytes : Bytes)
    (expected_identity : TorrentIdentity) : Result (Vec V2PieceLayer) := do
  let inspection ← inspect_bep9_v2_info sha info_bytes
  let inspection ← ok_or inspection
    (.MalformedTorrent "pure-v2 metadata did not contain a BEP 52 file-tree identity")
  let expected_v2 ← ok_or expected_identity.v2_info_hash
    (.InvalidArgument "BEP 52 piece-layer exchange requires a full v2 magnet identity")
  let _ ← reject_if (inspection.identity ≠ expected_v2)
    (.MalformedTorrent "BEP 9 v2 identity changed before piece-layer exchange")
  let required ← inspection.required_piece_layers
  required.mapM (fetch_layer sha peer inspection.piece_length)

structure FetchedMetadata where
  raw_info : Bytes
  piece_layers : Vec V2PieceLayer
  deriving DecidableEq

/-- The end of `fetch_metadata_over_stream`, from the assembled bytes on. -/
def verify_assembled (sha : Sha) (peer : Peer) (identity : TorrentIdentity) (assembled : Bytes) :
    Result FetchedMetadata := do
  let _ ← reject_if (identity.matches_info_bencoded sha assembled = false)
    (.MalformedTorrent "BEP 9 metadata does not match the magnet identity")
  match identity with
  | .V2 _ => do
    let piece_layers ← fetch_v2_piece_layers sha peer assembled identity
    pure ⟨assembled, piece_layers⟩
  | _ => pure ⟨assembled, []⟩

/-- The handshake of a metadata exchange. -/
inductive MetadataHandshake where
  | V1 (info_hash : InfoHash)
  | V2 (info_hash : PeerInfoHash)

def MetadataHandshake.for_identity : TorrentIdentity → Result MetadataHandshake
  | .V1 v1 | .Hybrid v1 _ => pure (.V1 v1)
  | .V2 v2 => pure (.V2 v2.peer_info_hash)
  | .Unknown => .error (.InvalidArgument
    "magnet metadata exchange requires an explicit v1, v2, or hybrid identity")

/-- Parse fetched metadata for the identity it was fetched for. -/
def parse_fetched (sha : Sha) (identity : TorrentIdentity) (fetched : FetchedMetadata)
    (trackers : Vec String) : Result TorrentMeta :=
  match identity with
  | .V2 _ => parse_info_dict_with_piece_layers sha fetched.raw_info trackers fetched.piece_layers
  | .V1 _ | .Hybrid _ _ => parse_info_dict sha fetched.raw_info trackers
  | .Unknown => .error (.InvalidArgument
    "magnet metadata exchange requires an explicit torrent identity")

/-- Resolve a magnet with a peer that sends the bytes `assembled`. The connection, the handshake
    and the transport of the bytes are the peer's part. -/
def fetch_resolved_metadata (sha : Sha) (peer : Peer) (identity : TorrentIdentity)
    (assembled : Bytes) (trackers : Vec String) : Result TorrentMeta := do
  let _ ← MetadataHandshake.for_identity identity
  let fetched ← verify_assembled sha peer identity assembled
  let torrent ← parse_fetched sha identity fetched trackers
  let _ ← reject_if (torrent.identity ≠ identity)
    (.MalformedTorrent "resolved metadata identity does not match the magnet identity")
  pure torrent

/-- The start of `TorrentEngine::run` on resolved metadata, up to the key it goes on with. -/
def resolved_torrent_key (identity : TorrentIdentity) (rebuilt : TorrentMeta) : Result TorrentKey := do
  let _ ← reject_if (rebuilt.identity ≠ identity)
    (.MalformedTorrent "resolved metadata identity does not match the magnet exact topics")
  ok_or rebuilt.identity.primary_key
    (.MalformedTorrent "resolved metadata does not provide a canonical torrent key")

section
variable {sha : Sha} {peer : Peer} {piece_length : Nat} {layer : V2PieceLayer}

/-- The number of leaves over which a layer of `count` hashes is laid out. -/
def layer_width (count : Nat) : Nat := 2 ^ Nat.clog 2 count

/-- The length of each request for a layer of `count` hashes. -/
def request_width (count : Nat) : Nat := min (layer_width count) METADATA_HASH_REQUEST_MAX

/-- A peer that has a layer: every response holds the hashes from the requested index on, filled
    up beyond the end of the layer, and as many uncle hashes as were asked for. -/
def Serves (peer : Peer) (piece_length : Nat) (layer : V2PieceLayer) : Prop :=
  let count := layer.hashes.length
  ∀ index, index < layer_width count → request_width count ∣ index →
    ∃ response, peer ⟨layer.pieces_root, trailing_zeros (piece_length / V2_BLOCK_LENGTH), index,
        request_width count, trailing_zeros (layer_width count)⟩ = .ok response ∧
      response.length = request_width count +
        (trailing_zeros (layer_width count) - trailing_zeros (request_width count)) ∧
      ∀ offset, offset < request_width count → index + offset < count →
        response[offset]? = layer.hashes[index + offset]?

theorem layer_hashes_eq_take (start request_length expected_count : Nat) (response_hashes : Vec V2InfoHash) :
    layer_hashes start request_length expected_count response_hashes =
      (response_hashes.take request_length).take (expected_count - start) :=
  slices.filter_zipIdx_lt (response_hashes.take request_length) start 0 expected_count

theorem layer_width_le {count k : Nat} (h : count ≤ 2 ^ k) : layer_width count ≤ 2 ^ k :=
  Nat.pow_le_pow_right (by decide) (Nat.clog_le_of_le_pow h)

theorem le_layer_width (count : Nat) : count ≤ layer_width count := Nat.le_pow_clog (by decide) count

theorem request_width_eq (count : Nat) : request_width count = 2 ^ min (Nat.clog 2 count) 9 := by
  have hmono : Monotone fun n : Nat => 2 ^ n := pow_right_mono₀ one_le_two
  exact (hmono.map_min (a := Nat.clog 2 count) (b := 9)).symm

/-- A layer is a whole number of requests wide. -/
theorem request_width_dvd (count : Nat) : request_width count ∣ layer_width count := by
  rw [request_width_eq, layer_width]
  exact Nat.pow_dvd_pow 2 (Nat.min_le_left _ _)

theorem request_width_pos (count : Nat) : 0 < request_width count := by
  rw [request_width_eq]
  exact Nat.two_pow_pos _

section
variable (hserves : Serves peer piece_length layer) (hcount : layer.hashes.length ≤ MAX_TORRENT_PIECES)
include hserves hcount

/-- One request to a peer that has the layer gives the hashes of its window. -/
theorem request_hashes_of_serves {start : Nat} (hstart : start < layer_width layer.hashes.length)
    (hdvd : request_width layer.hashes.length ∣ start) :
    request_hashes peer layer.pieces_root (trailing_zeros (piece_length / V2_BLOCK_LENGTH))
        (request_width layer.hashes.length) (trailing_zeros (layer_width layer.hashes.length))
        layer.hashes.length start
      = .ok ((layer.hashes.drop start).take (request_width layer.hashes.length)) := by
  obtain ⟨response, hresponse, hlength, hwindow⟩ := hserves start hstart hdvd
  have hwidth : layer_width layer.hashes.length ≤ 2 ^ 20 := layer_width_le (hcount.trans (by decide))
  have hrequest : request_width layer.hashes.length ≤ 512 := Nat.min_le_right _ _
  have hdepth : trailing_zeros (layer_width layer.hashes.length) ≤ 64 := trailing_zeros_le _
  have hhashes : layer_hashes start (request_width layer.hashes.length) layer.hashes.length response =
      (layer.hashes.drop start).take (request_width layer.hashes.length) := by
    rw [layer_hashes_eq_take]
    apply List.ext_getElem?
    intro offset
    simp only [List.getElem?_take, List.getElem?_drop]
    by_cases hin : offset < request_width layer.hashes.length
    · by_cases hlayer : start + offset < layer.hashes.length
      · rw [if_pos (by omega), if_pos hin, if_pos hin]
        exact hwindow offset hin hlayer
      · rw [if_neg (by omega), if_pos hin, List.getElem?_eq_none (by omega)]
    · simp [hin]
  have hadd : checked_add (request_width layer.hashes.length)
      (trailing_zeros (layer_width layer.hashes.length) - trailing_zeros (request_width layer.hashes.length)) =
        some response.length := by
    rw [checked_add_eq_some_iff, hlength]
    refine ⟨?_, rfl⟩
    have hmax : usize.MAX = 2 ^ 64 - 1 := rfl
    omega
  simp only [request_hashes, u32_try_from, reject_if, bind_ok, pure_eq_ok, hresponse, hadd, ok_or, hhashes,
    if_neg (show ¬ start ≥ 2 ^ 32 by omega), if_neg (show ¬ request_width layer.hashes.length ≥ 2 ^ 32 by omega),
    ne_eq, not_true_eq_false, if_false]

/-- The requests of one layer put together give the layer. -/
theorem request_layer_of_serves :
    ∃ responses, (request_starts (layer_width layer.hashes.length)
        (request_width layer.hashes.length)).mapM
          (request_hashes peer layer.pieces_root (trailing_zeros (piece_length / V2_BLOCK_LENGTH))
            (request_width layer.hashes.length) (trailing_zeros (layer_width layer.hashes.length))
            layer.hashes.length) = .ok responses ∧
      responses.flatten = layer.hashes := by
  obtain ⟨m, hm⟩ := request_width_dvd layer.hashes.length
  have hpos := request_width_pos layer.hashes.length
  have hceil : div_ceil (layer_width layer.hashes.length) (request_width layer.hashes.length) = m := by
    rw [div_ceil, hm, Nat.add_sub_assoc hpos, Nat.mul_add_div hpos, Nat.div_eq_of_lt (by omega), Nat.add_zero]
  refine ⟨(List.range m).map fun i => (layer.hashes.drop (i * request_width layer.hashes.length)).take
    (request_width layer.hashes.length), ?_, ?_⟩
  · rw [request_starts, hceil, mapM_eq_ok_iff, List.forall₂_map_left_iff, List.forall₂_map_right_iff,
      List.forall₂_same]
    intro i hi
    apply request_hashes_of_serves hserves hcount
    · rw [hm, Nat.mul_comm]
      exact Nat.mul_lt_mul_of_pos_left (List.mem_range.mp hi) hpos
    · exact Nat.dvd_mul_left _ i
  · rw [← List.flatMap_def, slices.flatMap_windows, Nat.mul_comm, ← hm]
    exact List.take_of_length_le (le_layer_width _)

/-- A layer that a peer has, and that fits its root, is fetched whole. -/
theorem fetch_layer_of_serves (hlow : 2 ≤ layer.hashes.length)
    (hroot : v2_piece_layer_root sha layer.hashes piece_length = .ok layer.pieces_root) :
    fetch_layer sha peer piece_length (layer.pieces_root, layer.hashes.length) = .ok layer := by
  have hwidth : checked_next_power_of_two layer.hashes.length = some (layer_width layer.hashes.length) :=
    checked_next_power_of_two_of_le (k := 20) (hcount.trans (by decide)) (by decide)
  obtain ⟨responses, hresponses, hflatten⟩ := request_layer_of_serves hserves hcount
  rw [request_width] at hresponses
  simp only [fetch_layer, reject_if, bind_ok, hwidth, ok_or, hresponses, hflatten, hroot, hlow, hcount,
    and_self, not_true_eq_false, ne_eq, if_false, pure_eq_ok]

end

/-- From a peer that has every layer of valid metadata, each required layer is fetched, once. -/
theorem fetch_required_of_serves {layers : Vec V2PieceLayer} {files : Vec MetaFile}
    {rooted : Vec (V2InfoHash × MetaFile)} (hchecked : LayersChecked sha layers piece_length rooted)
    (hrooted : rooted_files files = .ok rooted) (hpositive : 0 < piece_length)
    (hshort : ∀ layer ∈ layers, layer.hashes.length ≤ MAX_TORRENT_PIECES)
    (hserves : ∀ layer ∈ layers, Serves peer piece_length layer) :
    ∃ required fetched, require_layers piece_length files [] = .ok required ∧
      required.mapM (fetch_layer sha peer piece_length) = .ok fetched ∧
      (fetched.map V2PieceLayer.pieces_root).Nodup ∧ ∀ layer, layer ∈ fetched ↔ layer ∈ layers := by
  obtain ⟨required, hrequired, hascending, hmem⟩ := hchecked.required hrooted
  have hfetch : ∀ entry ∈ required, ∃ layer, fetch_layer sha peer piece_length entry = .ok layer ∧
      layer ∈ layers ∧ layer.pieces_root = entry.1 := by
    rintro ⟨root, n⟩ hentry
    obtain ⟨layer, hlayer, rfl, rfl⟩ := (hmem root n).mp hentry
    obtain ⟨htwo, hroot⟩ := hchecked.two_le hrooted hpositive hlayer
    exact ⟨layer, fetch_layer_of_serves (hserves layer hlayer) (hshort layer hlayer) htwo hroot, hlayer, rfl⟩
  have : Nonempty V2PieceLayer := ⟨⟨V2InfoHash.ZERO, []⟩⟩
  choose! answer hanswer using hfetch
  refine ⟨required, required.map answer, hrequired, ?_, ?_, ?_⟩
  · rw [mapM_eq_ok_iff, List.forall₂_map_right_iff, List.forall₂_same]
    exact fun entry hentry => (hanswer entry hentry).1
  · have hroots : (required.map answer).map V2PieceLayer.pieces_root = required.map Prod.fst := by
      rw [List.map_map]
      exact List.map_congr_left fun entry hentry => (hanswer entry hentry).2.2
    rw [hroots]
    exact hascending.nodup
  · intro layer
    rw [List.mem_map]
    constructor
    · rintro ⟨entry, hentry, rfl⟩
      exact (hanswer entry hentry).2.1
    · intro hlayer
      have hentry := (hmem _ _).mpr ⟨layer, hlayer, rfl, rfl⟩
      refine ⟨_, hentry, ?_⟩
      exact List.inj_on_of_nodup_map hchecked.nodup (hanswer _ hentry).2.1 hlayer (hanswer _ hentry).2.2

end

section
variable {sha : Sha} {peer : Peer} {info_bytes : Bytes} {trackers : Vec String}
  {identity : TorrentIdentity} {torrent : TorrentMeta}

/-- Exchanged bytes that can be executed: the parser accepts them as they are, or it accepts them
    as pure version 2 metainfo with piece layers that the peer has. -/
inductive Executable (sha : Sha) (peer : Peer) (info_bytes : Bytes) (trackers : Vec String) : Prop where
  | plain (torrent : TorrentMeta) (h : parse_info_dict sha info_bytes trackers = .ok torrent)
  | layered (torrent : TorrentMeta) (layers : Vec V2PieceLayer)
      (h : parse_info_dict_with_piece_layers sha info_bytes trackers layers = .ok torrent)
      (hplane : torrent.requires_v2_data_plane = true)
      (hserves : ∀ layer ∈ layers, Serves peer torrent.piece_length layer)

/-- The identity with every topic that an `info` dictionary has, by its kind. -/
def complete_identity (sha : Sha) (info_bytes : Bytes) : Option TorrentIdentity := do
  let value ← (decode info_bytes).toOption
  let info ← value.as_dict
  match kind info with
  | .v1 => some (.V1 (InfoHash.from_info_bencoded sha info_bytes))
  | .v2 => some (.V2 (V2InfoHash.from_info_bencoded sha info_bytes))
  | .hybrid => some (.Hybrid (InfoHash.from_info_bencoded sha info_bytes)
      (V2InfoHash.from_info_bencoded sha info_bytes))

/-- The parser derives the complete identity, whatever stands beside the `info` dictionary. -/
theorem parsed_identity {value : Value} {extra : Dict} {require : Bool} (hvalue : decode_info info_bytes = .ok value)
    (h : parse_torrent_root sha (magnet_root_with_trackers value trackers ++ extra) info_bytes require
      = .ok torrent) :
    complete_identity sha info_bytes = some torrent.identity := by
  simp only [decode_info, eq_ok_iff] at hvalue
  obtain ⟨decoded, hdecoded, -, -, rfl⟩ := hvalue
  obtain ⟨info, hinfo, hparsed⟩ := parse_torrent_root_parsed h
  have hdict : decoded.as_dict = some info := by
    simpa [find_info_dict, magnet_root_info] using hinfo
  cases hparsed with
  | v1 hkind h => simp [complete_identity, hdecoded, Except.toOption, hdict, hkind, h.identity]
  | v2 hkind h => simp [complete_identity, hdecoded, Except.toOption, hdict, hkind, h.identity]
  | hybrid hkind h => simp [complete_identity, hdecoded, Except.toOption, hdict, hkind, h.identity]

theorem parse_info_dict_identity (h : parse_info_dict sha info_bytes trackers = .ok torrent) :
    complete_identity sha info_bytes = some torrent.identity ∧ torrent.requires_v2_data_plane = false := by
  simp only [parse_info_dict, eq_ok_iff] at h
  obtain ⟨value, hvalue, parsed, hparsed, -, hplane, rfl⟩ := h
  rw [← List.append_nil (magnet_root_with_trackers value trackers)] at hparsed
  exact ⟨parsed_identity hvalue hparsed, by simpa using hplane⟩

theorem parse_with_layers_complete_identity {layers : Vec V2PieceLayer}
    (h : parse_info_dict_with_piece_layers sha info_bytes trackers layers = .ok torrent) :
    complete_identity sha info_bytes = some torrent.identity := by
  simp only [parse_info_dict_with_piece_layers, bind_eq_ok_iff] at h
  obtain ⟨value, hvalue, hparsed⟩ := h
  exact parsed_identity hvalue hparsed

/-- The layers fetched for a pure version 2 dictionary are those the parser accepts it with, in the
    order of their roots. -/
theorem fetch_v2_piece_layers_of_serves {layers : Vec V2PieceLayer}
    (h : parse_info_dict_with_piece_layers sha info_bytes trackers layers = .ok torrent)
    (hplane : torrent.requires_v2_data_plane = true)
    (hserves : ∀ layer ∈ layers, Serves peer torrent.piece_length layer) :
    ∃ fetched resolved, fetch_v2_piece_layers sha peer info_bytes
        (.V2 (V2InfoHash.from_info_bencoded sha info_bytes)) = .ok fetched ∧
      parse_info_dict_with_piece_layers sha info_bytes trackers fetched = .ok resolved := by
  obtain ⟨value, info, name, piece_length, files, total, hinfo⟩ := parse_with_layers_v2Info h hplane
  obtain ⟨-, rfl⟩ := parse_with_layers_identity hinfo h
  obtain ⟨hshort, hvalid⟩ := (parse_with_layers_isOk_iff hinfo).mp ⟨torrent, h⟩
  obtain ⟨rooted, hfiles, -, hlayers⟩ := validate_v2_metadata_eq_ok_iff.mp hvalid
  have hchecked := hlayers rfl
  obtain ⟨hpositive, -⟩ := parse_piece_length_bounds hinfo.tree.parse_piece_length
  obtain ⟨required, fetched, hrequired, hfetched, hnodup, hsame⟩ :=
    fetch_required_of_serves hchecked hfiles.rooted (Nat.pos_of_ne_zero hpositive) hshort hserves
  have hvalid' : validate_v2_metadata sha ⟨2, files, fetched, true⟩ torrent.piece_length total = .ok () :=
    validate_v2_metadata_eq_ok_iff.mpr ⟨rooted, ⟨rfl, hfiles.piece_length, hfiles.files, hfiles.rooted⟩,
      by simp, fun _ => hchecked.congr hfiles.rooted hnodup hsame⟩
  obtain ⟨resolved, hresolved⟩ : ∃ resolved,
      parse_info_dict_with_piece_layers sha info_bytes trackers fetched = .ok resolved :=
    (parse_with_layers_isOk_iff hinfo).mpr
      ⟨fun layer hlayer => hshort layer ((hsame layer).mp hlayer), hvalid'⟩
  have hinspect : inspect_bep9_v2_info sha info_bytes =
      .ok (some ⟨V2InfoHash.from_info_bencoded sha info_bytes, torrent.piece_length, files⟩) :=
    inspect_bep9_v2_info_of_v2Info hinfo ⟨rfl, hfiles.piece_length, hfiles.files, hfiles.rooted⟩
  refine ⟨fetched, resolved, ?_, hresolved⟩
  simp [fetch_v2_piece_layers, hinspect, ok_or, TorrentIdentity.v2_info_hash, reject_if,
    Bep9V2Info.required_piece_layers, hrequired, hfetched]

theorem fetch_resolved_metadata_eq_ok_iff :
    fetch_resolved_metadata sha peer identity info_bytes trackers = .ok torrent ↔
      ∃ fetched, verify_assembled sha peer identity info_bytes = .ok fetched ∧
        parse_fetched sha identity fetched trackers = .ok torrent ∧ torrent.identity = identity := by
  simp only [fetch_resolved_metadata, eq_ok_iff, ne_eq, not_not]
  constructor
  · rintro ⟨-, -, fetched, hfetched, parsed, hparsed, -, hidentity, rfl⟩
    exact ⟨fetched, hfetched, hparsed, hidentity⟩
  · rintro ⟨fetched, hfetched, hparsed, hidentity⟩
    obtain ⟨handshake, hhandshake⟩ : ∃ handshake, MetadataHandshake.for_identity identity = .ok handshake := by
      cases identity with
      | Unknown => cases hparsed
      | V1 v1 | V2 v2 | Hybrid v1 v2 => exact ⟨_, rfl⟩
    exact ⟨handshake, hhandshake, fetched, hfetched, torrent, hparsed, (), hidentity, rfl⟩

/-- Only bytes that match every topic of the magnet are passed on, and unchanged. -/
theorem verify_assembled_raw_info {fetched : FetchedMetadata}
    (h : verify_assembled sha peer identity info_bytes = .ok fetched) : fetched.raw_info = info_bytes := by
  simp only [verify_assembled, bind_eq_ok_iff] at h
  obtain ⟨-, -, h⟩ := h
  split at h
  · simp only [eq_ok_iff] at h
    obtain ⟨layers, -, rfl⟩ := h
    rfl
  · simp only [pure_eq_ok_iff] at h
    rw [← h]

/-- What is resolved has the complete identity of the exchanged bytes. -/
theorem complete_identity_of_resolved
    (h : fetch_resolved_metadata sha peer identity info_bytes trackers = .ok torrent) :
    complete_identity sha info_bytes = some identity := by
  obtain ⟨fetched, hfetched, hparsed, rfl⟩ := fetch_resolved_metadata_eq_ok_iff.mp h
  unfold parse_fetched at hparsed
  rw [verify_assembled_raw_info hfetched] at hparsed
  split at hparsed
  · exact parse_with_layers_complete_identity hparsed
  · exact (parse_info_dict_identity hparsed).1
  · exact (parse_info_dict_identity hparsed).1
  · cases hparsed

/-- Metadata that is executable without piece layers resolves for its own identity. -/
theorem resolved_of_plain (hparse : parse_info_dict sha info_bytes trackers = .ok torrent)
    (hmatches : torrent.identity.matches_info_bencoded sha info_bytes = true) :
    fetch_resolved_metadata sha peer torrent.identity info_bytes trackers = .ok torrent := by
  obtain ⟨-, hplane⟩ := parse_info_dict_identity hparse
  refine fetch_resolved_metadata_eq_ok_iff.mpr ⟨⟨info_bytes, []⟩, ?_, ?_, rfl⟩
  all_goals cases hcase : torrent.identity with
    | Unknown => simp [hcase, TorrentIdentity.matches_info_bencoded] at hmatches
    | V2 v2 => simp [TorrentMeta.requires_v2_data_plane_iff.mpr ⟨v2, hcase⟩] at hplane
    | V1 v1 | Hybrid v1 v2 =>
      rw [hcase] at hmatches
      simp [verify_assembled, parse_fetched, reject_if, hmatches, hparse]

/-- Pure version 2 metadata resolves for its own identity with a peer that has its layers. -/
theorem resolved_of_layered {layers : Vec V2PieceLayer}
    (hparse : parse_info_dict_with_piece_layers sha info_bytes trackers layers = .ok torrent)
    (hplane : torrent.requires_v2_data_plane = true)
    (hserves : ∀ layer ∈ layers, Serves peer torrent.piece_length layer) :
    ∃ resolved, fetch_resolved_metadata sha peer torrent.identity info_bytes trackers = .ok resolved := by
  obtain ⟨fetched, resolved, hfetched, hresolved⟩ := fetch_v2_piece_layers_of_serves hparse hplane hserves
  obtain ⟨value, info, name, piece_length, files, total, hinfo⟩ := parse_with_layers_v2Info hparse hplane
  obtain ⟨hidentity, -⟩ := parse_with_layers_identity hinfo hparse
  obtain ⟨hidentity', -⟩ := parse_with_layers_identity hinfo hresolved
  rw [hidentity]
  refine ⟨resolved, fetch_resolved_metadata_eq_ok_iff.mpr ⟨⟨info_bytes, fetched⟩, ?_, hresolved, hidentity'⟩⟩
  simp [verify_assembled, TorrentIdentity.matches_info_bencoded, reject_if, hfetched]

theorem resolved_torrent_key_isOk (h : torrent.identity = identity)
    (hmatches : identity.matches_info_bencoded sha info_bytes = true) :
    ∃ key, resolved_torrent_key identity torrent = .ok key := by
  subst h
  cases hcase : torrent.identity with
  | Unknown => simp [hcase, TorrentIdentity.matches_info_bencoded] at hmatches
  | V1 v1 | V2 v2 | Hybrid v1 v2 =>
    simp [resolved_torrent_key, reject_if, hcase, TorrentIdentity.primary_key, ok_or]

/-- Executable metadata resolves exactly when the magnet claims its complete identity. Both the
    exchange and the engine compare whole identities, so that a magnet with one of the two topics
    of a hybrid torrent is refused although its topic matches. -/
theorem magnet_resolves_iff (h : Executable sha peer info_bytes trackers)
    (hmatches : identity.matches_info_bencoded sha info_bytes = true) :
    (∃ torrent key, fetch_resolved_metadata sha peer identity info_bytes trackers = .ok torrent ∧
      resolved_torrent_key identity torrent = .ok key) ↔
    complete_identity sha info_bytes = some identity := by
  constructor
  · rintro ⟨torrent, key, hfetch, -⟩
    exact complete_identity_of_resolved hfetch
  · intro hcomplete
    have hfetch : ∃ torrent, fetch_resolved_metadata sha peer identity info_bytes trackers = .ok torrent := by
      cases h with
      | plain torrent hparse =>
        obtain rfl : torrent.identity = identity := by
          simpa [(parse_info_dict_identity hparse).1] using hcomplete
        exact ⟨torrent, resolved_of_plain hparse hmatches⟩
      | layered torrent layers hparse hplane hserves =>
        obtain rfl : torrent.identity = identity := by
          simpa [parse_with_layers_complete_identity hparse] using hcomplete
        exact resolved_of_layered hparse hplane hserves
    obtain ⟨torrent, hfetch⟩ := hfetch
    obtain ⟨-, -, -, hidentity⟩ := fetch_resolved_metadata_eq_ok_iff.mp hfetch
    obtain ⟨key, hkey⟩ := resolved_torrent_key_isOk hidentity hmatches
    exact ⟨torrent, key, hfetch, hkey⟩

end

/-- The `info` dictionary of a hybrid torrent with one file of one byte. -/
def hybrid_info : Bytes :=
  as_bytes ("d9:file treed1:xd0:d6:lengthi1e11:pieces root32:" ++ "aaaaaaaaaaaaaaaaaaaaaaaaaaaaaaaa" ++
    "eee6:lengthi1e12:meta versioni2e4:name1:x12:piece lengthi16384e6:pieces20:aaaaaaaaaaaaaaaaaaaae")

/-- A magnet with only the version 1 topic of a hybrid torrent does not resolve. -/
theorem magnet_single_topic_refused :
    Executable Sha.leading (fun _ => .error .Elapsed) hybrid_info [] ∧
    (TorrentIdentity.V1 (InfoHash.from_info_bencoded Sha.leading hybrid_info)).matches_info_bencoded
      Sha.leading hybrid_info = true ∧
    fetch_resolved_metadata Sha.leading (fun _ => .error .Elapsed)
      (.V1 (InfoHash.from_info_bencoded Sha.leading hybrid_info)) hybrid_info [] =
      .error (.MalformedTorrent "resolved metadata identity does not match the magnet identity") := by
  obtain ⟨torrent, htorrent⟩ : ∃ torrent, parse_info_dict Sha.leading hybrid_info [] = .ok torrent :=
    exists_ok_of_isOk (by decide +kernel)
  exact ⟨.plain torrent htorrent, by decide +kernel, by decide +kernel⟩

/-- The `info` dictionary of a pure version 2 torrent with one file of two pieces. -/
def pure_v2_info : Bytes :=
  as_bytes ("d9:file treed1:xd0:d6:lengthi20000e11:pieces root32:" ++ "aaaaaaaaaaaaaaaaaaaaaaaaaaaaaaaa" ++
    "eee12:meta versioni2e4:name1:x12:piece lengthi16384ee")

/-- The layer of the file of `pure_v2_info`, under the stand-in for SHA-256. -/
def pure_v2_layer : V2PieceLayer :=
  ⟨⟨Vector.replicate 32 97⟩, [⟨Vector.replicate 32 97⟩, ⟨Vector.replicate 32 98⟩]⟩

/-- A pure version 2 magnet resolves with a peer that has the layer. -/
theorem magnet_resolves_iff_layered :
    Executable Sha.leading (fun _ => .ok pure_v2_layer.hashes) pure_v2_info [] ∧
    ((∃ torrent key, fetch_resolved_metadata Sha.leading (fun _ => .ok pure_v2_layer.hashes)
        (.V2 (V2InfoHash.from_info_bencoded Sha.leading pure_v2_info)) pure_v2_info [] = .ok torrent ∧
        resolved_torrent_key (.V2 (V2InfoHash.from_info_bencoded Sha.leading pure_v2_info)) torrent = .ok key) ↔
      complete_identity Sha.leading pure_v2_info =
        some (.V2 (V2InfoHash.from_info_bencoded Sha.leading pure_v2_info))) := by
  obtain ⟨torrent, htorrent⟩ : ∃ torrent,
      parse_info_dict_with_piece_layers Sha.leading pure_v2_info [] [pure_v2_layer] = .ok torrent :=
    exists_ok_of_isOk (by decide +kernel)
  have hplane : torrent.requires_v2_data_plane = true := by
    have hidentity := parse_with_layers_complete_identity htorrent
    have hcomplete : complete_identity Sha.leading pure_v2_info =
        some (.V2 (V2InfoHash.from_info_bencoded Sha.leading pure_v2_info)) := by decide +kernel
    rw [hcomplete, Option.some.injEq] at hidentity
    exact TorrentMeta.requires_v2_data_plane_iff.mpr ⟨_, hidentity.symm⟩
  have hserves : ∀ layer ∈ [pure_v2_layer],
      Serves (fun _ => .ok pure_v2_layer.hashes) torrent.piece_length layer := by
    intro layer hlayer index hindex hdvd
    rw [List.mem_singleton] at hlayer
    subst hlayer
    have hwidth : layer_width pure_v2_layer.hashes.length = 2 := by decide
    have hrequest : request_width pure_v2_layer.hashes.length = 2 := by decide
    rw [hwidth] at hindex
    rw [hrequest] at hdvd
    obtain rfl : index = 0 := by omega
    refine ⟨pure_v2_layer.hashes, rfl, by decide, fun offset _ _ => ?_⟩
    rw [Nat.zero_add]
  have hexecutable := Executable.layered torrent [pure_v2_layer] htorrent hplane hserves
  exact ⟨hexecutable, magnet_resolves_iff hexecutable (by decide +kernel)⟩

end swarmotter.metadata

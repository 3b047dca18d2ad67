import Swarmotter.Peer.Extensions
import Swarmotter.Peer.Reader
import Swarmotter.Meta.Required

open swarmotter.meta swarmotter.peer swarmotter.extensions merkle

namespace swarmotter.seeder

/-- The siblings of the path from a node to the root, on the given layers. The loop ends at the first layer
    that has none. -/
def uncle_hashes (layers : Vec (Vec V2InfoHash)) (start : Nat) : List Nat → Option (Vec V2InfoHash)
  | [] => some []
  | layer_index :: rest =>
    match layers[layer_index]? with
    | none => some []
    | some layer =>
      if layer.length ≤ 1 then some []
      else do
        let node_index := start >>> layer_index
        let hash ← layer[node_index ^^^ 1]?
        let hashes ← uncle_hashes layers start rest
        some (hash :: hashes)

/-- Build a BEP 52 hash response at the logical-piece layer. -/
def v2_hash_response (sha : Sha) (torrent : TorrentMeta) (pieces_root : V2InfoHash)
    (base_layer index length proof_layers : UInt32) : Option Message := do
  guard (¬ (length.toNat < 2 ∨ is_power_of_two length.toNat = false ∨ ¬ length.toNat ∣ index.toNat ∨
    length.toNat > 512))
  let piece_layer := trailing_zeros (torrent.piece_length / V2_BLOCK_LENGTH)
  guard (base_layer.toNat = piece_layer)
  let v2 ← torrent.v2
  guard (v2.piece_layers_verified = true)
  let piece_layer_hashes ← v2.piece_layers.find? fun layer => layer.pieces_root = pieces_root
  let computed_root ← (v2_piece_layer_root sha piece_layer_hashes.hashes torrent.piece_length).toOption
  guard (computed_root = pieces_root)
  let width ← checked_next_power_of_two piece_layer_hashes.hashes.length
  let start := index.toNat
  let requested := length.toNat
  let stop ← checked_add start requested
  guard (stop ≤ width)
  let zero_subtree := zero_subtree (swarmotter.v2.v2_hash_pair sha) V2InfoHash.ZERO piece_layer
  let bottom := slices.resize piece_layer_hashes.hashes width zero_subtree
  let layers := levels (swarmotter.v2.v2_hash_pair sha) bottom.length bottom
  let top ← layers.getLast?
  let root ← top.head?
  guard (root = pieces_root)
  let first ← layers.head?
  let requested_depth := trailing_zeros length.toNat
  let uncles ← uncle_hashes layers start (List.range' requested_depth (proof_layers.toNat - requested_depth))
  some (.Hashes pieces_root base_layer index length proof_layers ((first.drop start).take (stop - start) ++ uncles))

/-- The answer of `serve_v2_peer_session` to a hash request. -/
def answer_hash_request (sha : Sha) (torrent : TorrentMeta) (pieces_root : V2InfoHash)
    (base_layer index length proof_layers : UInt32) : Message :=
  (v2_hash_response sha torrent pieces_root base_layer index length proof_layers).getD
    (.HashReject pieces_root base_layer index length proof_layers)

/-- The piece layer of a file, padded to a power of two with the root of a subtree of zero blocks. -/
def padded_layer (sha : Sha) (piece_length : Nat) (hashes : Vec V2InfoHash) : Vec V2InfoHash :=
  slices.resize hashes (2 ^ Nat.clog 2 hashes.length) (zero_subtree (v2.v2_hash_pair sha) V2InfoHash.ZERO
    (trailing_zeros (piece_length / V2_BLOCK_LENGTH)))

section
variable {sha : Sha}

theorem length_padded_layer (sha : Sha) (piece_length : Nat) (hashes : Vec V2InfoHash) :
    (padded_layer sha piece_length hashes).length = 2 ^ Nat.clog 2 hashes.length :=
  slices.length_resize (Nat.le_pow_clog Nat.one_lt_two _) _

/-- The uncles that are collected are the siblings of the path, up to the level below the root. -/
theorem uncle_hashes_eq_siblings {leaf : Nat → V2InfoHash} {d start : Nat} (hstart : start < 2 ^ d)
    (height count : Nat) :
    uncle_hashes ((List.range (d + 1)).map fun height =>
        (List.range (2 ^ (d - height))).map (node (v2.v2_hash_pair sha) leaf height)) start
      (List.range' height count) =
    some (siblings (v2.v2_hash_pair sha) leaf start height (min (height + count) d - height)) := by
  induction count generalizing height with
  | zero =>
    rw [show min (height + 0) d - height = 0 by omega]
    rfl
  | succ count ih =>
    rw [List.range'_succ, uncle_hashes, List.getElem?_map]
    by_cases hheight : height < d
    · have hnode : start >>> height < 2 ^ (d - height) := by
        rw [Nat.shiftRight_eq_div_pow, Nat.div_lt_iff_lt_mul (Nat.two_pow_pos height), ← Nat.pow_add,
          Nat.sub_add_cancel hheight.le]
        exact hstart
      have hone : 2 ^ 1 ≤ 2 ^ (d - height) := Nat.pow_le_pow_right (by decide) (by omega)
      have hsibling : (start >>> height) ^^^ 1 < 2 ^ (d - height) := Nat.xor_lt_two_pow hnode (by omega)
      have hmany : ¬ 2 ^ (d - height) ≤ 1 := by omega
      rw [Nat.shiftRight_eq_div_pow] at hsibling
      rw [show min (height + (count + 1)) d - height = min (height + 1 + count) d - (height + 1) + 1 by omega,
        siblings_succ, List.getElem?_range (by omega : height < d + 1), Option.map_some]
      simp only [List.length_map, List.length_range, if_neg hmany, List.getElem?_map, List.getElem?_range hsibling,
        Option.map_some, Option.bind_eq_bind, Option.bind_some, ih, Nat.shiftRight_eq_div_pow]
    · rw [show min (height + (count + 1)) d - height = 0 by omega]
      by_cases htop : height = d
      · subst htop
        simp [siblings]
      · rw [List.getElem?_eq_none (by rw [List.length_range]; omega)]
        rfl

/-- The root of a layer is that of the tree that is rebuilt over it. -/
theorem reduce_padded_layer {hashes : Vec V2InfoHash} {piece_length : Nat} {root : V2InfoHash}
    (hroot : v2_piece_layer_root sha hashes piece_length = .ok root) :
    checked_next_power_of_two hashes.length = some (2 ^ Nat.clog 2 hashes.length) ∧
      reduce (v2.v2_hash_pair sha) (padded_layer sha piece_length hashes).length
        (padded_layer sha piece_length hashes) = [root] := by
  simp only [v2_piece_layer_root, eq_ok_iff] at hroot
  obtain ⟨-, -, -, -, width, hwidth, hfold⟩ := hroot
  obtain rfl : 2 ^ Nat.clog 2 hashes.length = width := by
    unfold checked_next_power_of_two at hwidth
    split at hwidth
    · exact Option.some.inj hwidth
    · cases hwidth
  have hsize := length_padded_layer sha piece_length hashes
  have htree := reduce_eq_tree (v2.v2_hash_pair sha) V2InfoHash.ZERO hsize
    (hsize ▸ Nat.lt_two_pow_self.le : Nat.clog 2 hashes.length ≤ _)
  refine ⟨hwidth, htree.trans ?_⟩
  rw [← hfold]
  exact congrArg (fun nodes : Vec V2InfoHash => [nodes.headD V2InfoHash.ZERO]) htree.symm

/-- A request for an aligned window of a known layer, with the proof up to the root, is answered with the hashes
    of the window and one uncle for each layer between the window and the root. -/
theorem v2_hash_response_of_aligned {torrent : TorrentMeta} {v2 : V2TorrentMeta} {layer : V2PieceLayer}
    {bits : Nat} (base_layer index length proof_layers : UInt32) (hv2 : torrent.v2 = some v2)
    (hverified : v2.piece_layers_verified = true)
    (hfind : v2.piece_layers.find? (fun other => other.pieces_root = layer.pieces_root) = some layer)
    (hroot : v2_piece_layer_root sha layer.hashes torrent.piece_length = .ok layer.pieces_root)
    (hbase : base_layer.toNat = trailing_zeros (torrent.piece_length / V2_BLOCK_LENGTH))
    (hlength : length.toNat = 2 ^ bits) (hbits : 1 ≤ bits ∧ bits ≤ 9)
    (hdepth : bits ≤ Nat.clog 2 layer.hashes.length) (hdvd : length.toNat ∣ index.toNat)
    (hindex : index.toNat < 2 ^ Nat.clog 2 layer.hashes.length)
    (hproof : proof_layers.toNat = Nat.clog 2 layer.hashes.length) :
    ∃ hashes, v2_hash_response sha torrent layer.pieces_root base_layer index length proof_layers =
        some (.Hashes layer.pieces_root base_layer index length proof_layers hashes) ∧
      hashes.length = 2 ^ bits + (Nat.clog 2 layer.hashes.length - bits) ∧
      ∀ offset, offset < 2 ^ bits → index.toNat + offset < layer.hashes.length →
        hashes[offset]? = layer.hashes[index.toNat + offset]? := by
  obtain ⟨hwidth, hreduce⟩ := reduce_padded_layer hroot
  have hsize := length_padded_layer sha torrent.piece_length layer.hashes
  generalize hdepth_eq : Nat.clog 2 layer.hashes.length = depth at *
  have hlow : 2 ^ 1 ≤ 2 ^ bits := Nat.pow_le_pow_right (by decide) hbits.1
  have hhigh : 2 ^ bits ≤ 2 ^ 9 := Nat.pow_le_pow_right (by decide) hbits.2
  have hrange : ¬ (length.toNat < 2 ∨ is_power_of_two length.toNat = false ∨ ¬ length.toNat ∣ index.toNat ∨
      length.toNat > 512) := by
    have hpower : is_power_of_two length.toNat = true := is_power_of_two_iff.mpr ⟨bits, hlength⟩
    simp only [hpower, hdvd, not_true_eq_false, Bool.true_eq_false, false_or]
    omega
  -- the window and the width are both multiples of the length
  have hend : index.toNat + length.toNat ≤ 2 ^ depth := by
    have hwhole : length.toNat ∣ 2 ^ depth := hlength ▸ Nat.pow_dvd_pow 2 hdepth
    obtain ⟨i, hi⟩ := hdvd
    obtain ⟨m, hm⟩ := hwhole
    have hlt : i < m := by
      rw [hi, hm] at hindex
      exact Nat.lt_of_mul_lt_mul_left hindex
    rw [hi, hm, ← Nat.mul_succ]
    exact Nat.mul_le_mul_left _ hlt
  have hstop : checked_add index.toNat length.toNat = some (index.toNat + length.toNat) := by
    rw [checked_add_eq_some_iff]
    have hmax : usize.MAX = 2 ^ 64 - 1 := rfl
    have hindex := index.toNat_lt
    have hlength := length.toNat_lt
    omega
  have hzeros : trailing_zeros length.toNat = bits := by rw [hlength, trailing_zeros_two_pow (by omega)]
  have hcount : layer.hashes.length ≤ 2 ^ depth := hdepth_eq ▸ Nat.le_pow_clog Nat.one_lt_two _
  set bottom := padded_layer sha torrent.piece_length layer.hashes with hbottom
  have hlayers := levels_eq (swarmotter.v2.v2_hash_pair sha) V2InfoHash.ZERO hsize
    (hsize ▸ Nat.lt_two_pow_self.le : depth ≤ bottom.length)
  obtain ⟨uncles, huncles, hnumber⟩ : ∃ uncles, uncle_hashes (levels (swarmotter.v2.v2_hash_pair sha)
      bottom.length bottom) index.toNat (List.range' bits (depth - bits)) = some uncles ∧
        uncles.length = depth - bits :=
    ⟨_, hlayers ▸ uncle_hashes_eq_siblings hindex bits _, by rw [siblings, List.length_map, List.length_range']; omega⟩
  refine ⟨(bottom.drop index.toNat).take length.toNat ++ uncles, ?_, ?_, ?_⟩
  · rw [hbottom, padded_layer, hdepth_eq] at hreduce huncles
    simp only [v2_hash_response, hrange, hbase, hv2, hverified, hfind, hroot, hwidth, hstop, hend, hreduce, hzeros,
      hproof, huncles, head?_levels, getLast?_levels, guard, Except.toOption, List.head?_cons,
      not_false_eq_true, if_true, Option.bind_eq_bind, Option.bind_some, Option.pure_def, Nat.add_sub_cancel_left,
      hbottom, padded_layer, hdepth_eq]
  · rw [List.length_append, List.length_take, List.length_drop, hnumber, hsize]
    omega
  · intro offset hoffset hin
    rw [List.getElem?_append_left (by rw [List.length_take, List.length_drop]; omega),
      List.getElem?_take_of_lt (by omega), List.getElem?_drop, hbottom, padded_layer, hdepth_eq,
      slices.getElem?_resize hcount hin]

end

def LOCAL_UT_METADATA_ID : UInt8 := 3

/-- `serve_v2_peer_session`, from its bitfield on. -/
structure Session where
  torrent : TorrentMeta
  /-- One bit for each piece of the layout. -/
  bits : Bytes
  bits_le : bits.length ≤ div_ceil MAX_TORRENT_PIECES 8
  /-- The answers to the messages of the payload transfer. -/
  serve_payload : Message → Vec Message
  /-- The id under which the other side takes metadata messages, once it has said so. -/
  remote_metadata_id : Option UInt8

namespace Session

def metadata_info (session : Session) : Option Bytes :=
  session.torrent.raw_info.filter fun info => info ≠ [] ∧ info.length ≤ MAX_TORRENT_METADATA_BYTES

/-- The extension handshake of a seeder with `size` bytes of metadata. -/
def handshake (size : Nat) : Message :=
  .Extended EXTENSION_HANDSHAKE_ID
    (encode_extension_handshake [(UT_METADATA_NAME, LOCAL_UT_METADATA_ID)] "SwarmOtter/2.0" (some size))

/-- What is sent before anything is read. -/
def greeting (session : Session) : Vec Message :=
  .Bitfield session.bits ::
    match session.metadata_info with
    | some info => [handshake info.length]
    | none => []

/-- The payload of the answer to a metadata message. Only requests are answered. -/
def metadata_response (info payload : Bytes) : Option Bytes :=
  match parse_metadata_message payload with
  | .ok message =>
    if message.msg_type = .Request then
      match (checked_mul message.piece.toNat METADATA_PIECE_SIZE).filter (· < info.length) with
      | some start =>
        let stop := min (min (start + METADATA_PIECE_SIZE) usize.MAX) info.length
        some (encode_metadata_data message.piece info.length ((info.drop start).take (stop - start)))
      | none => some (encode_metadata_reject message.piece)
    else none
  | .error _ => none

/-- One turn of the loop, on the next message. -/
def hear (sha : Sha) (session : Session) : Message → Session × Vec Message
  | .Extended id payload =>
    if id = EXTENSION_HANDSHAKE_ID then
      match parse_extension_handshake payload with
      | .ok handshake => ({ session with remote_metadata_id := handshake.id_for UT_METADATA_NAME }, [])
      | .error _ => (session, [])
    else if id ≠ LOCAL_UT_METADATA_ID then (session, [])
    else
      match session.metadata_info, session.remote_metadata_id with
      | some info, some remote_id =>
        (session, ((metadata_response info payload).map (Message.Extended remote_id)).toList)
      | _, _ => (session, [])
  | .HashRequest pieces_root base_layer index length proof_layers =>
    (session, [answer_hash_request sha session.torrent pieces_root base_layer index length proof_layers])
  | message => (session, session.serve_payload message)

/-- The session on the next frame. It ends at a frame that it cannot read. -/
def hear_frame (sha : Sha) (session : Option Session) (frame : Bytes) : Option Session × Vec Bytes :=
  match session, Read.of_frame frame with
  | some session, .Message message =>
    let (next, answers) := session.hear sha message
    (some next, answers.map Message.encode)
  | _, _ => (none, [])

/-! What the session makes of the messages of a metadata exchange. -/

section
variable {sha : Sha} {session : Session} {info : Bytes} {remote_id : UInt8}

/-- The extension handshake of the other side is remembered. -/
theorem hear_handshake (id : UInt8) {client_version : String} (hversion : (as_bytes client_version).length ≤ 100)
    {metadata_size : Option Nat} (hsize : ∀ n ∈ metadata_size, n < 2 ^ 63) :
    session.hear sha (.Extended EXTENSION_HANDSHAKE_ID
        (encode_extension_handshake [(UT_METADATA_NAME, id)] client_version metadata_size)) =
      ({ session with remote_metadata_id := some id }, []) := by
  have hname : (as_bytes UT_METADATA_NAME).length ≤ 100 := by decide
  rw [hear, if_pos rfl, parse_single_extension hname hversion hsize]
  simp [ExtensionHandshake.id_for]

/-- The slice that is sent for a piece is as long as a piece, unless the metadata ends before. -/
theorem metadata_slice (info : Bytes) {start : Nat} (hmax : info.length ≤ usize.MAX) (hstart : start < info.length) :
    (info.drop start).take (min (min (start + METADATA_PIECE_SIZE) usize.MAX) info.length - start) =
      (info.drop start).take METADATA_PIECE_SIZE := by
  apply List.ext_getElem?
  intro i
  by_cases hin : start + i < info.length
  · by_cases hpiece : i < METADATA_PIECE_SIZE
    · rw [List.getElem?_take_of_lt (by omega), List.getElem?_take_of_lt hpiece]
    · rw [List.getElem?_take_eq_none (by omega), List.getElem?_take_eq_none (by omega)]
  · have hnone : (info.drop start)[i]? = none := List.getElem?_eq_none (by rw [List.length_drop]; omega)
    simp [List.getElem?_take, hnone]

/-- A request for a piece of the metadata is answered with that piece. -/
theorem hear_request (sha : Sha) (hinfo : session.metadata_info = some info)
    (hremote : session.remote_metadata_id = some remote_id) {piece : UInt32}
    (hpiece : piece.toNat * METADATA_PIECE_SIZE < info.length) :
    session.hear sha (.Extended LOCAL_UT_METADATA_ID (encode_metadata_request piece)) =
      (session, [.Extended remote_id (encode_metadata_data piece info.length
        ((info.drop (piece.toNat * METADATA_PIECE_SIZE)).take METADATA_PIECE_SIZE))]) := by
  have hmax : info.length ≤ usize.MAX := by
    have hlimit := (Option.filter_eq_some_iff.mp hinfo).2
    simp only [decide_eq_true_eq] at hlimit
    exact hlimit.2.trans (by decide)
  have hparse : parse_metadata_message (encode_metadata_request piece) = .ok ⟨.Request, piece, none, []⟩ := by
    have hlength := length_encode_metadata_dict_le .Request piece (show ∀ n ∈ none, n < 2 ^ 63 by simp)
    have hwhole := parse_metadata_message_encode
      (show ∀ n ∈ none, n < 2 ^ 63 by simp) [] (by rw [List.append_nil]; exact hlength.trans (by decide))
    rwa [List.append_nil] at hwhole
  have hstart : (checked_mul piece.toNat METADATA_PIECE_SIZE).filter (· < info.length) =
      some (piece.toNat * METADATA_PIECE_SIZE) := by
    rw [checked_mul, if_pos (by omega), Option.filter_some_pos (by simpa using hpiece)]
  have hids : LOCAL_UT_METADATA_ID ≠ EXTENSION_HANDSHAKE_ID := by decide
  simp only [hear, if_neg hids, ne_eq, not_true_eq_false, if_false, hinfo, hremote, metadata_response, hparse, if_true,
    hstart, metadata_slice info hmax hpiece, Option.map_some, Option.toList_some]

theorem hear_frame_encode {message : Message} (hvalid : message.Valid) {next : Session} {answers : Vec Message}
    (h : session.hear sha message = (next, answers)) :
    hear_frame sha (some session) message.encode = (some next, answers.map Message.encode) := by
  simp only [hear_frame, Read.of_frame_encode hvalid, h]

end

end Session

/-- A hash of the padded layer or of a level above it. -/
def layer_node (sha : Sha) (leaves : Vec V2InfoHash) : Nat → Nat → V2InfoHash :=
  node (v2.v2_hash_pair sha) fun i => leaves.getD i V2InfoHash.ZERO

section
variable {sha : Sha}

/-- The hashes of a response: the window of the padded layer, and the siblings of the path above it. -/
theorem v2_hash_response_eq_some {torrent : TorrentMeta} {pieces_root : V2InfoHash}
    {base_layer index length proof_layers : UInt32} {message : Message}
    (h : v2_hash_response sha torrent pieces_root base_layer index length proof_layers = some message) :
    ∃ metadata layer bits hashes, torrent.v2 = some metadata ∧ layer ∈ metadata.piece_layers ∧
      layer.pieces_root = pieces_root ∧
      v2_piece_layer_root sha layer.hashes torrent.piece_length = .ok pieces_root ∧
      length.toNat = 2 ^ bits ∧ length.toNat ∣ index.toNat ∧
      index.toNat + length.toNat ≤ 2 ^ Nat.clog 2 layer.hashes.length ∧
      message = .Hashes pieces_root base_layer index length proof_layers hashes ∧
      hashes = ((padded_layer sha torrent.piece_length layer.hashes).drop index.toNat).take length.toNat ++
        siblings (v2.v2_hash_pair sha)
          (fun i => (padded_layer sha torrent.piece_length layer.hashes).getD i V2InfoHash.ZERO) index.toNat bits
          (min proof_layers.toNat (Nat.clog 2 layer.hashes.length) - bits) := by
  simp only [v2_hash_response, Option.bind_eq_bind, Option.bind_eq_some_iff, Option.guard_eq_some', exists_const,
    not_or, Bool.not_eq_false, not_not, Option.some.injEq, checked_add_eq_some_iff] at h
  obtain ⟨⟨hlow, hpower, hdvd, hhigh⟩, hbase, metadata, hv2, hverified, layer, hfind, root, hcomputed, rfl, width,
    hwidth, _, ⟨-, rfl⟩, hend, top, -, _, -, -, first, hfirst, uncles, huncles, rfl⟩ := h
  have hroot : v2_piece_layer_root sha layer.hashes torrent.piece_length = .ok root := by
    cases hresult : v2_piece_layer_root sha layer.hashes torrent.piece_length with
    | error error => rw [hresult] at hcomputed; cases hcomputed
    | ok computed => rw [hresult] at hcomputed; rw [Option.some.inj hcomputed]
  obtain ⟨bits, hbits⟩ := is_power_of_two_iff.mp hpower
  obtain rfl : 2 ^ Nat.clog 2 layer.hashes.length = width :=
    Option.some.inj ((reduce_padded_layer hroot).1.symm.trans hwidth)
  have hbits_lt : bits < 64 := by
    by_contra hge
    have hmany : 2 ^ 64 ≤ 2 ^ bits := Nat.pow_le_pow_right (by decide) (by omega)
    omega
  have hzeros : trailing_zeros length.toNat = bits := by rw [hbits, trailing_zeros_two_pow hbits_lt]
  set leaves := padded_layer sha torrent.piece_length layer.hashes with hleaves
  have hsize : leaves.length = 2 ^ Nat.clog 2 layer.hashes.length := length_padded_layer sha _ _
  obtain rfl : leaves = first := Option.some.inj ((head?_levels _ _ _).symm.trans hfirst)
  have hlayers := levels_eq (v2.v2_hash_pair sha) V2InfoHash.ZERO hsize
    (hsize ▸ Nat.lt_two_pow_self.le : Nat.clog 2 layer.hashes.length ≤ leaves.length)
  rw [hzeros] at huncles
  have hsiblings := (uncle_hashes_eq_siblings (by omega) bits (proof_layers.toNat - bits)).symm.trans
    ((congrArg (uncle_hashes · _ _) hlayers.symm).trans huncles)
  refine ⟨metadata, layer, bits, _, hv2, List.mem_of_find?_eq_some hfind, by simpa using List.find?_some hfind, hroot,
    hbits, hdvd, hend, rfl, ?_⟩
  rw [Nat.add_sub_cancel_left, ← Option.some.inj hsiblings]
  congr 2
  omega

/-- A level of `2 ^ d` nodes folds to the node above all of them. -/
theorem fold_level_eq_layer_node {leaves : Vec V2InfoHash} {d : Nat} (hleaves : leaves.length = 2 ^ d) :
    v2.fold_level sha leaves = layer_node sha leaves d 0 := by
  have hfuel : d ≤ leaves.length := hleaves ▸ Nat.lt_two_pow_self.le
  rw [v2.fold_level, reduce_eq_tree (v2.v2_hash_pair sha) V2InfoHash.ZERO hleaves hfuel, List.headD_cons]
  exact tree_congr _ fun i _ => by rw [Nat.zero_mul, Nat.zero_add]

/-- An aligned window folds to the node above it. -/
theorem fold_window {leaves : Vec V2InfoHash} {index bits : Nat} (hdvd : 2 ^ bits ∣ index)
    (hend : index + 2 ^ bits ≤ leaves.length) :
    v2.fold_level sha ((leaves.drop index).take (2 ^ bits)) = layer_node sha leaves bits (index / 2 ^ bits) := by
  have hlength : ((leaves.drop index).take (2 ^ bits)).length = 2 ^ bits := by
    rw [List.length_take, List.length_drop]
    omega
  rw [fold_level_eq_layer_node hlength]
  refine tree_congr _ fun i hi => ?_
  rw [Nat.div_mul_cancel hdvd, Nat.zero_mul, Nat.zero_add]
  simp only [List.getD_eq_getElem?_getD, List.getElem?_take_of_lt hi, List.getElem?_drop]

/-- A response proves its window: folding the window to its root and the rest of the hashes into it ends in the node of
    the tree that the requested proof reaches, the pieces root if that is as high as the tree. -/
theorem v2_hash_response_proves {torrent : TorrentMeta} {pieces_root : V2InfoHash}
    {base_layer index length proof_layers : UInt32} {message : Message}
    (h : v2_hash_response sha torrent pieces_root base_layer index length proof_layers = some message) :
    ∃ metadata layer hashes, torrent.v2 = some metadata ∧ layer ∈ metadata.piece_layers ∧
      layer.pieces_root = pieces_root ∧ message = .Hashes pieces_root base_layer index length proof_layers hashes ∧
      let leaves := padded_layer sha torrent.piece_length layer.hashes
      let tree_height := Nat.clog 2 layer.hashes.length
      let level := max (Nat.log 2 length.toNat) (min proof_layers.toNat tree_height)
      index.toNat + length.toNat ≤ leaves.length ∧
      hashes.take length.toNat = (leaves.drop index.toNat).take length.toNat ∧
      climb (v2.v2_hash_pair sha) (index.toNat / length.toNat)
          (v2.fold_level sha (hashes.take length.toNat)) (hashes.drop length.toNat) =
        layer_node sha leaves level (index.toNat / 2 ^ level) ∧
      (tree_height ≤ proof_layers.toNat → layer_node sha leaves level (index.toNat / 2 ^ level) = pieces_root) := by
  obtain ⟨metadata, layer, bits, hashes, hv2, hlayer, hpieces_root, hroot, hbits, hdvd, hend, hmessage, rfl⟩ :=
    v2_hash_response_eq_some h
  refine ⟨metadata, layer, _, hv2, hlayer, hpieces_root, hmessage, ?_⟩
  intro leaves tree_height level
  have hsize : leaves.length = 2 ^ tree_height := length_padded_layer sha _ _
  have hend : index.toNat + length.toNat ≤ 2 ^ tree_height := hend
  have hlog : Nat.log 2 length.toNat = bits := by rw [hbits, Nat.log_pow Nat.one_lt_two]
  have hlevel : level = bits + (min proof_layers.toNat tree_height - bits) := by
    show max (Nat.log 2 length.toNat) _ = _
    rw [hlog]
    omega
  have hwindow : ((leaves.drop index.toNat).take length.toNat).length = length.toNat := by
    rw [List.length_take, List.length_drop]
    omega
  refine ⟨by omega, List.take_left' hwindow, ?_, fun hproof => ?_⟩
  · rw [List.take_left' hwindow, List.drop_left' hwindow, hbits, fold_window (hbits ▸ hdvd) (by omega), hlevel]
    exact climb_siblings (v2.v2_hash_pair sha) _ index.toNat bits _
  · have hlow : bits ≤ tree_height := by
      rw [← Nat.pow_le_pow_iff_right Nat.one_lt_two, ← hbits]
      omega
    have hpos : 0 < length.toNat := hbits ▸ Nat.two_pow_pos bits
    rw [show level = tree_height by omega, Nat.div_eq_of_lt (by omega), ← fold_level_eq_layer_node hsize]
    rw [v2.fold_level, (reduce_padded_layer hroot).2, List.headD_cons]

end

/-- A file of three pieces whose hashes repeat one byte each. -/
def three_pieces : TorrentMeta :=
  { one_piece with
    identity := .V2 V2InfoHash.ZERO
    piece_length := 16384
    pieces := []
    files := [⟨["t"], 40000, some ⟨Vector.replicate 32 97⟩⟩]
    total_length := 40000
    v2 := some ⟨2, [⟨["t"], 40000, some ⟨Vector.replicate 32 97⟩⟩],
      [⟨⟨Vector.replicate 32 97⟩,
        [⟨Vector.replicate 32 97⟩, ⟨Vector.replicate 32 98⟩, ⟨Vector.replicate 32 99⟩]⟩], true⟩ }

/-- The last piece, padded to a pair, with the proof up to the root. -/
theorem v2_hash_response_proves_padded :
    ∃ hashes, v2_hash_response Sha.leading three_pieces ⟨Vector.replicate 32 97⟩ 0 2 2 2 =
        some (.Hashes ⟨Vector.replicate 32 97⟩ 0 2 2 2 hashes) ∧
      climb (v2.v2_hash_pair Sha.leading) 1 (v2.fold_level Sha.leading (hashes.take 2)) (hashes.drop 2) =
        ⟨Vector.replicate 32 97⟩ := by
  have hresponse : v2_hash_response Sha.leading three_pieces ⟨Vector.replicate 32 97⟩ 0 2 2 2 =
      some (.Hashes ⟨Vector.replicate 32 97⟩ 0 2 2 2
        [⟨Vector.replicate 32 99⟩, V2InfoHash.ZERO, ⟨Vector.replicate 32 97⟩]) := by decide +kernel
  obtain ⟨metadata, layer, hashes, hv2, hlayer, -, hmessage, -, -, hclimb, hroot⟩ :=
    v2_hash_response_proves hresponse
  obtain rfl : three_pieces.v2.get rfl = metadata := by rw [Option.get_of_eq_some rfl hv2]
  have hheight : Nat.clog 2 layer.hashes.length ≤ 2 := by
    rw [List.mem_singleton.mp hlayer]
    decide +kernel
  exact ⟨hashes, hmessage ▸ hresponse, hclimb.trans (hroot hheight)⟩

end swarmotter.seeder

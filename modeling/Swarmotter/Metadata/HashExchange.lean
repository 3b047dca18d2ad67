import Swarmotter.Metadata.Resolve
import Swarmotter.Seeder.HashResponse

open swarmotter.meta swarmotter.peer swarmotter.seeder

namespace swarmotter.metadata

/-- The loop of `read_piece_layer_response`, over the reads that begin before its deadline. -/
def await_hashes (pieces_root : V2InfoHash) (base_layer index length proof_layers : UInt32) :
    List Read → Result (Vec V2InfoHash)
  | [] => .error (.Internal "metadata peer timed out during BEP 52 piece-layer exchange")
  | .Closed :: _ => .error (.Internal "metadata peer closed during BEP 52 piece-layer exchange")
  | .Failed error :: _ => .error error
  | .Elapsed :: rest => await_hashes pieces_root base_layer index length proof_layers rest
  | .Message (.Hashes response_root response_base_layer response_index response_length response_proof_layers
      hashes) :: _ => do
    let _ ← reject_if (response_root ≠ pieces_root ∨ response_base_layer ≠ base_layer ∨ response_index ≠ index ∨
        response_length ≠ length ∨ response_proof_layers ≠ proof_layers)
      (.MalformedTorrent "metadata peer returned a mismatched BEP 52 hash response")
    pure hashes
  | .Message (.HashReject response_root response_base_layer response_index response_length
      response_proof_layers) :: _ =>
    if response_root = pieces_root ∧ response_base_layer = base_layer ∧ response_index = index ∧
        response_length = length ∧ response_proof_layers = proof_layers then
      .error (.Internal "metadata peer rejected a required BEP 52 piece-layer request")
    else .error (.MalformedTorrent "metadata peer returned a mismatched BEP 52 hash rejection")
  | .Message _ :: rest => await_hashes pieces_root base_layer index length proof_layers rest

def read_piece_layer_response (request : Message) (reads : List Read) : Result (Vec V2InfoHash) :=
  match request with
  | .HashRequest pieces_root base_layer index length proof_layers =>
    await_hashes pieces_root base_layer index length proof_layers reads
  | _ => .error (.Internal "piece-layer response requested for a non-hash message")

/-- The message that carries a request, with the integers of the wire. -/
def HashRequest.message (request : HashRequest) : Message :=
  .HashRequest request.pieces_root (UInt32.ofNat request.base_layer) (UInt32.ofNat request.index)
    (UInt32.ofNat request.length) (UInt32.ofNat request.proof_layers)

/-- What a seeder of `torrent` sends back for the frame of a hash request. It leaves the session when it
    cannot read the frame. -/
def seeder_reads (sha : Sha) (torrent : TorrentMeta) (frame : Bytes) : List Read :=
  match peer.Message.decode_frame frame with
  | .ok (.HashRequest pieces_root base_layer index length proof_layers) =>
    [.of_frame (answer_hash_request sha torrent pieces_root base_layer index length proof_layers).encode]
  | .ok _ => []
  | .error _ => [.Closed]

/-- A peer that answers each hash request by `v2_hash_response` of `torrent`, after what else it sends. -/
def seeder_peer (sha : Sha) (torrent : TorrentMeta) (chatter : HashRequest → List Read) : Peer := fun request =>
  read_piece_layer_response request.message (chatter request ++ seeder_reads sha torrent request.message.encode)

/-- A read that the loop passes over. -/
def Idle : Read → Prop
  | .Message (.Hashes ..) | .Message (.HashReject ..) | .Closed | .Failed _ => False
  | .Message _ | .Elapsed => True

section
variable {sha : Sha} {torrent : TorrentMeta} {v2 : V2TorrentMeta} {layer : V2PieceLayer}
  {chatter : HashRequest → List Read} {pieces_root : V2InfoHash} {base_layer index length proof_layers : UInt32}

theorem await_hashes_idle {idle : List Read} (hidle : ∀ read ∈ idle, Idle read) (reads : List Read) :
    await_hashes pieces_root base_layer index length proof_layers (idle ++ reads) =
      await_hashes pieces_root base_layer index length proof_layers reads := by
  induction idle with
  | nil => rfl
  | cons read rest ih =>
    have hread := hidle read List.mem_cons_self
    rw [← ih fun read hread => hidle read (List.mem_cons_of_mem _ hread)]
    cases read with
    | Message message => cases message <;> first | rfl | exact hread.elim
    | Closed | Failed => exact hread.elim
    | Elapsed => rfl

/-- A hash request with a range that the reader accepts reaches the other side as it is. -/
theorem hash_request_valid (pieces_root : V2InfoHash) (base_layer proof_layers : UInt32)
    (h : validate_v2_hash_request index length = .ok ()) :
    (Message.HashRequest pieces_root base_layer index length proof_layers).Valid where
  fits := by
    rw [Message.encode_eq, List.length_append, length_to_be_bytes, Message.body, length_v2_hash_message_payload]
    decide
  hash_range := h
  unknown_id := by rintro id payload ⟨⟩

/-- So does a response, unless it is longer than a message may be. -/
theorem hashes_valid (pieces_root : V2InfoHash) (base_layer proof_layers : UInt32)
    (h : validate_v2_hash_request index length = .ok ()) {hashes : Vec V2InfoHash} (hcount : hashes.length ≤ 1024) :
    (Message.Hashes pieces_root base_layer index length proof_layers hashes).Valid where
  fits := by
    have hmax : MAX_MESSAGE_LEN = 4194304 := rfl
    rw [Message.encode_eq, List.length_append, length_to_be_bytes, Message.body, v2_hash_message_payload,
      List.length_cons, List.length_append, length_hash_header, length_flatMap_hashes]
    omega
  hash_range := h
  unknown_id := by rintro id payload ⟨⟩

/-- A response of the seeder to a request is what the client reads for it. -/
theorem seeder_peer_of_response {request : HashRequest} {hashes : Vec V2InfoHash}
    (hidle : ∀ read ∈ chatter request, Idle read)
    (hrange : validate_v2_hash_request (UInt32.ofNat request.index) (UInt32.ofNat request.length) = .ok ())
    (hresponse : v2_hash_response sha torrent request.pieces_root (UInt32.ofNat request.base_layer)
        (UInt32.ofNat request.index) (UInt32.ofNat request.length) (UInt32.ofNat request.proof_layers) =
      some (.Hashes request.pieces_root (UInt32.ofNat request.base_layer) (UInt32.ofNat request.index)
        (UInt32.ofNat request.length) (UInt32.ofNat request.proof_layers) hashes))
    (hcount : hashes.length ≤ 1024) : seeder_peer sha torrent chatter request = .ok hashes := by
  have hsent := Message.decode_frame_of_valid (hash_request_valid request.pieces_root
    (UInt32.ofNat request.base_layer) (UInt32.ofNat request.proof_layers) hrange)
  have hreceived := Message.decode_frame_of_valid (hashes_valid request.pieces_root
    (UInt32.ofNat request.base_layer) (UInt32.ofNat request.proof_layers) hrange hcount)
  simp only [seeder_peer, read_piece_layer_response, HashRequest.message]
  rw [await_hashes_idle hidle]
  simp only [seeder_reads, hsent, answer_hash_request, hresponse, Option.getD_some, Read.of_frame, hreceived,
    await_hashes, ne_eq, not_true_eq_false, or_self, reject_if, if_false, bind_ok, pure_eq_ok]

/-- A seeder with verified metadata has every layer that is not too long. -/
theorem seeder_peer_serves (hv2 : torrent.v2 = some v2) (hverified : v2.piece_layers_verified = true)
    (hidle : ∀ request, ∀ read ∈ chatter request, Idle read)
    (hfind : v2.piece_layers.find? (fun other => other.pieces_root = layer.pieces_root) = some layer)
    (hroot : v2_piece_layer_root sha layer.hashes torrent.piece_length = .ok layer.pieces_root)
    (htwo : 2 ≤ layer.hashes.length) (hshort : layer.hashes.length ≤ MAX_TORRENT_PIECES) :
    Serves (seeder_peer sha torrent chatter) torrent.piece_length layer := by
  intro index hindex hdvd
  set count := layer.hashes.length with hcount
  set depth := Nat.clog 2 count with hdepth
  have hpositive : 1 ≤ depth := Nat.clog_pos Nat.one_lt_two htwo
  have hbound : depth ≤ 20 := Nat.clog_le_of_le_pow (hshort.trans (by decide))
  have hwidth : layer_width count = 2 ^ depth := rfl
  have hlarge : 2 ^ depth ≤ 2 ^ 20 := Nat.pow_le_pow_right (by decide) hbound
  have hrequest : request_width count = 2 ^ min depth 9 := request_width_eq count
  have hnine : 2 ^ min depth 9 ≤ 2 ^ 9 := Nat.pow_le_pow_right (by decide) (Nat.min_le_right _ _)
  have hone : 2 ^ 1 ≤ 2 ^ min depth 9 := Nat.pow_le_pow_right (by decide) (by omega)
  have hzeros : trailing_zeros (layer_width count) = depth := by rw [hwidth, trailing_zeros_two_pow (by omega)]
  have hbase := trailing_zeros_le (torrent.piece_length / V2_BLOCK_LENGTH)
  rw [hwidth] at hindex
  rw [hrequest] at hdvd
  rw [hzeros, hrequest, trailing_zeros_two_pow (by omega)]
  have hsize : UInt32.size = 2 ^ 32 := rfl
  have hindex_nat : (UInt32.ofNat index).toNat = index := UInt32.toNat_ofNat_of_lt' (by omega)
  have hlength_nat : (UInt32.ofNat (2 ^ min depth 9)).toNat = 2 ^ min depth 9 := UInt32.toNat_ofNat_of_lt' (by omega)
  obtain ⟨hashes, hresponse, hlength, hwindow⟩ := v2_hash_response_of_aligned
    (UInt32.ofNat (trailing_zeros (torrent.piece_length / V2_BLOCK_LENGTH))) (UInt32.ofNat index)
    (UInt32.ofNat (2 ^ min depth 9)) (UInt32.ofNat depth) hv2 hverified hfind hroot
    (UInt32.toNat_ofNat_of_lt' (by omega)) hlength_nat (by omega) (Nat.min_le_left _ _)
    (by rwa [hlength_nat, hindex_nat]) (by rwa [hindex_nat]) (UInt32.toNat_ofNat_of_lt' (by omega))
  rw [hindex_nat] at hwindow
  have hrange : validate_v2_hash_request (UInt32.ofNat index) (UInt32.ofNat (2 ^ min depth 9)) = .ok () := by
    rw [validate_v2_hash_request, reject_if_eq_ok_iff, hlength_nat, hindex_nat,
      is_power_of_two_iff.mpr ⟨min depth 9, rfl⟩]
    simp only [hdvd, Bool.true_eq_false, not_true_eq_false, or_false]
    omega
  have hfew : hashes.length ≤ 1024 := by
    rw [hlength, ← hcount, ← hdepth]
    omega
  exact ⟨hashes, seeder_peer_of_response (hidle _) hrange hresponse hfew, hlength, hwindow⟩

/-- The layers of a verified torrent, fetched from a seeder of the same torrent, are the layers of the torrent.
    No request of a window is refused, whatever the number of hashes, and whatever the seeder sends
    in between. -/
theorem fetch_from_seeder_exact {identity : V2InfoHash} (hv2 : torrent.v2 = some v2)
    (hverified : v2.piece_layers_verified = true) (hvalid : torrent.validate sha = .ok ())
    (hidentity : torrent.identity.v2_info_hash = some identity)
    (hidle : ∀ request, ∀ read ∈ chatter request, Idle read) :
    (∀ file ∈ v2.files, ∀ root, NeedsLayer torrent.piece_length file root →
      div_ceil file.length torrent.piece_length ≤ MAX_TORRENT_PIECES →
      ∃ layer ∈ v2.piece_layers, layer.pieces_root = root ∧
        Serves (seeder_peer sha torrent chatter) torrent.piece_length layer ∧
        fetch_layer sha (seeder_peer sha torrent chatter) torrent.piece_length
          (root, div_ceil file.length torrent.piece_length) = .ok layer) ∧
    ∀ info_bytes,
      inspect_bep9_v2_info sha info_bytes = .ok (some ⟨identity, torrent.piece_length, v2.files⟩) →
      (∀ file ∈ v2.files, torrent.piece_length < file.length →
        div_ceil file.length torrent.piece_length ≤ MAX_TORRENT_PIECES) →
      ∃ fetched, fetch_v2_piece_layers sha (seeder_peer sha torrent chatter) info_bytes torrent.identity =
        .ok fetched ∧ fetched.Perm v2.piece_layers := by
  obtain ⟨v2', hv2', hmetadata⟩ := validate_v2_metadata_of_validate hvalid hidentity
  obtain rfl : v2 = v2' := Option.some.inj (hv2.symm.trans hv2')
  obtain ⟨rooted, hfiles, -, hlayers⟩ := validate_v2_metadata_eq_ok_iff.mp hmetadata
  have hchecked := hlayers hverified
  have hpositive : 0 < torrent.piece_length := by
    have hmin := hfiles.piece_length
    simp only [validate_v2_piece_length, reject_if_eq_ok_iff, not_or, Nat.not_lt] at hmin
    exact Nat.lt_of_lt_of_le (by decide) hmin.1
  have hserves : ∀ layer ∈ v2.piece_layers, layer.hashes.length ≤ MAX_TORRENT_PIECES →
      Serves (seeder_peer sha torrent chatter) torrent.piece_length layer := by
    intro layer hlayer hshort
    obtain ⟨htwo, hroot⟩ := hchecked.two_le hfiles.rooted hpositive hlayer
    exact seeder_peer_serves hv2 hverified hidle ((find_layer_eq_some_iff hchecked.nodup).mpr ⟨hlayer, rfl⟩)
      hroot htwo hshort
  obtain ⟨-, hneeded, hneeding⟩ := (layersChecked_iff hfiles.rooted).mp hchecked
  refine ⟨fun file hfile root hneeds hcount => ?_, fun info_bytes hinspect hcounts => ?_⟩
  · obtain ⟨layer, hlayer, rfl, hlength⟩ := hneeded file hfile root hneeds
    obtain ⟨htwo, hroot⟩ := hchecked.two_le hfiles.rooted hpositive hlayer
    rw [← hlength] at hcount ⊢
    have hserve := hserves layer hlayer hcount
    exact ⟨layer, hlayer, rfl, hserve, fetch_layer_of_serves hserve hcount htwo hroot⟩
  · have hshort : ∀ layer ∈ v2.piece_layers, layer.hashes.length ≤ MAX_TORRENT_PIECES := by
      intro layer hlayer
      obtain ⟨⟨file, hfile, hneeds⟩, -⟩ := hneeding layer hlayer
      rw [hchecked.count hfiles.rooted hlayer hfile hneeds]
      exact hcounts file hfile hneeds.1
    obtain ⟨required, fetched, hrequired, hfetched, hnodup, hsame⟩ := fetch_required_of_serves hchecked
      hfiles.rooted hpositive hshort fun layer hlayer => hserves layer hlayer (hshort layer hlayer)
    refine ⟨fetched, ?_, ?_⟩
    · simp [fetch_v2_piece_layers, hinspect, ok_or, hidentity, reject_if, Bep9V2Info.required_piece_layers,
        hrequired, hfetched]
    · rw [List.perm_ext_iff_of_nodup hnodup.of_map hchecked.nodup.of_map]
      exact hsame

end

/-- The torrent of `pure_v2_info`, complete with its layer. -/
def pure_v2_torrent : TorrentMeta where
  info_hash := InfoHash.ZERO
  identity := .V2 (V2InfoHash.from_info_bencoded Sha.leading pure_v2_info)
  name := "x"
  piece_length := 16384
  pieces := []
  files := [⟨["x"], 20000, some pure_v2_layer.pieces_root⟩]
  total_length := 20000
  private_flag := false
  announce := none
  announce_list := []
  webseeds := []
  comment := none
  created_by := none
  creation_date := none
  is_multi_file := false
  v2 := some ⟨2, [⟨["x"], 20000, some pure_v2_layer.pieces_root⟩], [pure_v2_layer], true⟩
  raw_info := some pure_v2_info

/-- A seeder that sends a keepalive before each response. -/
theorem fetch_from_seeder_exact_two_pieces :
    ∃ fetched, fetch_v2_piece_layers Sha.leading
        (seeder_peer Sha.leading pure_v2_torrent fun _ => [.Message .Keepalive]) pure_v2_info
        pure_v2_torrent.identity = .ok fetched ∧
      fetched.Perm [pure_v2_layer] := by
  have hidle : ∀ request : HashRequest, ∀ read ∈ (fun _ => [Read.Message .Keepalive]) request, Idle read := by
    intro request read hread
    obtain rfl := List.mem_singleton.mp hread
    trivial
  have hvalid : pure_v2_torrent.validate Sha.leading = .ok () := by decide +kernel
  have hexact := fetch_from_seeder_exact (rfl : pure_v2_torrent.v2 = some _) rfl hvalid rfl hidle
  exact hexact.2 pure_v2_info (by decide +kernel) (by decide +kernel)

end swarmotter.metadata

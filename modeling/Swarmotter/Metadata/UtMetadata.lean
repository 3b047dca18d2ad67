import Swarmotter.Lib.Duplex
import Swarmotter.Metadata.HashExchange

open swarmotter.meta swarmotter.peer swarmotter.extensions swarmotter.seeder

namespace swarmotter.metadata

def local_metadata_id : UInt8 := 3

/-- Where `fetch_metadata_over_stream` is, from its extension handshake on. -/
inductive Fetch where
  /-- Waiting for the extension handshake of the peer. -/
  | Handshake
  /-- Waiting for a piece, with the pieces before it. -/
  | Piece (remote_id : UInt8) (total pieces piece : Nat) (assembled : Bytes)
  | Assembled (bytes : Bytes)
  | Failed (error : CoreError)

/-- What the client sends before it reads anything. -/
def client_handshake : Message :=
  .Extended EXTENSION_HANDSHAKE_ID
    (encode_extension_handshake [(UT_METADATA_NAME, local_metadata_id)] "SwarmOtter/0.1" none)

/-- The checks of what the extension handshake of the peer says. -/
def advertised (remote_metadata_id : Option UInt8) (metadata_size : Option Nat) : Result (UInt8 × Nat) := do
  let remote_id ← ok_or remote_metadata_id (.Internal "metadata peer does not support ut_metadata")
  let total ← ok_or metadata_size (.MalformedTorrent "metadata peer did not report metadata_size")
  let _ ← reject_if (total > usize.MAX) (.MalformedTorrent "metadata size exceeds platform limit")
  let _ ← reject_if (total = 0) (.MalformedTorrent "metadata size must be greater than zero")
  let _ ← reject_if (total > MAX_TORRENT_METADATA_BYTES)
    (.MalformedTorrent s!"metadata size {total} exceeds maximum {MAX_TORRENT_METADATA_BYTES}")
  pure (remote_id, total)

/-- The bytes with one more piece. -/
def extend_assembled (total piece : Nat) (assembled : Bytes) (message : MetadataMessage) : Result Bytes := do
  let room ← ok_or (checked_sub total assembled.length)
    (.MalformedTorrent "assembled metadata exceeds advertised size")
  let _ ← reject_if (message.data.length > room)
    (.MalformedTorrent s!"metadata piece {piece} data exceeds advertised size {total}")
  match message.total_size with
  | some peer_total => do
    let _ ← reject_if (peer_total ≠ total)
      (.MalformedTorrent s!"metadata total_size {peer_total} does not match advertised {total}")
    pure (assembled ++ message.data)
  | none => pure (assembled ++ message.data)

namespace Fetch

/-- The head of the loop over the pieces, and what follows the loop. -/
def next_piece (remote_id : UInt8) (total pieces piece : Nat) (assembled : Bytes) : Fetch × Vec Message :=
  if piece < pieces then
    if piece ≥ 2 ^ 32 then (.Failed (.MalformedTorrent "metadata piece index exceeds u32 range"), [])
    else (.Piece remote_id total pieces piece assembled,
      [.Extended remote_id (encode_metadata_request (UInt32.ofNat piece))])
  else if assembled.length ≠ total then
    (.Failed (.MalformedTorrent
      s!"assembled metadata length {assembled.length} does not match advertised {total}"), [])
  else (.Assembled assembled, [])

/-- The wait for the extension handshake is over. -/
def begin_pieces (remote_metadata_id : Option UInt8) (metadata_size : Option Nat) : Fetch × Vec Message :=
  match advertised remote_metadata_id metadata_size with
  | .ok (remote_id, total) => next_piece remote_id total (max (metadata_pieces total) 1) 0 []
  | .error error => (.Failed error, [])

/-- The next read, and what is sent after it. -/
def hear (fetch : Fetch) (read : Read) : Fetch × Vec Message :=
  match fetch, read with
  | .Handshake, .Message (.Extended id payload) =>
    if id = EXTENSION_HANDSHAKE_ID then
      match parse_extension_handshake payload with
      | .ok handshake => begin_pieces (handshake.id_for UT_METADATA_NAME) handshake.metadata_size
      | .error _ => begin_pieces none none
    else (fetch, [])
  | .Handshake, .Message _ => (fetch, [])
  | .Handshake, _ => (.Failed (.Internal "metadata peer timed out"), [])
  | .Piece remote_id total pieces piece assembled, .Message (.Extended id payload) =>
    if id ≠ local_metadata_id then (fetch, [])
    else
      match parse_metadata_message payload with
      | .ok message =>
        if message.msg_type = .Data ∧ message.piece.toNat = piece then
          match extend_assembled total piece assembled message with
          | .ok assembled => next_piece remote_id total pieces (piece + 1) assembled
          | .error error => (.Failed error, [])
        else if message.msg_type = .Reject then
          (.Failed (.Internal s!"metadata piece {piece} rejected by peer"), [])
        else (fetch, [])
      | .error _ => (fetch, [])
  | .Piece _ _ _ _ _, .Message _ => (fetch, [])
  | .Piece _ _ _ piece _, _ => (.Failed (.Internal s!"metadata piece {piece} not received"), [])
  | .Assembled _, _ => (fetch, [])
  | .Failed _, _ => (fetch, [])

/-- The client on the next frame. -/
def hear_frame (fetch : Fetch) (frame : Bytes) : Fetch × Vec Bytes :=
  let (next, sent) := fetch.hear (.of_frame frame)
  (next, sent.map Message.encode)

/-! What the client makes of the messages of a seeder. -/

section
variable {total piece : Nat} {assembled data : Bytes}

theorem total_lt (htotal : total ≤ MAX_TORRENT_METADATA_BYTES) : ∀ n ∈ some total, n < 2 ^ 63 := by
  rintro n ⟨⟩
  exact htotal.trans_lt (by decide)

/-- The extension handshake of a peer with metadata starts the loop over the pieces. -/
theorem hear_handshake (id : UInt8) {client_version : String} (hversion : (as_bytes client_version).length ≤ 100)
    (hpos : 0 < total) (htotal : total ≤ MAX_TORRENT_METADATA_BYTES) :
    hear .Handshake (.Message (.Extended EXTENSION_HANDSHAKE_ID
        (encode_extension_handshake [(UT_METADATA_NAME, id)] client_version (some total)))) =
      next_piece id total (max (metadata_pieces total) 1) 0 [] := by
  have hname : (as_bytes UT_METADATA_NAME).length ≤ 100 := by decide
  have hmax : MAX_TORRENT_METADATA_BYTES < 2 ^ 63 := by decide
  have husize : usize.MAX = 2 ^ 64 - 1 := rfl
  have hadvertised : advertised (some id) (some total) = .ok (id, total) := by
    simp only [advertised, ok_or, bind_ok, reject_if, if_neg (show ¬ total > usize.MAX by omega),
      if_neg (show ¬ total = 0 by omega), if_neg (show ¬ total > MAX_TORRENT_METADATA_BYTES by omega), pure_eq_ok]
  simp [hear, parse_single_extension hname hversion (total_lt htotal), ExtensionHandshake.id_for, begin_pieces,
    hadvertised]

/-- A data message for the piece that is waited for, with bytes that fit, is taken. -/
theorem hear_data (remote_id : UInt8) (pieces : Nat) (hpiece : piece < 2 ^ 32)
    (hroom : assembled.length + data.length ≤ total)
    (htotal : total ≤ MAX_TORRENT_METADATA_BYTES) (hdata : data.length ≤ METADATA_PIECE_SIZE) :
    hear (.Piece remote_id total pieces piece assembled)
        (.Message (.Extended local_metadata_id (encode_metadata_data (UInt32.ofNat piece) total data))) =
      next_piece remote_id total pieces (piece + 1) (assembled ++ data) := by
  have hmax : MAX_TORRENT_METADATA_BYTES = 16777216 := rfl
  have hpiece_size : METADATA_PIECE_SIZE = 16384 := rfl
  have hsize := total_lt htotal
  have hlength := length_encode_metadata_dict_le .Data (UInt32.ofNat piece) hsize
  have hparse : parse_metadata_message (encode_metadata_data (UInt32.ofNat piece) total data) =
      .ok ⟨.Data, UInt32.ofNat piece, some total, data⟩ :=
    parse_metadata_message_encode hsize data (by rw [List.length_append]; omega)
  have hindex : (UInt32.ofNat piece).toNat = piece := UInt32.toNat_ofNat_of_lt' hpiece
  have hsub : checked_sub total assembled.length = some (total - assembled.length) :=
    checked_sub_eq_some_iff.mpr ⟨by omega, rfl⟩
  have hextend : extend_assembled total piece assembled ⟨.Data, UInt32.ofNat piece, some total, data⟩ =
      .ok (assembled ++ data) := by
    simp only [extend_assembled, hsub, ok_or, bind_ok, reject_if,
      if_neg (show ¬ data.length > total - assembled.length by omega), ne_eq, not_true_eq_false, if_false, pure_eq_ok]
  simp only [hear, ne_eq, not_true_eq_false, if_false, hparse, hindex, and_self, if_true, hextend]

theorem hear_frame_encode {fetch next : Fetch} {message : Message} (hvalid : message.Valid) {sent : Vec Message}
    (h : fetch.hear (.Message message) = (next, sent)) :
    fetch.hear_frame message.encode = (next, sent.map Message.encode) := by
  rw [hear_frame, Read.of_frame_encode hvalid]
  simp only [h]

end

end Fetch

/-- A client and a seeder with the frames under way between them. -/
abbrev Exchange := duplex.Net Fetch (Option Session) Bytes

/-- Both sides have sent what they send before they read. -/
def Exchange.start (session : Session) : Exchange :=
  duplex.Net.start .Handshake (some { session with remote_metadata_id := none }) [client_handshake.encode]
    (session.greeting.map Message.encode)

/-- Client and seeder take the frames of their queues, in any order. -/
abbrev Exchange.Run (sha : Sha) (session : Session) : Nat → Exchange → Prop :=
  duplex.Run Fetch.hear_frame (Session.hear_frame sha) (Exchange.start session)

/-- The requests for the first `count` pieces. -/
def requests (count : Nat) : Vec Message :=
  (List.range count).map fun piece =>
    .Extended LOCAL_UT_METADATA_ID (encode_metadata_request (UInt32.ofNat piece))

/-- A piece of the metadata. -/
def piece_of (info : Bytes) (piece : Nat) : Bytes :=
  (info.drop (piece * METADATA_PIECE_SIZE)).take METADATA_PIECE_SIZE

/-- The data messages with the first `count` pieces. -/
def responses (info : Bytes) (count : Nat) : Vec Message :=
  (List.range count).map fun piece =>
    .Extended local_metadata_id (encode_metadata_data (UInt32.ofNat piece) info.length (piece_of info piece))

/-- The session after the extension handshake of the client, or before it. -/
def registered (session : Session) (known : Bool) : Session :=
  { session with remote_metadata_id := if known then some local_metadata_id else none }

/-- The extension handshake of the client, as long as the seeder has not read it. -/
def unread (known : Bool) : Vec Bytes := if known then [] else [client_handshake.encode]

/-- The states of an exchange. Up to a piece `k` the client has asked for every piece and the seeder has sent
    each piece that it was asked for. -/
inductive Stage (session : Session) (info : Bytes) : Exchange → Prop where
  | greeting (known seen : Bool) :
    Stage session info ⟨.Handshake, some (registered session known),
      (session.greeting.drop seen.toNat).map Message.encode, unread known,
      [client_handshake.encode], session.greeting.map Message.encode⟩
  | asked (known : Bool) (piece : Nat) (hpiece : piece < metadata_pieces info.length) :
    Stage session info ⟨.Piece LOCAL_UT_METADATA_ID info.length (metadata_pieces info.length) piece
        (info.take (piece * METADATA_PIECE_SIZE)),
      some (registered session known), [],
      unread known ++ [(Message.Extended LOCAL_UT_METADATA_ID
        (encode_metadata_request (UInt32.ofNat piece))).encode],
      (client_handshake :: requests (piece + 1)).map Message.encode,
      (session.greeting ++ responses info piece).map Message.encode⟩
  | answered (piece : Nat) (hpiece : piece < metadata_pieces info.length) :
    Stage session info ⟨.Piece LOCAL_UT_METADATA_ID info.length (metadata_pieces info.length) piece
        (info.take (piece * METADATA_PIECE_SIZE)),
      some (registered session true),
      [(Message.Extended local_metadata_id
        (encode_metadata_data (UInt32.ofNat piece) info.length (piece_of info piece))).encode], [],
      (client_handshake :: requests (piece + 1)).map Message.encode,
      (session.greeting ++ responses info (piece + 1)).map Message.encode⟩
  | assembled :
    Stage session info ⟨.Assembled info, some (registered session true), [], [],
      (client_handshake :: requests (metadata_pieces info.length)).map Message.encode,
      (session.greeting ++ responses info (metadata_pieces info.length)).map Message.encode⟩

/-- The request for a piece. -/
abbrev request (piece : Nat) : Message := .Extended LOCAL_UT_METADATA_ID (encode_metadata_request (UInt32.ofNat piece))

/-- The data message with a piece. -/
abbrev response (info : Bytes) (piece : Nat) : Message :=
  .Extended local_metadata_id (encode_metadata_data (UInt32.ofNat piece) info.length (piece_of info piece))

/-- The client with the pieces before a piece. -/
abbrev fetched (info : Bytes) (piece : Nat) : Fetch :=
  .Piece LOCAL_UT_METADATA_ID info.length (metadata_pieces info.length) piece (info.take (piece * METADATA_PIECE_SIZE))

section
variable {sha : Sha} {session : Session} {info : Bytes} {piece : Nat} {net next : Exchange}

theorem lt_metadata_pieces_iff : piece < metadata_pieces info.length ↔ piece * METADATA_PIECE_SIZE < info.length :=
  slices.lt_div_ceil_iff (by decide)

theorem metadata_pieces_le (hmax : info.length ≤ MAX_TORRENT_METADATA_BYTES) : metadata_pieces info.length ≤ 1024 :=
  (slices.div_ceil_le_iff (by decide)).mpr (hmax.trans (by decide))

theorem requests_succ (count : Nat) : requests (count + 1) = requests count ++ [request count] := by
  rw [requests, List.range_succ, List.map_append, List.map_singleton, requests]

theorem responses_succ (info : Bytes) (count : Nat) :
    responses info (count + 1) = responses info count ++ [response info count] := by
  rw [responses, List.range_succ, List.map_append, List.map_singleton, responses]

theorem take_succ_piece (info : Bytes) (piece : Nat) :
    info.take (piece * METADATA_PIECE_SIZE) ++ piece_of info piece = info.take ((piece + 1) * METADATA_PIECE_SIZE) := by
  rw [piece_of, Nat.succ_mul, List.take_add]

/-! Every frame of an exchange can be read. -/

theorem handshake_valid (id : UInt8) {client_version : String} (hversion : (as_bytes client_version).length ≤ 100)
    {metadata_size : Option Nat} (hsize : ∀ n ∈ metadata_size, n < 2 ^ 63) :
    (Message.Extended EXTENSION_HANDSHAKE_ID
      (encode_extension_handshake [(UT_METADATA_NAME, id)] client_version metadata_size)).Valid := by
  have hlength := length_encode_single_le UT_METADATA_NAME id client_version hsize
  have hname : (write_bytes (as_bytes UT_METADATA_NAME)).length = 14 := by decide
  have hdigits := decimal.length_render_le (by decide : 0 < 3)
    (show (as_bytes client_version).length < 10 ^ 3 by omega)
  have hlimit : MAX_MESSAGE_LEN = 4194304 := rfl
  rw [length_write_bytes (as_bytes client_version)] at hlength
  exact Message.extended_valid _ (by omega)

theorem client_handshake_valid : client_handshake.Valid := handshake_valid _ (by decide) (by simp)

theorem request_valid (id : UInt8) (piece : UInt32) : (Message.Extended id (encode_metadata_request piece)).Valid := by
  have hlength := length_encode_metadata_dict_le .Request piece (show ∀ n ∈ none, n < 2 ^ 63 by simp)
  exact Message.extended_valid _ (Nat.le_trans (Nat.add_le_add_right hlength 2) (by decide))

theorem data_valid (id : UInt8) (piece : UInt32) {total : Nat} (htotal : total ≤ MAX_TORRENT_METADATA_BYTES)
    {data : Bytes} (hdata : data.length ≤ METADATA_PIECE_SIZE) :
    (Message.Extended id (encode_metadata_data piece total data)).Valid := by
  have hmax : MAX_TORRENT_METADATA_BYTES = 16777216 := rfl
  have hpiece : METADATA_PIECE_SIZE = 16384 := rfl
  have hlimit : MAX_MESSAGE_LEN = 4194304 := rfl
  have hlength := length_encode_metadata_dict_le .Data piece (Fetch.total_lt htotal)
  apply Message.extended_valid
  rw [encode_metadata_data, List.length_append]
  omega

/-! What each frame brings about. -/

theorem metadata_info_eq (hraw : session.torrent.raw_info = some info) (hne : info ≠ [])
    (hmax : info.length ≤ MAX_TORRENT_METADATA_BYTES) : session.metadata_info = some info := by
  rw [Session.metadata_info, hraw, Option.filter_some_pos (by simpa using ⟨hne, hmax⟩)]

/-- The seeder learns the id of the client. -/
theorem hear_client_handshake (known : Bool) :
    Session.hear_frame sha (some (registered session known)) client_handshake.encode =
      (some (registered session true), []) :=
  Session.hear_frame_encode client_handshake_valid (Session.hear_handshake _ (by decide) (by simp))

/-- The seeder answers a request for a piece with the piece. -/
theorem hear_piece_request (hinfo : session.metadata_info = some info)
    (hmax : info.length ≤ MAX_TORRENT_METADATA_BYTES) (hpiece : piece < metadata_pieces info.length) :
    Session.hear_frame sha (some (registered session true)) (request piece).encode =
      (some (registered session true), [(response info piece).encode]) := by
  have hindex : (UInt32.ofNat piece).toNat = piece :=
    UInt32.toNat_ofNat_of_lt' (Nat.lt_of_lt_of_le (hpiece.trans_le (metadata_pieces_le hmax)) (by decide))
  have hstart : (UInt32.ofNat piece).toNat * METADATA_PIECE_SIZE < info.length := by
    rw [hindex]
    exact lt_metadata_pieces_iff.mp hpiece
  have hanswer :=
    Session.hear_request sha (show (registered session true).metadata_info = some info from hinfo) rfl hstart
  rw [hindex] at hanswer
  exact Session.hear_frame_encode (request_valid _ _) hanswer

/-- The client asks for the next piece, or has all bytes. -/
theorem next_piece_of_take (hmax : info.length ≤ MAX_TORRENT_METADATA_BYTES) (piece : Nat) :
    Fetch.next_piece LOCAL_UT_METADATA_ID info.length (metadata_pieces info.length) piece
        (info.take (piece * METADATA_PIECE_SIZE)) =
      if piece < metadata_pieces info.length then (fetched info piece, [request piece]) else (.Assembled info, []) := by
  rw [Fetch.next_piece]
  split
  · rename_i hpiece
    have hbound := metadata_pieces_le hmax
    rw [if_neg (by omega)]
  · rename_i hpiece
    have hall : info.take (piece * METADATA_PIECE_SIZE) = info := by
      apply List.take_of_length_le
      rw [lt_metadata_pieces_iff] at hpiece
      omega
    rw [hall, if_neg (by simp)]

/-- The extension handshake of the seeder starts the requests. -/
theorem hear_seeder_handshake (hpos : 0 < info.length) (hmax : info.length ≤ MAX_TORRENT_METADATA_BYTES) :
    Fetch.Handshake.hear_frame (Session.handshake info.length).encode =
      (.Piece LOCAL_UT_METADATA_ID info.length (metadata_pieces info.length) 0 [],
        (requests 1).map Message.encode) := by
  have hpieces : 0 < metadata_pieces info.length := lt_metadata_pieces_iff.mpr (by rwa [Nat.zero_mul])
  have hhear := Fetch.hear_handshake LOCAL_UT_METADATA_ID
    (by decide : (as_bytes "SwarmOtter/2.0").length ≤ 100) hpos hmax
  have hnext := next_piece_of_take hmax 0
  rw [if_pos hpieces, Nat.zero_mul, List.take_zero] at hnext
  rw [Nat.max_eq_left hpieces, hnext] at hhear
  exact Fetch.hear_frame_encode (handshake_valid _ (by decide) (Fetch.total_lt hmax)) hhear

/-- The bitfield tells the client nothing. -/
theorem hear_bitfield (session : Session) :
    Fetch.Handshake.hear_frame (Message.Bitfield session.bits).encode = (.Handshake, []) := by
  have hbits := session.bits_le
  have hlimit : div_ceil MAX_TORRENT_PIECES 8 + 1 ≤ MAX_MESSAGE_LEN := by decide
  exact Fetch.hear_frame_encode (Message.bitfield_valid (by omega)) rfl

/-- A piece is appended to the pieces before it. -/
theorem hear_piece (hmax : info.length ≤ MAX_TORRENT_METADATA_BYTES) (hpiece : piece < metadata_pieces info.length) :
    (fetched info piece).hear_frame (response info piece).encode =
      if piece + 1 < metadata_pieces info.length then (fetched info (piece + 1), [(request (piece + 1)).encode])
      else (.Assembled info, []) := by
  have hsmall := hpiece.trans_le (metadata_pieces_le hmax)
  have hdata : (piece_of info piece).length ≤ METADATA_PIECE_SIZE := List.length_take_le _ _
  have hroom : (info.take (piece * METADATA_PIECE_SIZE)).length + (piece_of info piece).length ≤ info.length := by
    rw [← List.length_append, take_succ_piece]
    exact List.length_take_le' _ _
  have hhear := Fetch.hear_data LOCAL_UT_METADATA_ID (metadata_pieces info.length)
    (show piece < 2 ^ 32 by omega) hroom hmax hdata
  rw [take_succ_piece, next_piece_of_take hmax] at hhear
  split at hhear
  · rename_i hmore
    rw [if_pos hmore]
    exact Fetch.hear_frame_encode (data_valid _ _ hmax hdata) hhear
  · rename_i hlast
    rw [if_neg hlast]
    exact Fetch.hear_frame_encode (data_valid _ _ hmax hdata) hhear

theorem greeting_eq (hinfo : session.metadata_info = some info) :
    session.greeting = [.Bitfield session.bits, Session.handshake info.length] := by
  rw [Session.greeting, hinfo]

theorem unread_eq_cons {known : Bool} {frame : Bytes} {rest : Vec Bytes} (h : unread known = frame :: rest) :
    frame = client_handshake.encode ∧ rest = unread true := by
  cases known with
  | true => cases h
  | false =>
    cases h
    exact ⟨rfl, rfl⟩

/-- What one of the sides does in an exchange leaves it an exchange. -/
theorem Stage.step (hinfo : session.metadata_info = some info) (hpos : 0 < info.length)
    (hmax : info.length ≤ MAX_TORRENT_METADATA_BYTES) (h : Stage session info net)
    (hstep : duplex.Step Fetch.hear_frame (Session.hear_frame sha) net next) : Stage session info next := by
  cases h with
  | greeting known seen =>
    cases hstep with
    | left hnext =>
      rw [greeting_eq hinfo] at hnext
      cases seen with
      | false =>
        obtain ⟨rfl, rfl⟩ := List.cons.inj hnext
        have hstage : Stage session info _ := .greeting known true
        simp only [hear_bitfield, List.append_nil]
        rw [greeting_eq hinfo] at hstage ⊢
        exact hstage
      | true =>
        obtain ⟨rfl, rfl⟩ := List.cons.inj hnext
        have hpieces : 0 < metadata_pieces info.length := lt_metadata_pieces_iff.mpr (by rwa [Nat.zero_mul])
        have hstage : Stage session info _ := .asked known 0 hpieces
        rw [Nat.zero_mul, List.take_zero] at hstage
        simp only [hear_seeder_handshake hpos hmax]
        rw [responses, List.range_zero, List.map_nil, List.append_nil] at hstage
        exact hstage
    | right hnext =>
      obtain ⟨rfl, rfl⟩ := unread_eq_cons hnext
      simp only [hear_client_handshake, List.append_nil]
      exact .greeting true seen
  | asked known piece hpiece =>
    cases hstep with
    | left hnext => cases hnext
    | right hnext =>
      cases known with
      | false =>
        obtain ⟨rfl, rfl⟩ := List.cons.inj hnext
        simp only [hear_client_handshake, List.append_nil]
        exact .asked true piece hpiece
      | true =>
        obtain ⟨rfl, rfl⟩ := List.cons.inj hnext
        have hstage : Stage session info _ := .answered piece hpiece
        rw [responses_succ, ← List.append_assoc, List.map_append] at hstage
        simp only [hear_piece_request hinfo hmax hpiece, List.nil_append]
        exact hstage
  | answered piece hpiece =>
    cases hstep with
    | left hnext =>
      obtain ⟨rfl, rfl⟩ := List.cons.inj hnext
      simp only [hear_piece hmax hpiece]
      split
      · rename_i hmore
        have hstage : Stage session info _ := .asked true (piece + 1) hmore
        rw [requests_succ (piece + 1), ← List.cons_append, List.map_append] at hstage
        exact hstage
      · rename_i hlast
        obtain hall : piece + 1 = metadata_pieces info.length := by omega
        have hstage : Stage session info _ := .assembled
        rw [← hall] at hstage
        simp only [List.append_nil]
        exact hstage
    | right hnext => cases hnext
  | assembled =>
    cases hstep with
    | left hnext => cases hnext
    | right hnext => cases hnext

theorem map_range_le {α : Type} (f : Nat → α) {count total : Nat} (h : count ≤ total) :
    (List.range count).map f <+: (List.range total).map f := by
  rw [show List.range count = (List.range total).take count by rw [List.take_range, Nat.min_eq_left h]]
  exact (List.take_prefix _ _).map f

/-- The client sends requests only, each once and in order. -/
theorem Stage.left_sent (h : Stage session info net) :
    net.left_sent <+: (client_handshake :: requests (metadata_pieces info.length)).map Message.encode := by
  cases h with
  | greeting known seen => exact ⟨_, rfl⟩
  | asked known piece hpiece => exact (List.prefix_cons_inj _ |>.mpr (map_range_le _ hpiece)).map _
  | answered piece hpiece => exact (List.prefix_cons_inj _ |>.mpr (map_range_le _ hpiece)).map _
  | assembled => exact List.prefix_rfl

/-- The seeder sends data only, each piece once and in order. -/
theorem Stage.right_sent (h : Stage session info net) :
    net.right_sent <+:
      (session.greeting ++ responses info (metadata_pieces info.length)).map Message.encode := by
  cases h with
  | greeting known seen => exact (List.prefix_append _ _).map _
  | asked known piece hpiece =>
    exact (List.prefix_append_right_inj _ |>.mpr (map_range_le _ hpiece.le)).map _
  | answered piece hpiece => exact (List.prefix_append_right_inj _ |>.mpr (map_range_le _ hpiece)).map _
  | assembled => exact List.prefix_rfl

theorem Exchange.Run.stage {n : Nat} (hinfo : session.metadata_info = some info) (hpos : 0 < info.length)
    (hmax : info.length ≤ MAX_TORRENT_METADATA_BYTES) (hrun : Exchange.Run sha session n net) :
    Stage session info net :=
  duplex.Run.invariant hrun (.greeting false false) fun _ _ h hstep => h.step hinfo hpos hmax hstep

/-- A client and a seeder that holds the metadata, in any order of their turns: the client asks for each piece
    once and in order, each request is answered with the piece, the client never fails, and when nothing is
    under way any more, which happens after a bounded number of turns, it has exactly the metadata. -/
theorem metadata_exchange_exact {n : Nat} (hraw : session.torrent.raw_info = some info) (hpos : 1 ≤ info.length)
    (hmax : info.length ≤ MAX_TORRENT_METADATA_BYTES) (hrun : Exchange.Run sha session n net) :
    net.left_sent <+: (client_handshake :: requests (metadata_pieces info.length)).map Message.encode ∧
    net.right_sent <+: (session.greeting ++ responses info (metadata_pieces info.length)).map Message.encode ∧
    (∀ error, net.left ≠ .Failed error) ∧
    (∀ bytes, net.left = .Assembled bytes → bytes = info) ∧
    n ≤ 2 * metadata_pieces info.length + 3 ∧
    ((∀ next, ¬ duplex.Step Fetch.hear_frame (Session.hear_frame sha) net next) →
      net.left = .Assembled info ∧
      net.left_sent = (client_handshake :: requests (metadata_pieces info.length)).map Message.encode) := by
  have hinfo := metadata_info_eq hraw (List.length_pos_iff.mp hpos) hmax
  have hstage := hrun.stage hinfo hpos hmax
  refine ⟨hstage.left_sent, hstage.right_sent, ?_, ?_, ?_, ?_⟩
  · cases hstage <;> rintro error ⟨⟩
  · cases hstage <;> rintro bytes ⟨⟩
    rfl
  · have hcount := hrun.count
    have hleft := hstage.left_sent.length_le
    have hright := hstage.right_sent.length_le
    simp only [List.length_map, List.length_cons, List.length_append, requests, responses, List.length_range,
      greeting_eq hinfo, List.length_nil] at hleft hright
    omega
  · intro hstuck
    obtain ⟨hleft, hright⟩ := duplex.stuck_iff.mp hstuck
    cases hstage with
    | greeting known seen =>
      rw [greeting_eq hinfo] at hleft
      cases seen <;> cases hleft
    | asked known piece hpiece => simp at hright
    | answered piece hpiece => cases hleft
    | assembled => exact ⟨rfl, rfl⟩

end

/-- A seeder of `pure_v2_torrent`. -/
def pure_v2_session : Session where
  torrent := pure_v2_torrent
  bits := [0xC0]
  bits_le := by decide
  serve_payload := fun _ => []
  remote_metadata_id := none

/-- The metadata of `pure_v2_torrent` is fetched from its seeder. -/
theorem metadata_exchange_exact_pure_v2 :
    ∃ n net, Exchange.Run Sha.leading pure_v2_session n net ∧ net.left = .Assembled pure_v2_info := by
  have hraw : pure_v2_session.torrent.raw_info = some pure_v2_info := rfl
  have hpos : 1 ≤ pure_v2_info.length := by decide +kernel
  have hmax : pure_v2_info.length ≤ MAX_TORRENT_METADATA_BYTES := by decide +kernel
  obtain ⟨n, net, hrun, hstuck⟩ := duplex.Run.exists_stuck
    fun n net (hrun : Exchange.Run Sha.leading pure_v2_session n net) =>
      (metadata_exchange_exact hraw hpos hmax hrun).2.2.2.2.1
  exact ⟨n, net, hrun, ((metadata_exchange_exact hraw hpos hmax hrun).2.2.2.2.2 hstuck).1⟩

end swarmotter.metadata

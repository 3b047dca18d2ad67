import Swarmotter.Hash
import Swarmotter.Lib.Slices

namespace swarmotter.peer

/-- The longest body of a message that is accepted. -/
def MAX_MESSAGE_LEN : Nat := 4 * 1024 * 1024

inductive MessageId where
  | Choke
  | Unchoke
  | Interested
  | NotInterested
  | Have
  | Bitfield
  | Request
  | Piece
  | Cancel
  | Reject
  | HashRequest
  | Hashes
  | HashReject
  deriving DecidableEq, Repr

def MessageId.as_u8 : MessageId → UInt8
  | Choke => 0
  | Unchoke => 1
  | Interested => 2
  | NotInterested => 3
  | Have => 4
  | Bitfield => 5
  | Request => 6
  | Piece => 7
  | Cancel => 8
  | Reject => 16
  | HashRequest => 21
  | Hashes => 22
  | HashReject => 23

def MessageId.from_u8 (byte : UInt8) : Option MessageId :=
  match byte with
  | 0 => some .Choke
  | 1 => some .Unchoke
  | 2 => some .Interested
  | 3 => some .NotInterested
  | 4 => some .Have
  | 5 => some .Bitfield
  | 6 => some .Request
  | 7 => some .Piece
  | 8 => some .Cancel
  | 16 => some .Reject
  | 21 => some .HashRequest
  | 22 => some .Hashes
  | 23 => some .HashReject
  | _ => none

inductive Message where
  | Keepalive
  | Choke
  | Unchoke
  | Interested
  | NotInterested
  | Have (piece : UInt32)
  | Bitfield (bits : Bytes)
  | Request (piece offset length : UInt32)
  | Piece (piece offset : UInt32) (block : Bytes)
  | Cancel (piece offset length : UInt32)
  | Reject (piece offset length : UInt32)
  | HashRequest (pieces_root : V2InfoHash) (base_layer index length proof_layers : UInt32)
  | Hashes (pieces_root : V2InfoHash) (base_layer index length proof_layers : UInt32) (hashes : Vec V2InfoHash)
  | HashReject (pieces_root : V2InfoHash) (base_layer index length proof_layers : UInt32)
  /-- A BEP 10 extension message; `id` is the extension id. -/
  | Extended (id : UInt8) (payload : Bytes)
  /-- A message that is not recognised, with its raw payload. -/
  | Unknown (id : UInt8) (payload : Bytes)
  deriving DecidableEq, Repr

/-- `u32::to_be_bytes`. -/
def to_be_bytes (n : UInt32) : Bytes := endian.to_be 4 n.toNat

/-- `u32::from_be_bytes`. -/
def from_be_bytes (bytes : Bytes) : UInt32 := UInt32.ofNat (endian.from_be bytes)

/-! Encoding. -/

def len_prefix (len : UInt32) (body : Bytes) : Bytes := to_be_bytes len ++ body

def concat_id_payload (id : UInt8) (payload : Bytes) : Bytes := id :: payload

/-- The common form of `Request`, `Cancel` and `Reject`. -/
def block_payload (id : UInt8) (piece offset length : UInt32) : Bytes :=
  id :: (to_be_bytes piece ++ to_be_bytes offset ++ to_be_bytes length)

def v2_hash_message_payload (id : UInt8) (pieces_root : V2InfoHash)
    (base_layer index length proof_layers : UInt32) (hashes : Vec V2InfoHash) : Bytes :=
  id :: (pieces_root.as_bytes ++ to_be_bytes base_layer ++ to_be_bytes index ++ to_be_bytes length ++
    to_be_bytes proof_layers ++ hashes.flatMap V2InfoHash.as_bytes)

/-- The wire form: the length in four bytes, the id and the payload. A keepalive is a zero length. -/
def Message.encode : Message → Bytes
  | Keepalive => len_prefix 0 []
  | Choke => len_prefix 1 [0]
  | Unchoke => len_prefix 1 [1]
  | Interested => len_prefix 1 [2]
  | NotInterested => len_prefix 1 [3]
  | Have piece => len_prefix 5 (concat_id_payload 4 (to_be_bytes piece))
  | Bitfield bits => len_prefix (1 + UInt32.ofNat bits.length) (concat_id_payload 5 bits)
  | Request piece offset length => len_prefix 13 (block_payload 6 piece offset length)
  | Piece piece offset block =>
    len_prefix (9 + UInt32.ofNat block.length) (7 :: (to_be_bytes piece ++ to_be_bytes offset ++ block))
  | Cancel piece offset length => len_prefix 13 (block_payload 8 piece offset length)
  | Reject piece offset length => len_prefix 13 (block_payload 16 piece offset length)
  | HashRequest pieces_root base_layer index length proof_layers =>
    len_prefix 49 (v2_hash_message_payload 21 pieces_root base_layer index length proof_layers [])
  | Hashes pieces_root base_layer index length proof_layers hashes =>
    let payload := v2_hash_message_payload 22 pieces_root base_layer index length proof_layers hashes
    len_prefix (UInt32.ofNat payload.length) payload
  | HashReject pieces_root base_layer index length proof_layers =>
    len_prefix 49 (v2_hash_message_payload 23 pieces_root base_layer index length proof_layers [])
  | Extended id payload =>
    let p := 20 :: id :: payload
    len_prefix (UInt32.ofNat p.length) p
  | Unknown id payload =>
    let p := id :: payload
    len_prefix (UInt32.ofNat p.length) p

/-! Decoding. -/

/-- The integer in the four bytes from `start` on. -/
def u32_field (payload : Bytes) (start : Nat) : UInt32 := from_be_bytes ((payload.drop start).take 4)

structure HashHeader where
  pieces_root : V2InfoHash
  base_layer : UInt32
  index : UInt32
  length : UInt32
  proof_layers : UInt32

def decode_v2_hash_message_header (payload : Bytes) : Result HashHeader := do
  let _ ← reject_if (payload.length ≠ 48)
    (.Parse s!"BEP 52 hash message header has {payload.length} bytes; expected 48")
  pure ⟨V2InfoHash.from_slice (payload.take 32), u32_field payload 32, u32_field payload 36,
    u32_field payload 40, u32_field payload 44⟩

def validate_v2_hash_request (index length : UInt32) : Result Unit :=
  reject_if (length.toNat < 2 ∨ is_power_of_two length.toNat = false ∨ ¬ length.toNat ∣ index.toNat)
    (.Parse "invalid BEP 52 hash request range")

/-- The messages without a `MessageId`, and those whose payload has the wrong length. -/
def decode_other (id : UInt8) (payload : Bytes) : Message :=
  match payload with
  | ext_id :: rest => if id = 20 then .Extended ext_id rest else .Unknown id payload
  | [] => .Unknown id payload

def decode_payload (id : UInt8) (payload : Bytes) : Result Message :=
  match MessageId.from_u8 id with
  | some .Choke => pure (if payload = [] then .Choke else decode_other id payload)
  | some .Unchoke => pure (if payload = [] then .Unchoke else decode_other id payload)
  | some .Interested => pure (if payload = [] then .Interested else decode_other id payload)
  | some .NotInterested => pure (if payload = [] then .NotInterested else decode_other id payload)
  | some .Have => pure (if payload.length = 4 then .Have (from_be_bytes payload) else decode_other id payload)
  | some .Bitfield => pure (.Bitfield payload)
  | some .Request =>
    pure (if payload.length = 12 then .Request (u32_field payload 0) (u32_field payload 4) (u32_field payload 8)
      else decode_other id payload)
  | some .Piece =>
    pure (if payload.length ≥ 8 then .Piece (u32_field payload 0) (u32_field payload 4) (payload.drop 8)
      else decode_other id payload)
  | some .Cancel =>
    pure (if payload.length = 12 then .Cancel (u32_field payload 0) (u32_field payload 4) (u32_field payload 8)
      else decode_other id payload)
  | some .Reject =>
    pure (if payload.length = 12 then .Reject (u32_field payload 0) (u32_field payload 4) (u32_field payload 8)
      else decode_other id payload)
  | some .HashRequest =>
    if payload.length = 48 then do
      let header ← decode_v2_hash_message_header payload
      let _ ← validate_v2_hash_request header.index header.length
      pure (.HashRequest header.pieces_root header.base_layer header.index header.length header.proof_layers)
    else pure (decode_other id payload)
  | some .Hashes =>
    if payload.length ≥ 48 ∧ 32 ∣ payload.length - 48 then do
      let header ← decode_v2_hash_message_header (payload.take 48)
      let _ ← validate_v2_hash_request header.index header.length
      let hashes := (slices.chunks 32 (payload.drop 48)).map V2InfoHash.from_slice
      pure (.Hashes header.pieces_root header.base_layer header.index header.length header.proof_layers hashes)
    else pure (decode_other id payload)
  | some .HashReject =>
    if payload.length = 48 then do
      let header ← decode_v2_hash_message_header payload
      let _ ← validate_v2_hash_request header.index header.length
      pure (.HashReject header.pieces_root header.base_layer header.index header.length header.proof_layers)
    else pure (decode_other id payload)
  | none => pure (decode_other id payload)

/-- The body of a frame. Only a keepalive has none. -/
def decode_body : Bytes → Result Message
  | [] => pure .Keepalive
  | id :: payload => decode_payload id payload

/-- Decode one message with its length. -/
def Message.decode_frame (frame : Bytes) : Result Message := do
  let _ ← reject_if (frame.length < 4) (.Parse "message frame too short")
  let len := (from_be_bytes (frame.take 4)).toNat
  let _ ← reject_if (len > MAX_MESSAGE_LEN) (.Parse s!"peer message too large: {len} bytes")
  let _ ← reject_if (frame.length ≠ 4 + len)
    (.Parse s!"message frame length mismatch: declared {len}, have {frame.length - 4}")
  decode_body (frame.drop 4)

@[simp] theorem length_to_be_bytes (n : UInt32) : (to_be_bytes n).length = 4 := endian.length_to_be 4 n.toNat

@[simp] theorem from_be_bytes_to_be_bytes (n : UInt32) : from_be_bytes (to_be_bytes n) = n := by
  have hlt := n.toNat_lt
  rw [from_be_bytes, to_be_bytes, endian.from_be_to_be, Nat.mod_eq_of_lt (by omega), UInt32.ofNat_toNat]

theorem to_be_bytes_from_be_bytes {bytes : Bytes} (h : bytes.length = 4) :
    to_be_bytes (from_be_bytes bytes) = bytes := by
  have hlt := endian.from_be_lt bytes
  have hback := endian.to_be_from_be bytes
  rw [h] at hlt hback
  rw [to_be_bytes, from_be_bytes, UInt32.toNat_ofNat_of_lt' hlt, hback]

/-! Fields of a payload. -/

@[simp] theorem u32_field_zero (n : UInt32) (rest : Bytes) : u32_field (to_be_bytes n ++ rest) 0 = n := by
  rw [u32_field, List.drop_zero, List.take_left' (length_to_be_bytes n), from_be_bytes_to_be_bytes]

theorem u32_field_append {front rest : Bytes} {n : Nat} (h : front.length = n) (start : Nat) :
    u32_field (front ++ rest) (n + start) = u32_field rest start := by
  rw [u32_field, u32_field, ← h, List.drop_length_add_append]

@[simp] theorem u32_field_self (n : UInt32) : u32_field (to_be_bytes n) 0 = n := by
  simpa using u32_field_zero n []

/-- Behind an integer, the fields start four bytes later. -/
@[simp] theorem u32_field_next (n : UInt32) (rest : Bytes) (start : Nat) :
    u32_field (to_be_bytes n ++ rest) (start + 4) = u32_field rest start := by
  rw [Nat.add_comm, u32_field_append (length_to_be_bytes n)]

variable {payload : Bytes}

/-- Writing back a field that was read. -/
theorem to_be_bytes_u32_field {start : Nat} {rest : Bytes} (hrest : rest = payload.drop (start + 4))
    (h : start + 4 ≤ payload.length) : to_be_bytes (u32_field payload start) ++ rest = payload.drop start := by
  have hlength : ((payload.drop start).take 4).length = 4 := by
    rw [List.length_take, List.length_drop]
    omega
  rw [hrest, u32_field, to_be_bytes_from_be_bytes hlength, ← List.drop_drop, List.take_append_drop]

/-! The body of a message is everything behind its length. -/

/-- The bytes that the length of a message counts. -/
def Message.body : Message → Bytes
  | Keepalive => []
  | Choke => [0]
  | Unchoke => [1]
  | Interested => [2]
  | NotInterested => [3]
  | Have piece => 4 :: to_be_bytes piece
  | Bitfield bits => 5 :: bits
  | Request piece offset length => block_payload 6 piece offset length
  | Piece piece offset block => 7 :: (to_be_bytes piece ++ to_be_bytes offset ++ block)
  | Cancel piece offset length => block_payload 8 piece offset length
  | Reject piece offset length => block_payload 16 piece offset length
  | HashRequest pieces_root base_layer index length proof_layers =>
    v2_hash_message_payload 21 pieces_root base_layer index length proof_layers []
  | Hashes pieces_root base_layer index length proof_layers hashes =>
    v2_hash_message_payload 22 pieces_root base_layer index length proof_layers hashes
  | HashReject pieces_root base_layer index length proof_layers =>
    v2_hash_message_payload 23 pieces_root base_layer index length proof_layers []
  | Extended id payload => 20 :: id :: payload
  | Unknown id payload => id :: payload

@[simp] theorem length_block_payload (id : UInt8) (piece offset length : UInt32) :
    (block_payload id piece offset length).length = 13 := by
  simp [block_payload]

theorem length_v2_hash_message_payload (id : UInt8) (pieces_root : V2InfoHash)
    (base_layer index length proof_layers : UInt32) :
    (v2_hash_message_payload id pieces_root base_layer index length proof_layers []).length = 49 := by
  simp [v2_hash_message_payload, V2InfoHash.length_as_bytes]

/-- Every message is framed by the length of its body. -/
theorem Message.encode_eq (message : Message) :
    message.encode = to_be_bytes (UInt32.ofNat message.body.length) ++ message.body := by
  cases message with
  | Bitfield bits =>
    have hlength : 1 + UInt32.ofNat bits.length = UInt32.ofNat (Bitfield bits).body.length := by
      rw [body, List.length_cons, UInt32.ofNat_add, UInt32.add_comm]
      rfl
    rw [encode, len_prefix, hlength]
    rfl
  | Piece piece offset block =>
    have hlength : 9 + UInt32.ofNat block.length = UInt32.ofNat (Piece piece offset block).body.length := by
      have hbody : (Piece piece offset block).body.length = 9 + block.length := by
        simp only [body, List.length_cons, List.length_append, length_to_be_bytes]
        omega
      rw [hbody, UInt32.ofNat_add]
      rfl
    rw [encode, len_prefix, hlength]
    rfl
  | HashRequest | HashReject => simp [encode, body, len_prefix, length_v2_hash_message_payload]
  | _ => simp [encode, body, len_prefix, concat_id_payload]

/-! Frames. -/

/-- Decoding a frame is decoding its body, if the body is not too long. -/
theorem Message.decode_frame_of_body {body : Bytes} (h : body.length ≤ MAX_MESSAGE_LEN) :
    decode_frame (to_be_bytes (UInt32.ofNat body.length) ++ body) = decode_body body := by
  have hlen : (UInt32.ofNat body.length).toNat = body.length := UInt32.toNat_ofNat_of_lt' (h.trans_lt (by decide))
  have htake : (to_be_bytes (UInt32.ofNat body.length) ++ body).take 4 = to_be_bytes (UInt32.ofNat body.length) :=
    List.take_left' (length_to_be_bytes _)
  have hdrop : (to_be_bytes (UInt32.ofNat body.length) ++ body).drop 4 = body := List.drop_left' (length_to_be_bytes _)
  simp only [decode_frame, htake, hdrop, from_be_bytes_to_be_bytes, hlen, List.length_append, length_to_be_bytes,
    reject_if, Nat.not_lt.mpr (Nat.le_add_right 4 body.length), Nat.not_lt.mpr h, ne_eq, not_true_eq_false,
    if_false, bind_ok]

variable {message : Message}

/-- A frame that is decoded is a length and a body. -/
theorem Message.body_of_decode_frame {frame : Bytes} (h : decode_frame frame = .ok message) :
    ∃ body, frame = to_be_bytes (UInt32.ofNat body.length) ++ body ∧ decode_body body = .ok message := by
  simp only [decode_frame, eq_ok_iff] at h
  obtain ⟨-, hshort, -, hlarge, -, hlength, hbody⟩ := h
  have htake : (frame.take 4).length = 4 := by
    rw [List.length_take]
    omega
  have hdeclared : (from_be_bytes (frame.take 4)).toNat = (frame.drop 4).length := by
    rw [List.length_drop]
    omega
  refine ⟨frame.drop 4, ?_, hbody⟩
  rw [← hdeclared, UInt32.ofNat_toNat, to_be_bytes_from_be_bytes htake, List.take_append_drop]

/-! A body that is decoded is the body of the message. -/

theorem MessageId.eq_as_u8_of_from_u8 {byte : UInt8} {id : MessageId} (h : from_u8 byte = some id) :
    byte = id.as_u8 := by
  unfold from_u8 at h
  split at h <;> cases h <;> rfl

section
variable {id : UInt8} {payload : Bytes} {message : Message}

theorem body_decode_other (id : UInt8) (payload : Bytes) : (decode_other id payload).body = id :: payload := by
  cases payload with
  | nil => rfl
  | cons ext_id rest =>
    by_cases h : id = 20
    · rw [decode_other, if_pos h, h]
      rfl
    · rw [decode_other, if_neg h]
      rfl

/-- A payload of the expected form, or else an unknown message. -/
theorem body_of_guard {guard : Prop} [Decidable guard] {known : Message} (hknown : guard → known.body = id :: payload)
    (h : (pure (if guard then known else decode_other id payload) : Result Message) = .ok message) :
    message.body = id :: payload := by
  cases h
  split
  · exact hknown ‹guard›
  · exact body_decode_other id payload

theorem payload_of_block_fields (h : payload.length = 12) :
    to_be_bytes (u32_field payload 0) ++ to_be_bytes (u32_field payload 4) ++ to_be_bytes (u32_field payload 8) =
      payload := by
  have hlength := to_be_bytes_u32_field (List.drop_of_length_le h.le).symm (by omega)
  have hoffset := to_be_bytes_u32_field hlength (by omega)
  have hpiece := to_be_bytes_u32_field hoffset (by omega)
  rwa [List.append_nil, ← List.append_assoc] at hpiece

/-- A header that is decoded has the bytes of its fields. -/
theorem payload_of_hash_header {header : HashHeader} (h : decode_v2_hash_message_header payload = .ok header) :
    header.pieces_root.as_bytes ++ to_be_bytes header.base_layer ++ to_be_bytes header.index ++
      to_be_bytes header.length ++ to_be_bytes header.proof_layers = payload := by
  simp only [decode_v2_hash_message_header, eq_ok_iff, ne_eq, not_not] at h
  obtain ⟨-, hpayload, rfl⟩ := h
  have hproof := to_be_bytes_u32_field (List.drop_of_length_le hpayload.le).symm (by omega)
  have hlength := to_be_bytes_u32_field hproof (by omega)
  have hindex := to_be_bytes_u32_field hlength (by omega)
  have hbase := to_be_bytes_u32_field hindex (by omega)
  have hroot : (V2InfoHash.from_slice (payload.take 32)).as_bytes = payload.take 32 := by
    apply V2InfoHash.as_bytes_from_slice
    rw [List.length_take]
    omega
  rw [List.append_nil] at hbase
  simp only [List.append_assoc]
  rw [hbase, hroot, List.take_append_drop]

/-- The hashes of a payload are its bytes. -/
theorem flatMap_hashes {bytes : Bytes} (h : 32 ∣ bytes.length) :
    ((slices.chunks 32 bytes).map V2InfoHash.from_slice).flatMap V2InfoHash.as_bytes = bytes := by
  rw [List.flatMap_map, List.flatMap_def]
  have hmap : (slices.chunks 32 bytes).map (fun run => (V2InfoHash.from_slice run).as_bytes) =
      slices.chunks 32 bytes := by
    apply List.map_congr_left (g := id) _ |>.trans (List.map_id _)
    intro run hrun
    exact V2InfoHash.as_bytes_from_slice (slices.length_of_mem_chunks (by decide) h hrun)
  rw [hmap, slices.flatten_chunks (by decide)]

theorem body_of_decode_payload (h : decode_payload id payload = .ok message) : message.body = id :: payload := by
  unfold decode_payload at h
  cases hid : MessageId.from_u8 id with
  | none =>
    rw [hid] at h
    cases h
    exact body_decode_other id payload
  | some known =>
    obtain rfl := MessageId.eq_as_u8_of_from_u8 hid
    rw [hid] at h
    cases known with
    | Choke | Unchoke | Interested | NotInterested => exact body_of_guard (fun hempty => by rw [hempty]; rfl) h
    | Have =>
      refine body_of_guard (fun hlength => ?_) h
      rw [Message.body, to_be_bytes_from_be_bytes hlength]
      rfl
    | Bitfield =>
      cases h
      rfl
    | Request | Cancel | Reject =>
      refine body_of_guard (fun hlength => ?_) h
      rw [Message.body, block_payload, payload_of_block_fields hlength]
      rfl
    | Piece =>
      refine body_of_guard (fun hlength => ?_) h
      have hpiece := to_be_bytes_u32_field (to_be_bytes_u32_field rfl hlength) (by omega)
      rw [Message.body, List.append_assoc, hpiece]
      rfl
    | HashRequest | HashReject =>
      dsimp only at h
      split at h
      · simp only [bind_eq_ok_iff] at h
        obtain ⟨header, hheader, ⟨⟩, -, h⟩ := h
        obtain rfl := Except.ok.inj h
        rw [Message.body, v2_hash_message_payload, List.flatMap_nil, List.append_nil, payload_of_hash_header hheader]
        rfl
      · cases h
        exact body_decode_other _ payload
    | Hashes =>
      dsimp only at h
      split at h
      · rename_i hlength
        simp only [bind_eq_ok_iff] at h
        obtain ⟨header, hheader, ⟨⟩, -, h⟩ := h
        obtain rfl := Except.ok.inj h
        have hdvd : 32 ∣ (payload.drop 48).length := by
          rw [List.length_drop]
          exact hlength.2
        rw [Message.body, v2_hash_message_payload, payload_of_hash_header hheader, flatMap_hashes hdvd,
          List.take_append_drop]
        rfl
      · cases h
        exact body_decode_other _ payload

theorem body_of_decode_body {body : Bytes} (h : decode_body body = .ok message) : message.body = body := by
  cases body with
  | nil =>
    cases h
    rfl
  | cons id payload => exact body_of_decode_payload h

end

/-! The body of a message is decoded to the message. -/

/-- The range of a hash message, if it is one, is valid. -/
def Message.HashRangeValid : Message → Prop
  | HashRequest _ _ index length _ => validate_v2_hash_request index length = .ok ()
  | Hashes _ _ index length _ _ => validate_v2_hash_request index length = .ok ()
  | HashReject _ _ index length _ => validate_v2_hash_request index length = .ok ()
  | _ => True

/-- The messages that a peer may send: the frame is not too long, the range of a hash message is
    valid, and no other kind of message has the id of an unknown one. -/
structure Message.Valid (message : Message) : Prop where
  fits : message.encode.length ≤ 4 + MAX_MESSAGE_LEN
  hash_range : message.HashRangeValid
  unknown_id : ∀ id payload, message = .Unknown id payload →
    ∀ other : Message, other.encode[4]? = some id → ∃ rest, other = .Unknown id rest

theorem Message.id_of_encode (message : Message) : message.encode[4]? = message.body.head? := by
  rw [encode_eq, List.getElem?_append_right (by simp), length_to_be_bytes, Nat.sub_self, List.head?_eq_getElem?]

/-- A message of each known kind. -/
def MessageId.sample : MessageId → Message
  | Choke => .Choke
  | Unchoke => .Unchoke
  | Interested => .Interested
  | NotInterested => .NotInterested
  | Have => .Have 0
  | Bitfield => .Bitfield []
  | Request => .Request 0 0 0
  | Piece => .Piece 0 0 []
  | Cancel => .Cancel 0 0 0
  | Reject => .Reject 0 0 0
  | HashRequest => .HashRequest V2InfoHash.ZERO 0 0 0 0
  | Hashes => .Hashes V2InfoHash.ZERO 0 0 0 0 []
  | HashReject => .HashReject V2InfoHash.ZERO 0 0 0 0

theorem Message.Valid.unknown_unused {id : UInt8} (h : (Message.Unknown id payload).Valid) :
    MessageId.from_u8 id = none ∧ id ≠ 20 := by
  have hunused := h.unknown_id id payload rfl
  constructor
  · cases hid : MessageId.from_u8 id with
    | none => rfl
    | some known =>
      obtain rfl := MessageId.eq_as_u8_of_from_u8 hid
      have hsample : known.sample.encode[4]? = some known.as_u8 := by
        rw [id_of_encode]
        cases known <;> rfl
      obtain ⟨rest, hrest⟩ := hunused _ hsample
      cases known <;> cases hrest
  · rintro rfl
    obtain ⟨rest, hrest⟩ := hunused (.Extended 0 []) rfl
    cases hrest

theorem length_hash_header (pieces_root : V2InfoHash) (base_layer index length proof_layers : UInt32) :
    (pieces_root.as_bytes ++ to_be_bytes base_layer ++ to_be_bytes index ++ to_be_bytes length ++
      to_be_bytes proof_layers).length = 48 := by
  simp only [List.length_append, V2InfoHash.length_as_bytes, length_to_be_bytes]

theorem decode_hash_header (pieces_root : V2InfoHash) (base_layer index length proof_layers : UInt32) :
    decode_v2_hash_message_header (pieces_root.as_bytes ++ to_be_bytes base_layer ++ to_be_bytes index ++
        to_be_bytes length ++ to_be_bytes proof_layers) =
      .ok ⟨pieces_root, base_layer, index, length, proof_layers⟩ := by
  have hroot := pieces_root.length_as_bytes
  have hfields (start : Nat) (rest : Bytes) :
      u32_field (pieces_root.as_bytes ++ rest) (32 + start) = u32_field rest start :=
    u32_field_append hroot start
  simp only [decode_v2_hash_message_header, List.append_assoc, List.length_append, hroot, length_to_be_bytes]
  simp [reject_if, hfields 0, hfields 4, hfields 8, hfields 12, List.take_left' hroot, V2InfoHash.from_slice_as_bytes]

theorem length_flatMap_hashes (hashes : Vec V2InfoHash) :
    (hashes.flatMap V2InfoHash.as_bytes).length = hashes.length * 32 := by
  induction hashes with
  | nil => rfl
  | cons hash rest ih =>
    rw [List.flatMap_cons, List.length_append, hash.length_as_bytes, ih, List.length_cons, Nat.succ_mul, Nat.add_comm]

/-- Decoding the body of a valid message gives the message. -/
theorem decode_body_of_valid (h : message.Valid) : decode_body message.body = .ok message := by
  cases message with
  | Keepalive | Choke | Unchoke | Interested | NotInterested | Bitfield | Extended => rfl
  | Have piece => simp [Message.body, decode_body, decode_payload, MessageId.from_u8]
  | Request piece offset length | Cancel piece offset length | Reject piece offset length =>
    simp [Message.body, decode_body, block_payload, decode_payload, MessageId.from_u8]
  | Piece piece offset block =>
    have hlength : (to_be_bytes piece ++ to_be_bytes offset).length = 8 := by simp
    have hdrop : (to_be_bytes piece ++ (to_be_bytes offset ++ block)).drop 8 = block := by
      rw [← List.append_assoc, List.drop_left' hlength]
    have hguard : 8 ≤ 4 + (4 + block.length) := by omega
    simp [Message.body, decode_body, decode_payload, MessageId.from_u8, hdrop, hguard]
  | HashRequest pieces_root base_layer index length proof_layers
  | HashReject pieces_root base_layer index length proof_layers =>
    have hrange : validate_v2_hash_request index length = .ok () := h.hash_range
    rw [Message.body, v2_hash_message_payload, List.flatMap_nil, List.append_nil, decode_body, decode_payload]
    simp only [MessageId.from_u8, length_hash_header, if_true, decode_hash_header, bind_ok, hrange, pure_eq_ok]
  | Hashes pieces_root base_layer index length proof_layers hashes =>
    have hrange : validate_v2_hash_request index length = .ok () := h.hash_range
    have hheader := length_hash_header pieces_root base_layer index length proof_layers
    have hguard : (pieces_root.as_bytes ++ to_be_bytes base_layer ++ to_be_bytes index ++ to_be_bytes length ++
        to_be_bytes proof_layers ++ hashes.flatMap V2InfoHash.as_bytes).length = 48 + hashes.length * 32 := by
      rw [List.length_append, hheader, length_flatMap_hashes]
    have hback : hashes.map (fun hash => V2InfoHash.from_slice hash.as_bytes) = hashes := by
      simp only [V2InfoHash.from_slice_as_bytes, List.map_id']
    rw [Message.body, v2_hash_message_payload, decode_body, decode_payload]
    simp only [MessageId.from_u8, hguard, ge_iff_le, Nat.le_add_right, Nat.add_sub_cancel_left, Nat.dvd_mul_left,
      and_self, if_true, List.take_left' hheader, List.drop_left' hheader, decode_hash_header, bind_ok, hrange,
      slices.chunks_flatMap (by decide : 0 < 32) _ V2InfoHash.length_as_bytes, List.map_map, Function.comp_def, hback,
      pure_eq_ok]
  | Unknown id payload =>
    obtain ⟨hid, hother⟩ := h.unknown_unused
    rw [Message.body, decode_body, decode_payload, hid]
    cases payload with
    | nil => rfl
    | cons ext_id rest => simp [decode_other, hother]

theorem Message.extended_valid (id : UInt8) (h : payload.length + 2 ≤ MAX_MESSAGE_LEN) :
    (Message.Extended id payload).Valid where
  fits := by
    rw [encode_eq, List.length_append, length_to_be_bytes, body, List.length_cons, List.length_cons]
    omega
  hash_range := trivial
  unknown_id := by rintro _ _ ⟨⟩

theorem Message.bitfield_valid {bits : Bytes} (h : bits.length + 1 ≤ MAX_MESSAGE_LEN) :
    (Message.Bitfield bits).Valid where
  fits := by
    rw [encode_eq, List.length_append, length_to_be_bytes, body, List.length_cons]
    omega
  hash_range := trivial
  unknown_id := by rintro _ _ ⟨⟩

theorem Message.decode_frame_of_valid (h : message.Valid) : decode_frame message.encode = .ok message := by
  have hbody : message.body.length ≤ MAX_MESSAGE_LEN := by
    have hfits := h.fits
    rw [encode_eq, List.length_append, length_to_be_bytes] at hfits
    omega
  rw [encode_eq, decode_frame_of_body hbody, decode_body_of_valid h]

/-- Frames and messages correspond: a frame that is decoded is the encoding of the message, and
    the encoding of a valid message is decoded to the message. -/
theorem Message.decode_frame_encode :
    (∀ frame message, decode_frame frame = .ok message → message.encode = frame) ∧
    ∀ message : Message, message.Valid → decode_frame message.encode = .ok message := by
  constructor
  · intro frame message h
    obtain ⟨body, rfl, hbody⟩ := body_of_decode_frame h
    rw [encode_eq, body_of_decode_body hbody]
  · intro message h
    exact decode_frame_of_valid h

/-- An unused id, and a range of two hashes. -/
theorem decode_frame_encode_hash_request :
    Message.decode_frame (Message.HashRequest V2InfoHash.ZERO 0 2 2 3).encode =
        .ok (.HashRequest V2InfoHash.ZERO 0 2 2 3) ∧
      (Message.Unknown 21 [1]).encode = [0, 0, 0, 2, 21, 1] := by
  constructor
  · apply Message.decode_frame_encode.2
    refine ⟨by decide +kernel, rfl, ?_⟩
    intro id payload h
    cases h
  · exact Message.decode_frame_encode.1 _ _ (by decide +kernel)

end swarmotter.peer

import Swarmotter.Peer.Codec

namespace swarmotter.peer

/-- A call of `PeerReader::read_message` that waits for the stream, with the bytes it has taken. -/
inductive ReadMessage where
  /-- Fewer than four bytes of the length. -/
  | Length (len_buf : Bytes)
  /-- The length, and fewer bytes of the body than it says. -/
  | Body (len_buf : Bytes) (len : Nat) (body : Bytes)
  deriving DecidableEq

/-- What one read of the stream gives. No bytes mean its end. -/
inductive Chunk where
  | Bytes (bytes : Bytes)
  | Failed (unexpected_eof : Bool) (message : String)

inductive Poll where
  | Pending (read : ReadMessage)
  | Ready (result : Result (Option Message))

namespace ReadMessage

def start : ReadMessage := .Length []

/-- The size of the buffer that the next read of the stream may fill. -/
def room : ReadMessage → Nat
  | .Length len_buf => 4 - len_buf.length
  | .Body _ len body => len - body.length

/-- The bytes that the call has taken from the stream. -/
def bytes : ReadMessage → Bytes
  | .Length len_buf => len_buf
  | .Body len_buf _ body => len_buf ++ body

/-- The length is complete. -/
def begin_body (len_buf : Bytes) : Poll :=
  let len := (from_be_bytes len_buf).toNat
  if len > MAX_MESSAGE_LEN then .Ready (.error (.Parse s!"peer message too large: {len} bytes"))
  else if len = 0 then .Ready (.ok (some .Keepalive))
  else .Pending (.Body len_buf len [])

/-- The call goes on with what the stream gives. -/
def advance : ReadMessage → Chunk → Poll
  | .Length len_buf, .Bytes bytes =>
    if bytes = [] then
      .Ready (if len_buf = [] then .ok none else .error (.Parse "peer stream EOF mid-length"))
    else if (len_buf ++ bytes).length = 4 then begin_body (len_buf ++ bytes)
    else .Pending (.Length (len_buf ++ bytes))
  | .Length len_buf, .Failed unexpected_eof message =>
    .Ready (if unexpected_eof ∧ len_buf = [] then .ok none else .error (.Io message))
  | .Body len_buf len body, .Bytes bytes =>
    if bytes = [] then .Ready (.error (.Io "early eof"))
    else if (body ++ bytes).length = len then .Ready ((Message.decode_frame (len_buf ++ (body ++ bytes))).map some)
    else .Pending (.Body len_buf len (body ++ bytes))
  | .Body _ _ _, .Failed _ message => .Ready (.error (.Io message))

end ReadMessage

/-! A call that has taken bytes of one message returns that message. -/

theorem Message.take_encode (message : Message) :
    message.encode.take 4 = to_be_bytes (UInt32.ofNat message.body.length) := by
  rw [encode_eq, List.take_left' (length_to_be_bytes _)]

theorem Message.length_encode (message : Message) : message.encode.length = 4 + message.body.length := by
  rw [encode_eq, List.length_append, length_to_be_bytes]

section
variable {message : Message} {read : ReadMessage}

theorem Message.Valid.body_le (h : message.Valid) : message.body.length ≤ MAX_MESSAGE_LEN := by
  have hfits := h.fits
  rw [message.length_encode] at hfits
  omega

/-- The length field of a valid message says how long its body is. -/
theorem Message.Valid.declared (h : message.Valid) {len_buf : Bytes} (hlength : len_buf.length = 4)
    (hfront : len_buf <+: message.encode) : (from_be_bytes len_buf).toNat = message.body.length := by
  have hlen_buf : len_buf = message.encode.take 4 := by
    rw [← hlength]
    exact List.prefix_iff_eq_take.mp hfront
  have hlt : message.body.length < 2 ^ 32 := h.body_le.trans_lt (by decide)
  rw [hlen_buf, message.take_encode, from_be_bytes_to_be_bytes, UInt32.toNat_ofNat_of_lt' hlt]

/-- The call has taken a part of the frame of `message`, but not all of it. -/
inductive ReadMessage.Within (message : Message) : ReadMessage → Prop where
  | length {len_buf : Bytes} (hshort : len_buf.length < 4) (hfront : len_buf <+: message.encode) :
    Within message (.Length len_buf)
  | body {len_buf body : Bytes} (hlength : len_buf.length = 4) (hshort : body.length < message.body.length)
    (hfront : len_buf ++ body <+: message.encode) : Within message (.Body len_buf message.body.length body)

theorem ReadMessage.Within.room_le (h : read.Within message) :
    read.bytes.length + read.room ≤ message.encode.length := by
  rw [message.length_encode]
  cases h with
  | length hshort hfront =>
    simp only [bytes, room]
    omega
  | body hlength hshort hfront =>
    simp only [bytes, room, List.length_append]
    omega

theorem ReadMessage.Within.lt (h : read.Within message) : read.bytes.length < message.encode.length := by
  rw [message.length_encode]
  cases h with
  | length hshort hfront =>
    simp only [bytes]
    omega
  | body hlength hshort hfront =>
    simp only [bytes, List.length_append]
    omega

theorem Message.Valid.eq_keepalive (h : message.Valid) (hempty : message.body.length = 0) : message = .Keepalive := by
  have hbody := decode_body_of_valid h
  rw [List.length_eq_zero_iff.mp hempty] at hbody
  exact (Except.ok.inj hbody).symm

/-- More bytes of the frame: the call goes on, or it returns the message at the end of the frame. -/
theorem ReadMessage.Within.advance (h : read.Within message)
    (hvalid : message.Valid) {bytes : Bytes} (hbytes : bytes ≠ []) (hroom : bytes.length ≤ read.room)
    (hfront : read.bytes ++ bytes <+: message.encode) :
    (∃ next, read.advance (.Bytes bytes) = .Pending next ∧ next.Within message ∧ next.bytes = read.bytes ++ bytes) ∨
      (read.advance (.Bytes bytes) = .Ready (.ok (some message)) ∧ read.bytes ++ bytes = message.encode) := by
  cases h with
  | @length len_buf hshort hbefore =>
    have hfront : len_buf ++ bytes <+: message.encode := hfront
    rw [ReadMessage.advance, if_neg hbytes]
    by_cases hlength : (len_buf ++ bytes).length = 4
    · have hdeclared := hvalid.declared hlength hfront
      rw [if_pos hlength, begin_body, hdeclared, if_neg (Nat.not_lt.mpr hvalid.body_le)]
      by_cases hempty : message.body.length = 0
      · refine Or.inr ⟨?_, ?_⟩
        · rw [if_pos hempty, hvalid.eq_keepalive hempty]
        · apply hfront.eq_of_length
          rw [message.length_encode, hempty, hlength]
      · refine Or.inl ⟨.Body (len_buf ++ bytes) message.body.length [], ?_, ?_, List.append_nil _⟩
        · rw [if_neg hempty]
        · exact .body hlength (Nat.pos_of_ne_zero hempty) (by rwa [List.append_nil])
    · have hlt : (len_buf ++ bytes).length < 4 := by
        have hroom : bytes.length ≤ 4 - len_buf.length := hroom
        rw [List.length_append] at hlength ⊢
        omega
      rw [if_neg hlength]
      exact Or.inl ⟨_, rfl, .length hlt hfront, rfl⟩
  | @body len_buf body hlength hshort hbefore =>
    have hfront : len_buf ++ (body ++ bytes) <+: message.encode := by
      rwa [← List.append_assoc]
    rw [ReadMessage.advance, if_neg hbytes]
    by_cases hdone : (body ++ bytes).length = message.body.length
    · have hframe : len_buf ++ (body ++ bytes) = message.encode := by
        apply hfront.eq_of_length
        rw [List.length_append, hlength, hdone, message.length_encode]
      refine Or.inr ⟨?_, ?_⟩
      · rw [if_pos hdone, hframe, Message.decode_frame_of_valid hvalid]
        rfl
      · rw [ReadMessage.bytes, List.append_assoc, hframe]
    · have hlt : (body ++ bytes).length < message.body.length := by
        have hroom : bytes.length ≤ message.body.length - body.length := hroom
        rw [List.length_append] at hdone ⊢
        omega
      rw [if_neg hdone]
      exact Or.inl ⟨_, rfl, .body hlength hlt hfront, (List.append_assoc _ _ _).symm⟩

end

/-- A call that starts has taken nothing of the next message. -/
theorem ReadMessage.within_start (message : Message) : start.Within message :=
  .length (by decide) List.nil_prefix

/-- What `read_message` under a time limit gives. -/
inductive Read where
  | Message (message : Message)
  /-- The peer has closed the stream. -/
  | Closed
  | Failed (error : CoreError)
  /-- No message within the limit. -/
  | Elapsed

/-- A frame as the reader of the receiving side sees it. -/
def Read.of_frame (frame : Bytes) : Read :=
  match Message.decode_frame frame with
  | .ok message => .Message message
  | .error error => .Failed error

theorem Read.of_frame_encode {message : peer.Message} (h : message.Valid) :
    of_frame message.encode = .Message message := by
  rw [of_frame, Message.decode_frame_of_valid h]

end swarmotter.peer

import Swarmotter.Bytes
import Swarmotter.Lib.Endian

open endian

namespace swarmotter.utp

def UTP_VERSION : UInt8 := 1

/-- The packet type, the high nibble of the first byte. -/
inductive UtpType where
  | Data
  | Fin
  | State
  | Reset
  | Syn
  deriving DecidableEq, Repr

def UtpType.as_u8 : UtpType → UInt8
  | Data => 0
  | Fin => 1
  | State => 2
  | Reset => 3
  | Syn => 4

def UtpType.from_u8 (byte : UInt8) : Option UtpType :=
  if byte = 0 then some .Data
  else if byte = 1 then some .Fin
  else if byte = 2 then some .State
  else if byte = 3 then some .Reset
  else if byte = 4 then some .Syn
  else none

/-- One extension. Its kind stands in the block before it, or in the header if it is the first. -/
structure UtpExtension where
  kind : UInt8
  data : Bytes
  deriving DecidableEq, Repr

structure UtpHeader where
  typ : UtpType
  version : UInt8
  /-- The kind of the first extension, as it was received; `encode` works it out anew. -/
  extension : UInt8
  connection_id : UInt16
  timestamp_micros : UInt32
  timestamp_delta_micros : UInt32
  window_size : UInt32
  seq_number : UInt16
  ack_number : UInt16
  deriving DecidableEq, Repr

def UtpHeader.SIZE : Nat := 20

/-! Encoding. -/

def type_and_version (typ : UtpType) (version : UInt8) : UInt8 := typ.as_u8 <<< 4 ||| (version &&& 0x0f)

def UtpHeader.encode_prefix (self : UtpHeader) (first_extension : UInt8) : Bytes :=
  [type_and_version self.typ self.version, first_extension] ++
    to_be 2 self.connection_id.toNat ++
    to_be 4 self.timestamp_micros.toNat ++
    to_be 4 self.timestamp_delta_micros.toNat ++
    to_be 4 self.window_size.toNat ++
    to_be 2 self.seq_number.toNat ++
    to_be 2 self.ack_number.toNat

/-- A packet without extensions. -/
def UtpHeader.encode (self : UtpHeader) (payload : Bytes) : Bytes :=
  UtpHeader.encode_prefix self 0 ++ payload

/-- The length of the chain up to an extension, which has to be encodable. -/
def add_extension (total : Nat) (extension : UtpExtension) : Result Nat := do
  reject_if (extension.kind = 0) (.InvalidArgument "uTP extension kind 0 is reserved for end-of-chain")
  reject_if (255 < extension.data.length) (.InvalidArgument s!"uTP extension {extension.kind} exceeds 255 bytes")
  ok_or (checked_add total (2 + extension.data.length)) (.InvalidArgument "uTP extension length overflow")

def extension_bytes (extensions : Vec UtpExtension) : Result Nat := extensions.foldlM add_extension 0

/-- The kind that announces a chain, zero for the empty one. -/
def first_kind : Vec UtpExtension → UInt8
  | [] => 0
  | extension :: _ => extension.kind

/-- Every block stores the kind of the next one, then its own length and data. -/
def encode_extensions : Vec UtpExtension → Bytes
  | [] => []
  | extension :: rest =>
    first_kind rest :: UInt8.ofNat extension.data.length :: (extension.data ++ encode_extensions rest)

def UtpHeader.encode_with_extensions (self : UtpHeader) (extensions : Vec UtpExtension) (payload : Bytes) :
    Result Bytes := do
  let _ ← extension_bytes extensions
  .ok (UtpHeader.encode_prefix self (first_kind extensions) ++ encode_extensions extensions ++ payload)

/-! Decoding. -/

/-- The big-endian integer in the bytes `start..stop`. -/
def be_field (buf : Bytes) (start stop : Nat) : Nat := from_be ((buf.drop start).take (stop - start))

/-- The loop over the extension chain. A block takes two bytes at least, so that the length of the
    packet is fuel enough. -/
def decode_extensions : Nat → UInt8 → Bytes → Result (Vec UtpExtension × Bytes)
  | 0, next_kind, rest =>
    if next_kind = 0 then .ok ([], rest) else .error (.Parse "uTP extension header truncated")
  | fuel + 1, next_kind, rest =>
    if next_kind = 0 then .ok ([], rest)
    else
      match rest with
      | following_kind :: length :: body => do
        reject_if (body.length < length.toNat) (.Parse "uTP extension data truncated")
        let (extensions, payload) ← decode_extensions fuel following_kind (body.drop length.toNat)
        .ok (⟨next_kind, body.take length.toNat⟩ :: extensions, payload)
      | _ => .error (.Parse "uTP extension header truncated")

/-- The twenty bytes before the extensions. -/
def UtpHeader.decode_fixed (buf : Bytes) : Result UtpHeader := do
  reject_if (buf.length < UtpHeader.SIZE) (.Parse s!"utp packet too short: {buf.length} bytes")
  let first := buf.getD 0 0
  let typ ← ok_or (UtpType.from_u8 (first >>> 4)) (.Parse s!"bad utp type {first >>> 4}")
  let version := first &&& 0x0f
  reject_if (version ≠ UTP_VERSION) (.Parse s!"unsupported utp version {version}")
  .ok {
    typ
    version
    extension := buf.getD 1 0
    connection_id := UInt16.ofNat (be_field buf 2 4)
    timestamp_micros := UInt32.ofNat (be_field buf 4 8)
    timestamp_delta_micros := UInt32.ofNat (be_field buf 8 12)
    window_size := UInt32.ofNat (be_field buf 12 16)
    seq_number := UInt16.ofNat (be_field buf 16 18)
    ack_number := UInt16.ofNat (be_field buf 18 20) }

def UtpHeader.decode_with_extensions (buf : Bytes) : Result (UtpHeader × Vec UtpExtension × Bytes) := do
  let header ← UtpHeader.decode_fixed buf
  let (extensions, payload) ← decode_extensions buf.length header.extension (buf.drop UtpHeader.SIZE)
  .ok (header, extensions, payload)

/-! What is encoded is decoded again. -/

@[simp] theorem from_u8_type_and_version (typ : UtpType) :
    UtpType.from_u8 (type_and_version typ UTP_VERSION >>> 4) = some typ := by
  cases typ <;> rfl

@[simp] theorem version_of_type_and_version (typ : UtpType) :
    type_and_version typ UTP_VERSION &&& 0x0f = UTP_VERSION := by
  cases typ <;> rfl

/-- Reading a field where it was written, and what is behind it. -/
theorem be_field_of_drop {buf rest : Bytes} {start width n : Nat} (stop : Nat) (hstop : start + width = stop)
    (h : buf.drop start = to_be width n ++ rest) :
    be_field buf start stop = n % 256 ^ width ∧ buf.drop stop = rest := by
  subst hstop
  rw [be_field, Nat.add_sub_cancel_left, ← List.drop_drop, h, List.take_left' (length_to_be width n),
    List.drop_left' (length_to_be width n), from_be_to_be]
  exact ⟨rfl, rfl⟩

section
variable {header : UtpHeader} {extensions : Vec UtpExtension} {payload buf : Bytes}

theorem encode_prefix_length {first : UInt8} (hbuf : buf = UtpHeader.encode_prefix header first) :
    buf.length = UtpHeader.SIZE := by
  unfold UtpHeader.encode_prefix at hbuf
  simp [hbuf, UtpHeader.SIZE]

/-- An extension that fits into the chain. -/
def UtpExtension.Encodable (extension : UtpExtension) : Prop := extension.kind ≠ 0 ∧ extension.data.length ≤ 255

theorem extension_bytes_encodable {start total : Nat} (h : extensions.foldlM add_extension start = .ok total) :
    ∀ extension ∈ extensions, extension.Encodable := by
  induction extensions generalizing start with
  | nil => simp
  | cons extension rest ih =>
    simp only [List.foldlM_cons, add_extension, eq_ok_iff] at h
    obtain ⟨middle, ⟨⟨⟩, hkind, ⟨⟩, hlength, -⟩, hrest⟩ := h
    exact List.forall_mem_cons.mpr ⟨⟨hkind, by omega⟩, ih hrest⟩

theorem first_kind_cons (extension : UtpExtension) (rest : Vec UtpExtension) :
    first_kind (extension :: rest) = extension.kind := rfl

theorem length_le_encode_extensions (extensions : Vec UtpExtension) :
    extensions.length ≤ (encode_extensions extensions).length := by
  induction extensions with
  | nil => simp
  | cons extension rest ih =>
    simp only [encode_extensions, List.length_cons, List.length_append]
    omega

/-- The loop reads back the chain and leaves the payload. -/
theorem decode_encode_extensions {fuel : Nat} (hencodable : ∀ extension ∈ extensions, extension.Encodable)
    (hfuel : extensions.length ≤ fuel) :
    decode_extensions fuel (first_kind extensions) (encode_extensions extensions ++ payload) =
      .ok (extensions, payload) := by
  induction extensions generalizing fuel with
  | nil => cases fuel <;> rfl
  | cons extension rest ih =>
    obtain ⟨fuel, rfl⟩ : ∃ smaller, fuel = smaller + 1 := ⟨fuel - 1, by simp at hfuel; omega⟩
    obtain ⟨hkind, hlength⟩ := hencodable extension (by simp)
    have hsize : (UInt8.ofNat extension.data.length).toNat = extension.data.length := by
      rw [UInt8.toNat_ofNat']
      exact Nat.mod_eq_of_lt (by omega)
    have hrest := ih (fun other hother => hencodable other (List.mem_cons_of_mem _ hother))
      (show rest.length ≤ fuel by simp at hfuel; omega)
    simp only [encode_extensions, first_kind_cons, List.cons_append, List.append_assoc, decode_extensions, hkind,
      if_false, hsize, List.length_append, List.drop_left, List.take_left]
    rw [hrest]
    simp [reject_if]

theorem decode_fixed_encode_prefix (hversion : header.version = UTP_VERSION) {first : UInt8} {tail : Bytes}
    (hbuf : UtpHeader.encode_prefix header first ++ tail = buf) :
    UtpHeader.decode_fixed buf = .ok { header with extension := first } := by
  have hlength : ¬buf.length < UtpHeader.SIZE := by
    rw [← hbuf, List.length_append, encode_prefix_length rfl]
    omega
  unfold UtpHeader.encode_prefix at hbuf
  simp only [List.append_assoc] at hbuf
  have hzero : buf.getD 0 0 = type_and_version header.typ UTP_VERSION := by
    simp [← hbuf, hversion]
  have hone : buf.getD 1 0 = first := by
    simp [← hbuf]
  have hfields : buf.drop 2 = _ := congrArg (List.drop 2) hbuf.symm
  obtain ⟨hid, hrest⟩ := be_field_of_drop 4 rfl hfields
  obtain ⟨hmicros, hrest⟩ := be_field_of_drop 8 rfl hrest
  obtain ⟨hdelta, hrest⟩ := be_field_of_drop 12 rfl hrest
  obtain ⟨hwindow, hrest⟩ := be_field_of_drop 16 rfl hrest
  obtain ⟨hseq, hrest⟩ := be_field_of_drop 18 rfl hrest
  obtain ⟨hack, -⟩ := be_field_of_drop 20 rfl hrest
  simp only [UtpHeader.decode_fixed, hzero, hone, hid, hmicros, hdelta, hwindow, hseq, hack]
  simp [reject_if, hlength, ok_or, hversion]

/-- A version 1 packet is read back, with the kind of its first extension filled in. -/
theorem decode_encode_with_extensions (hversion : header.version = UTP_VERSION)
    (h : header.encode_with_extensions extensions payload = .ok buf) :
    UtpHeader.decode_with_extensions buf =
      .ok ({ header with extension := first_kind extensions }, extensions, payload) := by
  simp only [UtpHeader.encode_with_extensions, extension_bytes, bind_eq_ok_iff, Except.ok.injEq] at h
  obtain ⟨total, htotal, rfl⟩ := h
  have hchain : ∀ fuel, (encode_extensions extensions ++ payload).length ≤ fuel →
      decode_extensions fuel (first_kind extensions) (encode_extensions extensions ++ payload) =
        .ok (extensions, payload) := by
    intro fuel hfuel
    have hlength := length_le_encode_extensions extensions
    rw [List.length_append] at hfuel
    exact decode_encode_extensions (extension_bytes_encodable htotal) (by omega)
  rw [List.append_assoc, UtpHeader.decode_with_extensions, decode_fixed_encode_prefix hversion rfl, bind_ok,
    List.drop_left' (encode_prefix_length rfl), hchain _ (by simp), bind_ok]

/-! What is decoded is encoded again. -/

theorem from_u8_eq_some {byte : UInt8} {typ : UtpType} (h : UtpType.from_u8 byte = some typ) : byte = typ.as_u8 := by
  unfold UtpType.from_u8 at h
  split_ifs at h <;> cases h <;> assumption

/-- The two nibbles of a byte. -/
theorem nibbles (byte : UInt8) : byte >>> 4 <<< 4 ||| byte &&& 0x0f = byte := by
  have hbits : ∀ bits : BitVec 8, bits >>> 4 <<< 4 ||| bits &&& 0x0f = bits := by decide
  exact UInt8.toBitVec_inj.mp (hbits byte.toBitVec)

theorem encode_decode_extensions {fuel : Nat} {kind : UInt8}
    (h : decode_extensions fuel kind buf = .ok (extensions, payload)) :
    first_kind extensions = kind ∧ encode_extensions extensions ++ payload = buf ∧
      ∀ extension ∈ extensions, extension.Encodable := by
  induction fuel generalizing kind buf extensions with
  | zero =>
    rw [decode_extensions] at h
    split at h
    · next hzero =>
      cases h
      exact ⟨hzero.symm, rfl, nofun⟩
    · exact nomatch h
  | succ fuel ih =>
    unfold decode_extensions at h
    split at h
    · next hzero =>
      cases h
      exact ⟨hzero.symm, rfl, nofun⟩
    · next hkind =>
      split at h
      · next following length body =>
        simp only [eq_ok_iff] at h
        obtain ⟨⟨⟩, hlength, ⟨rest, payload⟩, hrest, h⟩ := h
        cases h
        obtain ⟨hfirst, hbody, hencodable⟩ := ih hrest
        have hsize : (body.take length.toNat).length = length.toNat := List.length_take_of_le (by omega)
        refine ⟨rfl, ?_, List.forall_mem_cons.mpr ⟨⟨hkind, ?_⟩, hencodable⟩⟩
        · rw [encode_extensions, hfirst, hsize, UInt8.ofNat_toNat, List.cons_append, List.cons_append,
            List.append_assoc,
            hbody, List.take_append_drop]
        · have hlt := length.toNat_lt
          dsimp only
          omega
      · exact nomatch h

theorem to_be_be_field (size start : Nat) (hle : start + size ≤ buf.length) :
    to_be size (be_field buf start (start + size) % 256 ^ size) = (buf.drop start).take size := by
  have hlength : ((buf.drop start).take size).length = size := by
    rw [List.length_take, List.length_drop]
    omega
  have h := to_be_from_be ((buf.drop start).take size)
  rw [hlength] at h
  rw [to_be_mod, be_field, Nat.add_sub_cancel_left, h]

theorem encode_decode_fixed (h : UtpHeader.decode_fixed buf = .ok header) :
    UtpHeader.encode_prefix header header.extension = buf.take UtpHeader.SIZE := by
  simp only [UtpHeader.decode_fixed, eq_ok_iff, not_not] at h
  obtain ⟨⟨⟩, hlength, typ, htyp, ⟨⟩, hversion, h⟩ := h
  unfold UtpHeader.SIZE at hlength ⊢
  have hpair : [type_and_version typ (buf.getD 0 0 &&& 0x0f), buf.getD 1 0] = buf.take 2 := by
    have hfirst := nibbles (buf.getD 0 0)
    rw [from_u8_eq_some htyp, hversion] at hfirst
    rw [hversion, type_and_version]
    rcases buf with _ | ⟨first, _ | ⟨second, rest⟩⟩
    · exact absurd (by simp) hlength
    · exact absurd (by simp) hlength
    · exact congrArg (· :: _) hfirst
  have htwo (start : Nat) (hle : start + 2 ≤ buf.length) :
      to_be 2 (UInt16.ofNat (be_field buf start (start + 2))).toNat = (buf.drop start).take 2 :=
    UInt16.toNat_ofNat' ▸ to_be_be_field 2 start hle
  have hfour (start : Nat) (hle : start + 4 ≤ buf.length) :
      to_be 4 (UInt32.ofNat (be_field buf start (start + 4))).toNat = (buf.drop start).take 4 :=
    UInt32.toNat_ofNat' ▸ to_be_be_field 4 start hle
  cases h
  unfold UtpHeader.encode_prefix
  simp only [hpair]
  rw [htwo 2 (by omega), hfour 4 (by omega), hfour 8 (by omega), hfour 12 (by omega), htwo 16 (by omega),
    htwo 18 (by omega)]
  simp only [← List.take_add]

/-- A chain that fits into memory has a length. -/
theorem extension_bytes_eq_ok (start : Nat) (hencodable : ∀ extension ∈ extensions, extension.Encodable)
    (hfits : start + (encode_extensions extensions).length ≤ usize.MAX) :
    ∃ total, extensions.foldlM add_extension start = .ok total := by
  induction extensions generalizing start with
  | nil => exact ⟨start, rfl⟩
  | cons extension rest ih =>
    obtain ⟨⟨hkind, hlength⟩, hrest⟩ := List.forall_mem_cons.mp hencodable
    simp only [encode_extensions, List.length_cons, List.length_append] at hfits
    obtain ⟨total, htotal⟩ := ih (start + (2 + extension.data.length)) hrest (by omega)
    refine ⟨total, ?_⟩
    simp only [List.foldlM_cons, add_extension, eq_ok_iff, checked_add_eq_some_iff]
    exact ⟨_, ⟨⟨⟩, hkind, ⟨⟩, by omega, by omega, rfl⟩, htotal⟩

end

/-- A version 1 packet whose chain fits into memory is read back, with the kind of the first extension in its header.
What has been read is written again byte for byte. -/
theorem UtpHeader.round_trips_with_extensions :
    (∀ (header : UtpHeader) (extensions : Vec UtpExtension) (payload : Bytes), header.version = UTP_VERSION →
      (∀ extension ∈ extensions, extension.kind ≠ 0 ∧ extension.data.length ≤ 255) →
      (encode_extensions extensions).length ≤ usize.MAX →
      ∃ buf, header.encode_with_extensions extensions payload = .ok buf ∧
        UtpHeader.decode_with_extensions buf =
          .ok ({ header with extension := first_kind extensions }, extensions, payload)) ∧
    ∀ (buf : Bytes) (header : UtpHeader) (extensions : Vec UtpExtension) (payload : Bytes),
      buf.length ≤ usize.MAX → UtpHeader.decode_with_extensions buf = .ok (header, extensions, payload) →
        header.encode_with_extensions extensions payload = .ok buf := by
  constructor
  · intro header extensions payload hversion hencodable hfits
    obtain ⟨total, htotal⟩ := extension_bytes_eq_ok 0 hencodable (by omega)
    have hencode : header.encode_with_extensions extensions payload = .ok _ := bind_eq_ok_iff.mpr ⟨total, htotal, rfl⟩
    exact ⟨_, hencode, decode_encode_with_extensions hversion hencode⟩
  · intro buf header extensions payload hbuf h
    simp only [UtpHeader.decode_with_extensions, bind_eq_ok_iff] at h
    obtain ⟨fixed, hfixed, ⟨chain, rest⟩, hchain, h⟩ := h
    cases h
    obtain ⟨hkind, hdrop, hencodable⟩ := encode_decode_extensions hchain
    have hlength := congrArg List.length hdrop
    rw [List.length_append, List.length_drop] at hlength
    obtain ⟨total, htotal⟩ := extension_bytes_eq_ok 0 hencodable (by omega)
    refine bind_eq_ok_iff.mpr ⟨total, htotal, ?_⟩
    rw [hkind, encode_decode_fixed hfixed, List.append_assoc, hdrop, List.take_append_drop]

/-- A packet with two extensions, and one that consists of its header. -/
theorem UtpHeader.round_trips_two_extensions :
    (∃ buf, UtpHeader.encode_with_extensions ⟨.Data, 1, 0, 7, 1, 2, 3, 4, 5⟩ [⟨1, [9]⟩, ⟨2, []⟩] [8] = .ok buf ∧
      UtpHeader.decode_with_extensions buf = .ok (⟨.Data, 1, 1, 7, 1, 2, 3, 4, 5⟩, [⟨1, [9]⟩, ⟨2, []⟩], [8])) ∧
    UtpHeader.encode_with_extensions ⟨.State, 1, 0, 0, 0, 0, 0, 0, 0⟩ [] [] = .ok (0x21 :: List.replicate 19 0) :=
  ⟨UtpHeader.round_trips_with_extensions.1 _ _ _ rfl (by decide) (by decide),
    UtpHeader.round_trips_with_extensions.2 _ _ _ _ (by decide) rfl⟩

/-- The kind of the first extension is not taken from the header. -/
theorem UtpHeader.extension_not_kept :
    ∃ buf, UtpHeader.encode_with_extensions ⟨.Data, 1, 7, 0, 0, 0, 0, 0, 0⟩ [] [] = .ok buf ∧
      UtpHeader.decode_with_extensions buf ≠ .ok (⟨.Data, 1, 7, 0, 0, 0, 0, 0, 0⟩, [], []) :=
  ⟨0x01 :: List.replicate 19 0, rfl, by decide⟩

end swarmotter.utp

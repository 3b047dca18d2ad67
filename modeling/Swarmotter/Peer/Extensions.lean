import Mathlib.Data.List.Nodup
import Swarmotter.Meta.Parse

open swarmotter.bencode swarmotter.meta

namespace swarmotter.extensions

/-- The BEP 10 message id of the extension handshake. -/
def EXTENSION_HANDSHAKE_ID : UInt8 := 0

def UT_METADATA_NAME : String := "ut_metadata"

/-- The piece size of a BEP 9 exchange. -/
def METADATA_PIECE_SIZE : Nat := 16 * 1024

/-- A bencoded string. -/
def write_bytes (bytes : Bytes) : Bytes := decimal.render bytes.length ++ b ':' :: bytes

/-- `i`, the decimal of an unsigned integer, `e`. -/
def write_int (n : Nat) : Bytes := b 'i' :: (decimal.render n ++ [b 'e'])

/-- An optional integer entry of a dictionary that is written by hand. -/
def write_entry (key : String) : Option Nat → Bytes
  | some n => write_bytes (as_bytes key) ++ write_int n
  | none => []

/-- A number that a fixed-width unsigned type holds, as `try_from` an `i64` reads it. -/
def try_from_i64 (bound : Nat) (n : Int64) : Option Nat :=
  if 0 ≤ n.toInt ∧ n.toInt.toNat < bound then some n.toInt.toNat else none

/-! The BEP 10 handshake. -/

/-- The order in which a handshake lists its extensions. -/
def by_name (extensions : Vec (String × UInt8)) : Vec (String × UInt8) :=
  extensions.mergeSort fun left right => as_bytes left.1 ≤ as_bytes right.1

/-- Only the entries of the `m` dictionary are sorted: `v` stands before `metadata_size`. -/
def encode_extension_handshake_payload (extensions : Vec (String × UInt8)) (client_version : String)
    (metadata_size reqq : Option Nat) : Bytes :=
  let exts := by_name extensions
  b 'd' :: (write_bytes (as_bytes "m") ++
    (b 'd' :: (exts.flatMap fun ext => write_bytes (as_bytes ext.1) ++ write_int ext.2.toNat) ++ [b 'e']) ++
    write_bytes (as_bytes "v") ++ write_bytes (as_bytes client_version) ++
    write_entry "metadata_size" metadata_size ++ write_entry "reqq" (reqq.filter (0 < ·)) ++ [b 'e'])

def encode_extension_handshake (extensions : Vec (String × UInt8)) (client_version : String)
    (metadata_size : Option Nat) : Bytes :=
  encode_extension_handshake_payload extensions client_version metadata_size none

structure ExtensionHandshake where
  extensions : Vec (String × UInt8)
  client_version : Option String
  metadata_size : Option Nat
  reqq : Option Nat
  deriving DecidableEq

/-- The loop over the `m` dictionary. An entry whose key is not text or whose value is not an integer is
    passed over. -/
def read_extensions : Dict → Result (Vec (String × UInt8))
  | [] => pure []
  | (key, value) :: rest =>
    match from_utf8 key, value.as_int with
    | some name, some id => do
      let id ← ok_or (try_from_i64 256 id) (.Parse "extension id out of range")
      let extensions ← read_extensions rest
      pure ((name, UInt8.ofNat id) :: extensions)
    | _, _ => read_extensions rest

/-- An optional integer entry that must fit a `u64`. -/
def read_size (dict : Dict) (key : String) (error : CoreError) : Result (Option Nat) :=
  match get_int dict key with
  | some value => do
    let size ← ok_or (try_from_i64 (2 ^ 64) value) error
    pure (some size)
  | none => pure none

def parse_extension_handshake (payload : Bytes) : Result ExtensionHandshake := do
  let root ← decode payload
  let dict ← ok_or root.as_dict (.Parse "extension handshake not a dict")
  let extensions ← match (lookup dict "m").bind Value.as_dict with
    | some mdict => read_extensions mdict
    | none => pure []
  let client_version := (lookup dict "v").bind Value.as_str_utf8
  let metadata_size ← read_size dict "metadata_size" (.Parse "metadata_size out of range")
  let reqq ← read_size dict "reqq" (.Parse "reqq out of range")
  pure ⟨extensions, client_version, metadata_size, reqq.filter (0 < ·)⟩

def ExtensionHandshake.id_for (handshake : ExtensionHandshake) (name : String) : Option UInt8 :=
  (handshake.extensions.find? fun extension => extension.1 = name).map Prod.snd

/-! The BEP 9 messages. -/

inductive MetadataMsgType where
  | Request
  | Data
  | Reject
  deriving DecidableEq

def MetadataMsgType.as_int : MetadataMsgType → Nat
  | Request => 0
  | Data => 1
  | Reject => 2

/-- The dictionary of a `ut_metadata` message. -/
def encode_metadata_dict (msg_type : MetadataMsgType) (piece : UInt32) (total_size : Option Nat) : Bytes :=
  b 'd' :: (write_entry "msg_type" (some msg_type.as_int) ++ write_entry "piece" (some piece.toNat) ++
    write_entry "total_size" total_size ++ [b 'e'])

def encode_metadata_request (piece : UInt32) : Bytes := encode_metadata_dict .Request piece none

def encode_metadata_reject (piece : UInt32) : Bytes := encode_metadata_dict .Reject piece none

/-- The metadata bytes follow the dictionary. -/
def encode_metadata_data (piece : UInt32) (total_size : Nat) (data : Bytes) : Bytes :=
  encode_metadata_dict .Data piece (some total_size) ++ data

structure MetadataMessage where
  msg_type : MetadataMsgType
  piece : UInt32
  total_size : Option Nat
  data : Bytes
  deriving DecidableEq

def parse_msg_type (msg_type : Int64) : Result MetadataMsgType :=
  let value := msg_type.toInt
  if value = 0 then pure .Request
  else if value = 1 then pure .Data
  else if value = 2 then pure .Reject
  else .error (.Parse s!"bad metadata msg_type {value}")

def parse_metadata_message (payload : Bytes) : Result MetadataMessage := do
  let (root, consumed) ← decode_prefix payload
  let dict ← ok_or root.as_dict (.Parse "metadata message not a dict")
  let msg_type ← ok_or (get_int dict "msg_type") (.Parse "metadata message missing msg_type")
  let msg_type ← parse_msg_type msg_type
  let piece ← ok_or (get_int dict "piece") (.Parse "metadata message missing piece")
  let piece ← ok_or (try_from_i64 (2 ^ 32) piece) (.Parse "metadata piece out of range")
  let total_size ← read_size dict "total_size" (.Parse "metadata total_size out of range")
  pure ⟨msg_type, UInt32.ofNat piece, total_size, payload.drop consumed⟩

/-- The number of pieces of a metadata blob. -/
def metadata_pieces (total_size : Nat) : Nat := div_ceil total_size METADATA_PIECE_SIZE

/-! Lengths. -/

theorem length_write_bytes (bytes : Bytes) :
    (write_bytes bytes).length = (decimal.render bytes.length).length + 1 + bytes.length := length_serialize_str bytes

theorem length_write_int_le {n : Nat} (h : n < 2 ^ 63) : (write_int n).length ≤ 21 := by
  have hdigits := decimal.length_render_le (by decide : 0 < 19) (h.trans (by decide) : n < 10 ^ 19)
  rw [write_int, List.length_cons, List.length_append, List.length_singleton]
  omega

theorem length_write_entry_le (key : String) {value : Option Nat} (h : ∀ n ∈ value, n < 2 ^ 63) :
    (write_entry key value).length ≤ (write_bytes (as_bytes key)).length + 21 := by
  cases value with
  | none => exact Nat.zero_le _
  | some n =>
    have hint := length_write_int_le (h n rfl)
    rw [write_entry, List.length_append]
    omega

theorem MetadataMsgType.as_int_lt (msg_type : MetadataMsgType) : ∀ n ∈ some msg_type.as_int, n < 2 ^ 63 := by
  rintro n ⟨⟩
  cases msg_type <;> decide

theorem piece_lt (piece : UInt32) : ∀ n ∈ some piece.toNat, n < 2 ^ 63 := by
  rintro n ⟨⟩
  have hlt := piece.toNat_lt
  omega

theorem length_encode_metadata_dict_le (msg_type : MetadataMsgType) (piece : UInt32) {total_size : Option Nat}
    (hsize : ∀ n ∈ total_size, n < 2 ^ 63) : (encode_metadata_dict msg_type piece total_size).length ≤ 100 := by
  have htype := length_write_entry_le "msg_type" msg_type.as_int_lt
  have hpiece := length_write_entry_le "piece" (piece_lt piece)
  have htotal := length_write_entry_le "total_size" hsize
  have hkey_type : (write_bytes (as_bytes "msg_type")).length = 10 := by decide
  have hkey_piece : (write_bytes (as_bytes "piece")).length = 7 := by decide
  have hkey_total : (write_bytes (as_bytes "total_size")).length = 13 := by decide
  simp only [encode_metadata_dict, List.length_cons, List.length_append, List.length_nil]
  omega

/-! What is written is read back. -/

theorem toInt_ofNat {n : Nat} (h : n < 2 ^ 63) : (Int64.ofNat n).toInt = n := Int64.toInt_ofNat_of_lt h

theorem try_from_i64_ofNat {n bound : Nat} (h : n < 2 ^ 63) (hbound : n < bound) :
    try_from_i64 bound (Int64.ofNat n) = some n := by
  simp [try_from_i64, toInt_ofNat h, hbound]

theorem write_int_eq {n : Nat} (h : n < 2 ^ 63) : write_int n = (Value.Int (Int64.ofNat n)).serialize := by
  have hint : serialize_int (Int64.ofNat n) = decimal.render n := by
    simp [serialize_int, toInt_ofNat h]
  rw [write_int, Value.serialize, hint]

/-- The entry that `write_entry` writes. -/
def int_entry (key : String) : Option Nat → Dict
  | some n => [(as_bytes key, .Int (Int64.ofNat n))]
  | none => []

theorem write_entry_eq {key : String} {value : Option Nat} (h : ∀ n ∈ value, n < 2 ^ 63) :
    write_entry key value = Value.serialize_entries (int_entry key value) := by
  cases value with
  | none => rfl
  | some n =>
    rw [write_entry, int_entry, Value.serialize_entries, Value.serialize_entries, List.append_nil,
      write_int_eq (h n rfl)]
    rfl

theorem keys_int_entry (key : String) (value : Option Nat) :
    ((int_entry key value).map Prod.fst).Sublist [as_bytes key] := by
  cases value with
  | none => exact List.nil_sublist _
  | some n => exact List.Sublist.refl _

@[simp] theorem distinctKeysEntries_int_entry (key : String) (value : Option Nat) :
    Value.DistinctKeysEntries (int_entry key value) := by
  cases value <;> simp [int_entry, Value.DistinctKeysEntries, Value.DistinctKeys]

@[simp] theorem depth_int_entry (key : String) (value : Option Nat) :
    Value.depth_entries (int_entry key value) = 0 := by
  cases value <;> simp [int_entry, Value.depth_entries, Value.depth]

theorem nodes_int_entry_le (key : String) (value : Option Nat) : Value.nodes_entries (int_entry key value) ≤ 2 := by
  cases value <;> simp [int_entry, Value.nodes_entries, Value.nodes]

theorem read_size_eq {dict : Dict} {key : String} {value : Option Nat} (h : ∀ n ∈ value, n < 2 ^ 63)
    (hget : get_int dict key = value.map Int64.ofNat) (error : CoreError) :
    read_size dict key error = .ok value := by
  cases value with
  | none => simp [read_size, hget]
  | some n =>
    have hn := h n rfl
    have hread := try_from_i64_ofNat hn (show n < 2 ^ 64 by omega)
    simp only [read_size, hget, Option.map_some, hread, ok_or, bind_ok, pure_eq_ok]

/-- The dictionary of a `ut_metadata` message as a value. -/
def metadata_dict (msg_type : MetadataMsgType) (piece : UInt32) (total_size : Option Nat) : Dict :=
  int_entry "msg_type" (some msg_type.as_int) ++ int_entry "piece" (some piece.toNat) ++
    int_entry "total_size" total_size

section
variable {msg_type : MetadataMsgType} {piece : UInt32} {total_size : Option Nat}

theorem encode_metadata_dict_eq (hsize : ∀ n ∈ total_size, n < 2 ^ 63) :
    encode_metadata_dict msg_type piece total_size =
      (Value.Dict (metadata_dict msg_type piece total_size)).serialize := by
  rw [encode_metadata_dict, Value.serialize, metadata_dict, Value.serialize_entries_append,
    Value.serialize_entries_append, write_entry_eq msg_type.as_int_lt, write_entry_eq (piece_lt piece),
    write_entry_eq hsize]

theorem metadata_dict_admissible : (Value.Dict (metadata_dict msg_type piece total_size)).Admissible := by
  have hkeys : [as_bytes "msg_type", as_bytes "piece", as_bytes "total_size"].Nodup := by decide
  refine ⟨⟨hkeys.sublist ?_, ?_⟩, ?_, ?_⟩
  · rw [metadata_dict, List.map_append, List.map_append]
    exact ((keys_int_entry _ _).append (keys_int_entry _ _)).append (keys_int_entry _ _)
  · simp [metadata_dict, Value.distinctKeysEntries_append]
  · simp [metadata_dict, Value.depth, Value.depth_entries_append, MAX_BENCODE_DEPTH]
  · have hsize := nodes_int_entry_le "total_size" total_size
    have htype := nodes_int_entry_le "msg_type" (some msg_type.as_int)
    have hpiece := nodes_int_entry_le "piece" (some piece.toNat)
    simp only [metadata_dict, Value.nodes, Value.nodes_entries_append, MAX_BENCODE_NODES]
    omega

/-- A message is read back with the bytes that follow its dictionary, whatever they are. -/
theorem parse_metadata_message_encode (hsize : ∀ n ∈ total_size, n < 2 ^ 63) (data : Bytes)
    (hlength : (encode_metadata_dict msg_type piece total_size ++ data).length ≤ MAX_TORRENT_METADATA_BYTES) :
    parse_metadata_message (encode_metadata_dict msg_type piece total_size ++ data) =
      .ok ⟨msg_type, piece, total_size, data⟩ := by
  have hdecode : decode_prefix (encode_metadata_dict msg_type piece total_size ++ data) =
      .ok (.Dict (metadata_dict msg_type piece total_size),
        (encode_metadata_dict msg_type piece total_size).length) := by
    rw [decode_prefix_eq_ok_iff]
    refine ⟨hlength, metadata_dict_admissible, ?_, ?_⟩
    · rw [← encode_metadata_dict_eq hsize]
      exact List.prefix_append _ _
    · rw [← encode_metadata_dict_eq hsize]
  have htype : get_int (metadata_dict msg_type piece total_size) "msg_type" = some (Int64.ofNat msg_type.as_int) := rfl
  have hpiece : get_int (metadata_dict msg_type piece total_size) "piece" = some (Int64.ofNat piece.toNat) := rfl
  have hparsed : parse_msg_type (Int64.ofNat msg_type.as_int) = .ok msg_type := by cases msg_type <;> rfl
  have hindex : try_from_i64 (2 ^ 32) (Int64.ofNat piece.toNat) = some piece.toNat := by
    have hlt := piece.toNat_lt
    exact try_from_i64_ofNat (by omega) hlt
  have htotal : read_size (metadata_dict msg_type piece total_size) "total_size"
      (.Parse "metadata total_size out of range") = .ok total_size := by
    apply read_size_eq hsize
    cases total_size <;> rfl
  simp only [parse_metadata_message, hdecode, bind_ok, Value.as_dict, ok_or, htype, hparsed, hpiece, hindex, htotal,
    List.drop_left, UInt32.ofNat_toNat, pure_eq_ok]

end

/-- A data message is read back as it was written, exactly if the decoder takes a payload of its length. -/
theorem parse_encode_metadata_data_iff (piece : UInt32) {total_size : Nat} (hsize : total_size < 2 ^ 63)
    (data : Bytes) :
    parse_metadata_message (encode_metadata_data piece total_size data) = .ok ⟨.Data, piece, some total_size, data⟩ ↔
      (encode_metadata_data piece total_size data).length ≤ MAX_TORRENT_METADATA_BYTES := by
  constructor
  · intro hparse
    rw [parse_metadata_message, bind_eq_ok_iff] at hparse
    obtain ⟨⟨root, consumed⟩, hdecode, -⟩ := hparse
    exact (decode_prefix_eq_ok_iff.mp hdecode).1
  · intro hlength
    have hentry : ∀ n ∈ some total_size, n < 2 ^ 63 := by
      rintro n ⟨⟩
      exact hsize
    exact parse_metadata_message_encode hentry data hlength

/-- The bytes that follow may look like the rest of a dictionary. -/
theorem parse_encode_metadata_data_iff_bencoded :
    26 < 2 ^ 63 ∧ parse_metadata_message (encode_metadata_data 4294967295 26 (as_bytes "3:key5:valueed1:ai1ee")) =
      .ok ⟨.Data, 4294967295, some 26, as_bytes "3:key5:valueed1:ai1ee"⟩ :=
  ⟨by decide, (parse_encode_metadata_data_iff 4294967295 (by decide) _).mpr (by decide)⟩

/-- The entries of the `m` dictionary as values. -/
def extension_entries (exts : Vec (String × UInt8)) : Dict :=
  exts.map fun ext => (as_bytes ext.1, .Int (Int64.ofNat ext.2.toNat))

section
variable (exts : Vec (String × UInt8))

theorem id_lt (id : UInt8) : id.toNat < 2 ^ 63 := Nat.lt_of_lt_of_le id.toNat_lt (by decide)

theorem serialize_extension_entries :
    Value.serialize_entries (extension_entries exts) =
      exts.flatMap fun ext => write_bytes (as_bytes ext.1) ++ write_int ext.2.toNat := by
  induction exts with
  | nil => rfl
  | cons ext exts ih =>
    rw [List.flatMap_cons, ← ih, write_int_eq (id_lt _), List.append_assoc]
    rfl

theorem distinctKeysEntries_extension_entries : Value.DistinctKeysEntries (extension_entries exts) := by
  induction exts with
  | nil => trivial
  | cons ext exts ih => exact ⟨trivial, ih⟩

theorem depth_extension_entries : Value.depth_entries (extension_entries exts) = 0 := by
  induction exts with
  | nil => rfl
  | cons ext exts ih =>
    rw [extension_entries, List.map_cons, Value.depth_entries]
    exact (Nat.zero_max _).trans ih

theorem nodes_extension_entries : Value.nodes_entries (extension_entries exts) = 2 * exts.length := by
  induction exts with
  | nil => rfl
  | cons ext exts ih =>
    have htail : Value.nodes_entries (extension_entries (ext :: exts)) =
        1 + 1 + Value.nodes_entries (extension_entries exts) := rfl
    rw [htail, ih, List.length_cons]
    omega

theorem nodup_extension_entries (h : (exts.map Prod.fst).Nodup) : ((extension_entries exts).map Prod.fst).Nodup := by
  have hkeys : (extension_entries exts).map Prod.fst = (exts.map Prod.fst).map as_bytes := by
    simp [extension_entries, Function.comp_def]
  rw [hkeys]
  exact List.Nodup.map (fun _ _ => as_bytes_injective) h

theorem read_extensions_extension_entries : read_extensions (extension_entries exts) = .ok exts := by
  induction exts with
  | nil => rfl
  | cons ext exts ih =>
    obtain ⟨name, id⟩ := ext
    have hid := try_from_i64_ofNat (id_lt id) id.toNat_lt
    have hentries : extension_entries ((name, id) :: exts) =
        (as_bytes name, .Int (Int64.ofNat id.toNat)) :: extension_entries exts := rfl
    have hbound : 2 ^ 8 = 256 := rfl
    rw [hbound] at hid
    simp only [hentries, read_extensions, from_utf8_as_bytes, Value.as_int, hid, ok_or, ih, bind_ok, pure_eq_ok,
      UInt8.ofNat_toNat]

end

/-- The extension handshake as a value. -/
def handshake_dict (exts : Vec (String × UInt8)) (client_version : String) (metadata_size reqq : Option Nat) : Dict :=
  [(as_bytes "m", .Dict (extension_entries exts)), (as_bytes "v", .Str (as_bytes client_version))] ++
    int_entry "metadata_size" metadata_size ++ int_entry "reqq" reqq

section
variable {extensions : Vec (String × UInt8)} {client_version : String} {metadata_size reqq : Option Nat}

theorem encode_extension_handshake_payload_eq (hsize : ∀ n ∈ metadata_size, n < 2 ^ 63)
    (hreqq : ∀ n ∈ reqq, n < 2 ^ 63) :
    encode_extension_handshake_payload extensions client_version metadata_size reqq =
      (Value.Dict (handshake_dict (by_name extensions) client_version metadata_size
        (reqq.filter (0 < ·)))).serialize := by
  have hfilter : ∀ n ∈ reqq.filter (0 < ·), n < 2 ^ 63 := by
    intro n hn
    exact hreqq n (Option.mem_filter_iff.mp hn).1
  simp only [encode_extension_handshake_payload, Value.serialize, handshake_dict, Value.serialize_entries_append,
    Value.serialize_entries, serialize_extension_entries, write_entry_eq hsize, write_entry_eq hfilter,
    List.append_assoc, List.cons_append]
  rfl

theorem handshake_dict_admissible {exts : Vec (String × UInt8)} (hnodup : (exts.map Prod.fst).Nodup)
    (hnodes : (Value.Dict (handshake_dict exts client_version metadata_size reqq)).nodes ≤ MAX_BENCODE_NODES) :
    (Value.Dict (handshake_dict exts client_version metadata_size reqq)).Admissible := by
  have hkeys : [as_bytes "m", as_bytes "v", as_bytes "metadata_size", as_bytes "reqq"].Nodup := by decide
  refine ⟨⟨hkeys.sublist ?_, ?_⟩, ?_, hnodes⟩
  · rw [handshake_dict, List.map_append, List.map_append]
    exact ((List.Sublist.refl [as_bytes "m", as_bytes "v"]).append (keys_int_entry _ _)).append (keys_int_entry _ _)
  · simp [handshake_dict, Value.DistinctKeysEntries, Value.DistinctKeys, Value.distinctKeysEntries_append,
      nodup_extension_entries exts hnodup, distinctKeysEntries_extension_entries]
  · simp [handshake_dict, Value.depth, Value.depth_entries, Value.depth_entries_append, depth_extension_entries,
      MAX_BENCODE_DEPTH]

theorem nodes_handshake_dict_le (extensions : Vec (String × UInt8)) :
    (Value.Dict (handshake_dict (by_name extensions) client_version metadata_size reqq)).nodes ≤
      2 * extensions.length + 9 := by
  have hlength : (by_name extensions).length = extensions.length := List.length_mergeSort _
  have hsize := nodes_int_entry_le "metadata_size" metadata_size
  have hreqq := nodes_int_entry_le "reqq" reqq
  simp only [handshake_dict, Value.nodes, Value.nodes_entries, Value.nodes_entries_append, nodes_extension_entries]
  omega

/-- A handshake is read back with its extensions in the order of their names. -/
theorem parse_extension_handshake_encode (hnodup : (extensions.map Prod.fst).Nodup)
    (hsize : ∀ n ∈ metadata_size, n < 2 ^ 63) (hreqq : ∀ n ∈ reqq, n < 2 ^ 63)
    (hnodes : (Value.Dict (handshake_dict (by_name extensions) client_version metadata_size
      (reqq.filter (0 < ·)))).nodes ≤ MAX_BENCODE_NODES)
    (hlength : (encode_extension_handshake_payload extensions client_version metadata_size reqq).length ≤
      MAX_TORRENT_METADATA_BYTES) :
    parse_extension_handshake (encode_extension_handshake_payload extensions client_version metadata_size reqq) =
      .ok ⟨by_name extensions, some client_version, metadata_size, reqq.filter (0 < ·)⟩ := by
  have hperm : (by_name extensions).Perm extensions := List.mergeSort_perm _ _
  have hdecode : decode (encode_extension_handshake_payload extensions client_version metadata_size reqq) =
      .ok (.Dict (handshake_dict (by_name extensions) client_version metadata_size (reqq.filter (0 < ·)))) := by
    rw [decode_eq_ok_iff]
    refine ⟨encode_extension_handshake_payload_eq hsize hreqq, ?_, hlength⟩
    exact handshake_dict_admissible ((hperm.map Prod.fst).nodup_iff.mpr hnodup) hnodes
  generalize hfilter : reqq.filter (0 < ·) = kept at hdecode
  have hkept : ∀ n ∈ kept, n < 2 ^ 63 := by
    intro n hn
    rw [← hfilter] at hn
    exact hreqq n (Option.mem_filter_iff.mp hn).1
  have hpositive : kept.filter (0 < ·) = kept := by rw [← hfilter, Option.filter_filter]; simp
  have hm : (lookup (handshake_dict (by_name extensions) client_version metadata_size kept) "m").bind
      Value.as_dict = some (extension_entries (by_name extensions)) := rfl
  have hv : (lookup (handshake_dict (by_name extensions) client_version metadata_size kept) "v").bind
      Value.as_str_utf8 = some client_version := from_utf8_as_bytes client_version
  have hread_size : read_size (handshake_dict (by_name extensions) client_version metadata_size kept)
      "metadata_size" (.Parse "metadata_size out of range") = .ok metadata_size := by
    apply read_size_eq hsize
    cases metadata_size <;> cases kept <;> rfl
  have hread_reqq : read_size (handshake_dict (by_name extensions) client_version metadata_size kept)
      "reqq" (.Parse "reqq out of range") = .ok kept := by
    apply read_size_eq hkept
    cases metadata_size <;> cases kept <;> rfl
  simp only [parse_extension_handshake, hdecode, bind_ok, Value.as_dict, ok_or, hm, hv, hread_size, hread_reqq,
    read_extensions_extension_entries, hpositive, pure_eq_ok]

theorem length_encode_single_le (name : String) (id : UInt8) (client_version : String)
    (hsize : ∀ n ∈ metadata_size, n < 2 ^ 63) :
    (encode_extension_handshake [(name, id)] client_version metadata_size).length ≤
      (write_bytes (as_bytes name)).length + (write_bytes (as_bytes client_version)).length + 100 := by
  have hid := length_write_int_le (id_lt id)
  have hentry := length_write_entry_le "metadata_size" hsize
  have hkey : (write_bytes (as_bytes "metadata_size")).length = 16 := by decide
  have hm : (write_bytes (as_bytes "m")).length = 3 := by decide
  have hv : (write_bytes (as_bytes "v")).length = 3 := by decide
  have hreqq : (write_entry "reqq" none).length = 0 := rfl
  simp only [encode_extension_handshake, encode_extension_handshake_payload, by_name, List.mergeSort_singleton,
    List.flatMap_singleton, List.length_cons, List.length_append, List.length_nil, Option.filter_none, hreqq]
  omega

/-- The handshakes that the daemon sends in a metadata exchange name one extension. -/
theorem parse_single_extension {name : String} {id : UInt8} (hname : (as_bytes name).length ≤ 100)
    (hversion : (as_bytes client_version).length ≤ 100) (hsize : ∀ n ∈ metadata_size, n < 2 ^ 63) :
    parse_extension_handshake (encode_extension_handshake [(name, id)] client_version metadata_size) =
      .ok ⟨[(name, id)], some client_version, metadata_size, none⟩ := by
  have hlength := length_encode_single_le name id client_version hsize
  have hdigits (bytes : Bytes) (h : bytes.length ≤ 100) : (write_bytes bytes).length ≤ 104 := by
    have hrender := decimal.length_render_le (by decide : 0 < 3) (show bytes.length < 10 ^ 3 by omega)
    rw [length_write_bytes]
    omega
  have hname := hdigits _ hname
  have hversion := hdigits _ hversion
  have hmax : MAX_TORRENT_METADATA_BYTES = 16777216 := rfl
  have hone : by_name [(name, id)] = [(name, id)] := List.mergeSort_singleton _
  rw [encode_extension_handshake] at hlength ⊢
  have hnodes : 2 * [(name, id)].length + 9 ≤ MAX_BENCODE_NODES := by
    rw [List.length_singleton]
    decide
  rw [parse_extension_handshake_encode (by simp) hsize (by simp) ((nodes_handshake_dict_le _).trans hnodes) (by omega),
    hone]
  rfl

end

end swarmotter.extensions

import Swarmotter.Engine.Pex

open swarmotter.net swarmotter.tracker

namespace swarmotter.bencode

/-- The keys of a dictionary, whose items are keys and values in turn. -/
def Item.keys : Vec Item → Option (Vec Bytes)
  | [] => some []
  | .Str key :: _ :: items => (keys items).map (key :: ·)
  | _ => none

mutual

/-- The keys of all dictionaries ascend. -/
def Item.Ascending : Item → Prop
  | .Int _ _ | .Str _ => True
  | .List items => AscendingItems items
  | .Dict items => (∃ keys, Item.keys items = some keys ∧ keys.Pairwise (· < ·)) ∧ AscendingItems items

def Item.AscendingItems : Vec Item → Prop
  | [] => True
  | item :: items => item.Ascending ∧ AscendingItems items

end

/-- Bytes that start with an item, which they determine, of ascending keys. -/
def Ascending (bytes : Bytes) : Prop := ∃ item tail, bytes = Item.serialize item ++ tail ∧ item.Ascending

theorem ascending_serialize_iff {item : Item} {tail : Bytes} : Ascending (item.serialize ++ tail) ↔ item.Ascending := by
  constructor
  · rintro ⟨other, tail', hbytes, hother⟩
    obtain ⟨rfl, -⟩ := Item.serialize_append_inj item other hbytes
    exact hother
  · exact fun h => ⟨item, tail, rfl, h⟩

/-- A dictionary of entries. -/
def Item.dict (entries : Vec (Bytes × Item)) : Item := .Dict (entries.flatMap fun entry => [.Str entry.1, entry.2])

theorem Item.serialize_dict (entries : Vec (Bytes × Item)) : (dict entries).serialize =
    b 'd' :: ((entries.flatMap fun entry => serialize_str entry.1 ++ entry.2.serialize) ++ [b 'e']) := by
  have hitems : serialize_items (entries.flatMap fun entry => [.Str entry.1, entry.2]) =
      entries.flatMap fun entry => serialize_str entry.1 ++ entry.2.serialize := by
    induction entries with
    | nil => rfl
    | cons entry entries ih =>
      rw [List.flatMap_cons, List.flatMap_cons, ← ih, List.append_assoc]
      rfl
  rw [dict, serialize, hitems]

theorem Item.ascending_dict_iff (entries : Vec (Bytes × Item)) :
    (dict entries).Ascending ↔ (entries.map Prod.fst).Pairwise (· < ·) ∧ ∀ entry ∈ entries, entry.2.Ascending := by
  have hkeys : Item.keys (entries.flatMap fun entry => [.Str entry.1, entry.2]) = some (entries.map Prod.fst) := by
    induction entries with
    | nil => rfl
    | cons entry entries ih =>
      rw [List.flatMap_cons]
      simp [Item.keys, ih]
  have hitems : AscendingItems (entries.flatMap fun entry => [.Str entry.1, entry.2]) ↔
      ∀ entry ∈ entries, entry.2.Ascending := by
    clear hkeys
    induction entries with
    | nil => simp [AscendingItems]
    | cons entry entries ih =>
      rw [List.flatMap_cons, List.forall_mem_cons, ← ih]
      simp [AscendingItems, Ascending]
  simp [dict, Ascending, hkeys, hitems]

def Item.int (n : Nat) : Item :=
  .Int (decimal.render n) fun hmem => absurd (decimal.is_digit_of_mem_render hmem) (by decide)

end swarmotter.bencode

namespace swarmotter.extensions

open swarmotter.bencode swarmotter.meta

/-- The addresses of one family with their ports. -/
def encode_compact (ipv6 : Bool) (peers : Vec PeerAddr) : Bytes :=
  (peers.filter fun peer => peer.ip.is_ipv6 = ipv6).flatMap fun peer =>
    peer.ip.octets ++ endian.to_be 2 peer.port.toNat

def encode_compact_ipv4 : Vec PeerAddr → Bytes := encode_compact false

def encode_compact_ipv6 : Vec PeerAddr → Bytes := encode_compact true

def encode_pex (msg : PexMessage) : Bytes :=
  b 'd' :: (write_bytes (as_bytes "added") ++ write_bytes (encode_compact_ipv4 msg.added) ++
    write_bytes (as_bytes "added.f") ++ write_bytes (List.replicate msg.added.length 0) ++
    write_bytes (as_bytes "dropped") ++ write_bytes (encode_compact_ipv4 msg.dropped) ++
    write_bytes (as_bytes "added6") ++ write_bytes (encode_compact_ipv6 msg.added6) ++
    write_bytes (as_bytes "added6.f") ++ write_bytes (List.replicate msg.added6.length 0) ++
    write_bytes (as_bytes "dropped6") ++ write_bytes (encode_compact_ipv6 msg.dropped6) ++ [b 'e'])

/-- The messages that are written by hand. -/
inductive ExtensionMessage where
  | Handshake (extensions : Vec (String × UInt8)) (client_version : String) (metadata_size : Option Nat)
  | HandshakeWithReqq (extensions : Vec (String × UInt8)) (client_version : String) (metadata_size : Option Nat)
  | Pex (msg : PexMessage)
  | MetadataRequest (piece : UInt32)
  | MetadataReject (piece : UInt32)
  | MetadataData (piece : UInt32) (total_size : Nat) (data : Bytes)

namespace ExtensionMessage

def encode : ExtensionMessage → Bytes
  | Handshake extensions client_version metadata_size =>
    encode_extension_handshake extensions client_version metadata_size
  | HandshakeWithReqq extensions client_version metadata_size =>
    encode_extension_handshake_with_reqq extensions client_version metadata_size
  | Pex msg => encode_pex msg
  | MetadataRequest piece => encode_metadata_request piece
  | MetadataReject piece => encode_metadata_reject piece
  | MetadataData piece total_size data => encode_metadata_data piece total_size data

/-- The extensions that a handshake names. -/
def named : ExtensionMessage → Vec (String × UInt8)
  | Handshake extensions _ _ | HandshakeWithReqq extensions _ _ => extensions
  | _ => []

/-- The messages whose keys are written in order. -/
def Ordered : ExtensionMessage → Prop
  | Handshake _ _ metadata_size => metadata_size = none
  | HandshakeWithReqq _ _ _ | Pex _ => False
  | MetadataRequest _ | MetadataReject _ | MetadataData _ _ _ => True

end ExtensionMessage

/-- The item that `write_entry` writes. -/
def item_entry (key : String) (value : Option Nat) : Vec (Bytes × Item) :=
  value.toList.map fun n => (as_bytes key, Item.int n)

theorem write_entry_eq_item (key : String) (value : Option Nat) : write_entry key value =
    (item_entry key value).flatMap fun entry => serialize_str entry.1 ++ entry.2.serialize := by
  cases value with
  | none => rfl
  | some n =>
    rw [item_entry, Option.toList_some, List.map_singleton, List.flatMap_singleton]
    rfl

theorem ascending_item_entry (key : String) (value : Option Nat) :
    ∀ entry ∈ item_entry key value, entry.2.Ascending := by
  cases value with
  | none => nofun
  | some n => exact List.forall_mem_singleton.mpr trivial

theorem keys_item_entry (key : String) (value : Option Nat) :
    (item_entry key value).map Prod.fst = if value.isSome then [as_bytes key] else [] := by
  cases value <;> rfl

/-- Distinct names are written in strictly ascending order. -/
theorem by_name_ascending {extensions : Vec (String × UInt8)} (hnodup : (extensions.map Prod.fst).Nodup) :
    (by_name extensions).Pairwise fun left right => as_bytes left.1 < as_bytes right.1 := by
  have hperm : (by_name extensions).Perm extensions := List.mergeSort_perm _ _
  have hdistinct : (by_name extensions).Pairwise fun left right => left.1 ≠ right.1 :=
    List.pairwise_map.mp ((hperm.map Prod.fst).nodup_iff.mpr hnodup)
  have hsorted : (by_name extensions).Pairwise fun left right => as_bytes left.1 ≤ as_bytes right.1 := by
    refine (List.pairwise_mergeSort ?_ ?_ extensions).imp of_decide_eq_true
    · intro left middle right hleft hright
      rw [decide_eq_true_eq] at *
      exact List.le_trans hleft hright
    · intro left right
      simpa using List.le_total (as_bytes left.1) (as_bytes right.1)
  refine (hsorted.and hdistinct).imp fun ⟨hle, hne⟩ => ?_
  by_contra hlt
  exact hne (as_bytes_injective (List.le_antisymm hle (List.not_lt.mp hlt)))

/-- The items of a handshake. -/
def handshake_items (exts : Vec (String × UInt8)) (client_version : String) (metadata_size reqq : Option Nat) : Item :=
  Item.dict ([(as_bytes "m", Item.dict (exts.map fun ext => (as_bytes ext.1, Item.int ext.2.toNat))),
    (as_bytes "v", .Str (as_bytes client_version))] ++ item_entry "metadata_size" metadata_size ++
      item_entry "reqq" reqq)

theorem encode_extension_handshake_payload_items (extensions : Vec (String × UInt8)) (client_version : String)
    (metadata_size reqq : Option Nat) :
    encode_extension_handshake_payload extensions client_version metadata_size reqq =
      (handshake_items (by_name extensions) client_version metadata_size (reqq.filter (0 < ·))).serialize := by
  have hstr (s : Bytes) : (Item.Str s).serialize = serialize_str s := rfl
  have hint (n : Nat) : (Item.int n).serialize = write_int n := rfl
  have hbytes (s : Bytes) : write_bytes s = serialize_str s := rfl
  simp only [encode_extension_handshake_payload, handshake_items, Item.serialize_dict, List.flatMap_append,
    List.flatMap_cons, List.flatMap_map, write_entry_eq_item, hstr, hint, hbytes, List.append_assoc, List.cons_append,
    List.nil_append]

theorem ascending_handshake_iff {extensions : Vec (String × UInt8)} (hnodup : (extensions.map Prod.fst).Nodup)
    (client_version : String) (metadata_size reqq : Option Nat) :
    Ascending (encode_extension_handshake_payload extensions client_version metadata_size reqq) ↔
      metadata_size = none ∧ reqq.filter (0 < ·) = none := by
  have hnames : (Item.dict ((by_name extensions).map fun ext => (as_bytes ext.1, Item.int ext.2.toNat))).Ascending := by
    rw [Item.ascending_dict_iff, List.map_map, List.pairwise_map]
    refine ⟨by_name_ascending hnodup, fun entry hentry => ?_⟩
    obtain ⟨ext, -, rfl⟩ := List.mem_map.mp hentry
    trivial
  generalize hkept : reqq.filter (0 < ·) = kept
  rw [← List.append_nil (encode_extension_handshake_payload _ _ _ _), encode_extension_handshake_payload_items,
    ascending_serialize_iff, handshake_items, Item.ascending_dict_iff, hkept]
  have hkeys : ([as_bytes "m", as_bytes "v"] ++ (if metadata_size.isSome then [as_bytes "metadata_size"] else []) ++
      if kept.isSome then [as_bytes "reqq"] else []).Pairwise (· < ·) ↔
        metadata_size.isSome = false ∧ kept.isSome = false := by
    cases metadata_size.isSome <;> cases kept.isSome <;> decide
  rw [List.map_append, List.map_append, keys_item_entry, keys_item_entry]
  refine (and_congr_left fun _ => hkeys).trans ?_
  simp only [Option.isSome_eq_false_iff, Option.isNone_iff_eq_none]
  refine ⟨And.left, fun hnone => ⟨hnone, ?_⟩⟩
  obtain ⟨rfl, rfl⟩ := hnone
  exact List.forall_mem_cons.mpr ⟨hnames, List.forall_mem_singleton.mpr trivial⟩

/-- A PEX message as a value. -/
def pex_dict (msg : PexMessage) : meta.Dict := [
  (as_bytes "added", .Str (encode_compact_ipv4 msg.added)),
  (as_bytes "added.f", .Str (List.replicate msg.added.length 0)),
  (as_bytes "dropped", .Str (encode_compact_ipv4 msg.dropped)),
  (as_bytes "added6", .Str (encode_compact_ipv6 msg.added6)),
  (as_bytes "added6.f", .Str (List.replicate msg.added6.length 0)),
  (as_bytes "dropped6", .Str (encode_compact_ipv6 msg.dropped6))]

theorem encode_pex_eq (msg : PexMessage) : encode_pex msg = (Value.Dict (pex_dict msg)).serialize := by
  have hbytes (s : Bytes) : serialize_str s = write_bytes s := rfl
  simp only [encode_pex, pex_dict, Value.serialize, Value.serialize_entries, hbytes, List.append_assoc, List.append_nil]

theorem not_ascending_encode_pex (msg : PexMessage) : ¬ Ascending (encode_pex msg) := by
  rw [← List.append_nil (encode_pex msg), encode_pex_eq, ← Value.serialize_to_item, ascending_serialize_iff]
  rintro ⟨⟨keys, hkeys, hascending⟩, -⟩
  obtain rfl := Option.some.inj hkeys
  revert hascending
  decide

theorem ascending_encode_metadata_dict (msg_type : MetadataMsgType) (piece : UInt32) (total_size : Option Nat)
    (data : Bytes) : Ascending (encode_metadata_dict msg_type piece total_size ++ data) := by
  have hitems :
      encode_metadata_dict msg_type piece total_size = (Item.dict (item_entry "msg_type" (some msg_type.as_int) ++
      item_entry "piece" (some piece.toNat) ++ item_entry "total_size" total_size)).serialize := by
    simp only [encode_metadata_dict, Item.serialize_dict, List.flatMap_append, write_entry_eq_item]
  rw [hitems, ascending_serialize_iff, Item.ascending_dict_iff]
  constructor
  · have hkeys : ∀ present : Bool, ([as_bytes "msg_type"] ++ [as_bytes "piece"] ++
        if present then [as_bytes "total_size"] else []).Pairwise (· < ·) := by decide
    rw [List.map_append, List.map_append, keys_item_entry, keys_item_entry, keys_item_entry]
    exact hkeys total_size.isSome
  · simp only [List.forall_mem_append]
    exact ⟨⟨ascending_item_entry _ _, ascending_item_entry _ _⟩, ascending_item_entry _ _⟩

/-- The keys of a message with distinct names are in order exactly if it is a metadata message, or a handshake that has
neither a metadata size nor a request count. -/
theorem ascending_encode_iff (message : ExtensionMessage) (hnodup : (message.named.map Prod.fst).Nodup) :
    Ascending message.encode ↔ message.Ordered := by
  cases message with
  | Handshake extensions client_version metadata_size =>
    exact (ascending_handshake_iff hnodup client_version metadata_size none).trans (and_iff_left rfl)
  | HandshakeWithReqq extensions client_version metadata_size =>
    refine (ascending_handshake_iff hnodup client_version metadata_size (some LOCAL_EXTENSION_REQQ)).trans ?_
    simp [ExtensionMessage.Ordered, LOCAL_EXTENSION_REQQ]
  | Pex msg => exact iff_false_intro (not_ascending_encode_pex msg)
  | MetadataRequest piece =>
    have hrequest := ascending_encode_metadata_dict .Request piece none []
    rw [List.append_nil] at hrequest
    exact iff_true_intro hrequest
  | MetadataReject piece =>
    have hreject := ascending_encode_metadata_dict .Reject piece none []
    rw [List.append_nil] at hreject
    exact iff_true_intro hreject
  | MetadataData piece total_size data =>
    exact iff_true_intro (ascending_encode_metadata_dict .Data piece (some total_size) data)

/-- A handshake with the size of the metadata: `v` stands before `metadata_size`. -/
theorem handshake_out_of_order : ¬ Ascending (encode_extension_handshake [("ut_metadata", 1)] "SO" (some 10)) := by
  intro h
  obtain ⟨hsize, -⟩ := (ascending_handshake_iff (by decide) "SO" (some 10) none).mp h
  cases hsize

theorem ascending_encode_iff_handshake :
    Ascending (ExtensionMessage.Handshake [("ut_pex", 2), ("ut_metadata", 1)] "SO" none).encode :=
  (ascending_encode_iff (.Handshake [("ut_pex", 2), ("ut_metadata", 1)] "SO" none) (by decide)).mpr rfl

/-- The limits of the decoder that the handshake of a daemon may reach. -/
structure InsideLimits (extensions : Vec (String × UInt8)) (client_version : String) (metadata_size reqq : Option Nat) :
    Prop where
  length : (encode_extension_handshake_payload extensions client_version metadata_size reqq).length ≤
    meta.MAX_TORRENT_METADATA_BYTES
  nodes : (Value.Dict (handshake_dict (by_name extensions) client_version metadata_size reqq)).nodes ≤
    meta.MAX_BENCODE_NODES

/-- What is announced in a handshake is read back, with the extensions in the order of their names. -/
theorem handshake_round_trip {extensions : Vec (String × UInt8)} (hnodup : (extensions.map Prod.fst).Nodup)
    (client_version : String) {metadata_size : Option Nat} (hsize : ∀ n ∈ metadata_size, n < 2 ^ 63) :
    ∃ exts : Vec (String × UInt8), exts.Perm extensions ∧
      (exts.Pairwise fun left right => as_bytes left.1 < as_bytes right.1) ∧
      (InsideLimits extensions client_version metadata_size none →
        parse_extension_handshake (encode_extension_handshake extensions client_version metadata_size) =
          .ok ⟨exts, some client_version, metadata_size, none⟩) ∧
      (InsideLimits extensions client_version metadata_size (some LOCAL_EXTENSION_REQQ) →
        parse_extension_handshake (encode_extension_handshake_with_reqq extensions client_version metadata_size) =
          .ok ⟨exts, some client_version, metadata_size, some LOCAL_EXTENSION_REQQ⟩) := by
  refine ⟨by_name extensions, List.mergeSort_perm _ _, by_name_ascending hnodup, fun hlimits => ?_, fun hlimits => ?_⟩
  · exact parse_extension_handshake_encode hnodup hsize nofun hlimits.nodes hlimits.length
  · have hreqq : ∀ n ∈ some LOCAL_EXTENSION_REQQ, n < 2 ^ 63 := by decide
    exact parse_extension_handshake_encode hnodup hsize hreqq hlimits.nodes hlimits.length

theorem handshake_round_trip_two : ∃ exts : Vec (String × UInt8), exts.Perm [("ut_metadata", 1), ("ut_pex", 2)] ∧
    parse_extension_handshake
      (encode_extension_handshake_with_reqq [("ut_metadata", 1), ("ut_pex", 2)] "SO" (some 10)) =
      .ok ⟨exts, some "SO", some 10, some 250⟩ := by
  have hsorted : by_name [("ut_metadata", 1), ("ut_pex", 2)] = [("ut_metadata", 1), ("ut_pex", 2)] :=
    List.mergeSort_of_pairwise (by decide +kernel)
  obtain ⟨exts, hperm, -, -, hreqq⟩ := handshake_round_trip
    (by decide : (([("ut_metadata", 1), ("ut_pex", 2)] : Vec (String × UInt8)).map Prod.fst).Nodup) "SO"
    (by decide : ∀ n ∈ some 10, n < 2 ^ 63)
  refine ⟨exts, hperm, hreqq ⟨?_, (nodes_handshake_dict_le _).trans (by decide)⟩⟩
  simp only [encode_extension_handshake_payload, hsorted]
  decide +kernel

/-- The addresses of a family as its parser reads them. -/
structure CompactFamily (ipv6 : Bool) (size : Nat) (address : Bytes → IpAddr) : Prop where
  length_octets {ip : IpAddr} (h : ip.is_ipv6 = ipv6) : ip.octets.length = size
  address_octets {ip : IpAddr} (h : ip.is_ipv6 = ipv6) : address ip.octets = ip

theorem compact_ipv4 : CompactFamily false 4 fun octets => .V4 ⟨Vector.ofFn fun i => octets.getD i 0⟩ := by
  constructor
  · rintro (ip | ip) h
    · exact ip.octets.length_toList
    · cases h
  · rintro (ip | ip) h
    · simp [IpAddr.octets]
    · cases h

theorem compact_ipv6 : CompactFamily true 16 fun octets =>
    .V6 ⟨Vector.ofFn fun i => UInt16.ofNat (endian.from_be ((octets.drop (2 * i)).take 2))⟩ := by
  constructor
  · rintro (ip | ip) h
    · cases h
    · simp [IpAddr.octets, List.length_flatMap]
  · rintro (ip | ip) h
    · cases h
    · have hchunks := slices.chunks_flatMap (by decide : 0 < 2) (fun segment : UInt16 => endian.to_be 2 segment.toNat)
        (by simp) ip.segments.toList
      congr 2
      ext i hi
      have hrun : (((IpAddr.V6 ip).octets.drop (i * 2)).take 2) = endian.to_be 2 ip.segments[i].toNat := by
        simpa [slices.chunks, List.length_flatMap, hi, IpAddr.octets] using congrArg (·[i]?) hchunks
      simp [Nat.mul_comm 2 i, hrun]

variable {ipv6 : Bool} {size : Nat} {address : Bytes → IpAddr}

/-- A list of one family is read back. -/
theorem parse_compact_encode (hfamily : CompactFamily ipv6 size address) {peers : Vec PeerAddr}
    (hpeers : ∀ peer ∈ peers, peer.ip.is_ipv6 = ipv6) :
    parse_compact size address (encode_compact ipv6 peers) = peers := by
  have hkept : peers.filter (fun peer => peer.ip.is_ipv6 = ipv6) = peers :=
    List.filter_eq_self.mpr fun peer hpeer => decide_eq_true (hpeers peer hpeer)
  have hlength : ∀ peer ∈ peers, (peer.ip.octets ++ endian.to_be 2 peer.port.toNat).length = size + 2 := by
    intro peer hpeer
    rw [List.length_append, hfamily.length_octets (hpeers peer hpeer), endian.length_to_be]
  have hdvd : size + 2 ∣ (encode_compact ipv6 peers).length := by
    rw [encode_compact, hkept, List.length_flatMap, List.map_congr_left hlength]
    simp
  rw [parse_compact, udp_tracker.as_chunks_of_dvd (by omega) hdvd, encode_compact, hkept,
    slices.chunks_flatMap_of_mem (by omega) _ hlength, List.map_map]
  refine (List.map_congr_left fun peer hpeer => ?_).trans (List.map_id _)
  have hoctets := hfamily.length_octets (hpeers peer hpeer)
  simp only [Function.comp_apply, List.take_left' hoctets, List.drop_left' hoctets, endian.u16_of_be,
    hfamily.address_octets (hpeers peer hpeer), id_eq]

theorem decode_encode_pex {msg : PexMessage} (hlength : (encode_pex msg).length ≤ MAX_TORRENT_METADATA_BYTES) :
    decode (encode_pex msg) = .ok (.Dict (pex_dict msg)) := by
  rw [decode_eq_ok_iff]
  refine ⟨encode_pex_eq msg, ⟨⟨?_, ?_⟩, ?_, ?_⟩, hlength⟩
  · simp only [pex_dict, List.map_cons, List.map_nil]
    decide
  · simp [pex_dict, Value.DistinctKeysEntries, Value.DistinctKeys]
  · simp [pex_dict, Value.depth, Value.depth_entries, MAX_BENCODE_DEPTH]
  · simp [pex_dict, Value.nodes, Value.nodes_entries, MAX_BENCODE_NODES]

/-- The length of a string under a key of the encoding. -/
def str_length (payload : Bytes) (key : String) : Option Nat :=
  match decode payload with
  | .ok (.Dict dict) => ((lookup dict key).bind Value.as_str).map List.length
  | _ => none

/-- A message is read back with one flag per peer, if the decoder takes a payload of its length. -/
theorem parse_encode_pex (msg : PexMessage) (hipv4 : ∀ peer ∈ msg.added ++ msg.dropped, peer.ip.is_ipv6 = false)
    (hipv6 : ∀ peer ∈ msg.added6 ++ msg.dropped6, peer.ip.is_ipv6 = true)
    (hlength : (encode_pex msg).length ≤ MAX_TORRENT_METADATA_BYTES) :
    parse_pex (encode_pex msg) = .ok msg ∧ str_length (encode_pex msg) "added.f" = some msg.added.length ∧
      str_length (encode_pex msg) "added6.f" = some msg.added6.length := by
  obtain ⟨hadded, hdropped⟩ := List.forall_mem_append.mp hipv4
  obtain ⟨hadded6, hdropped6⟩ := List.forall_mem_append.mp hipv6
  have hdecode := decode_encode_pex hlength
  refine ⟨?_, ?_, ?_⟩
  · have hlookup : parse_pex (encode_pex msg) = .ok ⟨parse_compact_ipv4 (encode_compact_ipv4 msg.added),
        parse_compact_ipv4 (encode_compact_ipv4 msg.dropped), parse_compact_ipv6 (encode_compact_ipv6 msg.added6),
        parse_compact_ipv6 (encode_compact_ipv6 msg.dropped6)⟩ := by
      rw [parse_pex, hdecode]
      rfl
    rw [hlookup, parse_compact_ipv4, parse_compact_ipv6, encode_compact_ipv4, encode_compact_ipv6,
      parse_compact_encode compact_ipv4 hadded, parse_compact_encode compact_ipv4 hdropped,
      parse_compact_encode compact_ipv6 hadded6, parse_compact_encode compact_ipv6 hdropped6]
  · rw [str_length, hdecode]
    exact congrArg some List.length_replicate
  · rw [str_length, hdecode]
    exact congrArg some List.length_replicate

theorem parse_encode_pex_both :
    let msg : PexMessage := ⟨[⟨.V4 .UNSPECIFIED, 6881⟩], [], [⟨.V6 .UNSPECIFIED, 6881⟩], []⟩
    parse_pex (encode_pex msg) = .ok msg :=
  (parse_encode_pex _ (by decide) (by decide) (by decide)).1

end swarmotter.extensions

import Swarmotter.Net.Addr

namespace swarmotter

/-- The two hash functions of the protocol. Nothing is assumed about them. -/
structure Sha where
  sha1 : Bytes → Vector UInt8 20
  sha256 : Bytes → Vector UInt8 32

/-- Digests that are the first bytes of the input, for concrete runs of the model. -/
def Sha.leading : Sha where
  sha1 input := Vector.ofFn fun i => input.getD i 0
  sha256 input := Vector.ofFn fun i => input.getD i 0

/-- A version 1 info-hash. -/
structure InfoHash where
  bytes : Vector UInt8 20
  deriving DecidableEq, Repr

/-- A full version 2 info-hash, and every node of a version 2 Merkle tree. -/
structure V2InfoHash where
  bytes : Vector UInt8 32
  deriving DecidableEq, Repr

/-- The 20-byte value on the peer and tracker wire. -/
structure PeerInfoHash where
  bytes : Vector UInt8 20
  deriving DecidableEq, Repr

def InfoHash.from_info_bencoded (sha : Sha) (info_bytes : Bytes) : InfoHash := ⟨sha.sha1 info_bytes⟩

def InfoHash.ZERO : InfoHash := ⟨Vector.replicate 20 0⟩

def V2InfoHash.ZERO : V2InfoHash := ⟨Vector.replicate 32 0⟩

def V2InfoHash.from_info_bencoded (sha : Sha) (info_bytes : Bytes) : V2InfoHash :=
  ⟨sha.sha256 info_bytes⟩

def V2InfoHash.as_bytes (hash : V2InfoHash) : Bytes := hash.bytes.toList

/-- `copy_from_slice` of 32 bytes into a hash. -/
def V2InfoHash.from_slice (bytes : Bytes) : V2InfoHash := ⟨Vector.ofFn fun i => bytes.getD i 0⟩

/-- The derived `Ord` of a hash compares its bytes from the left. -/
def V2InfoHash.ord_key (hash : V2InfoHash) : List Nat := hash.as_bytes.map UInt8.toNat

/-- The wire truncation of a version 2 identity. -/
def V2InfoHash.peer_info_hash (hash : V2InfoHash) : PeerInfoHash :=
  ⟨Vector.ofFn fun i : Fin 20 => hash.bytes[i.val]⟩

theorem V2InfoHash.length_as_bytes (hash : V2InfoHash) : hash.as_bytes.length = 32 := by
  simp [as_bytes]

theorem V2InfoHash.as_bytes_injective {left right : V2InfoHash} (h : left.as_bytes = right.as_bytes) :
    left = right := by
  obtain ⟨left⟩ := left
  obtain ⟨right⟩ := right
  simpa [as_bytes, Vector.toList_inj] using h

theorem V2InfoHash.as_bytes_from_slice {bytes : Bytes} (h : bytes.length = 32) :
    (from_slice bytes).as_bytes = bytes := by
  apply List.ext_getElem
  · rw [length_as_bytes, h]
  · intro i hi hbytes
    simp [as_bytes, from_slice, List.getD_eq_getElem?_getD, hbytes]

theorem V2InfoHash.from_slice_as_bytes (hash : V2InfoHash) : from_slice hash.as_bytes = hash :=
  as_bytes_injective (as_bytes_from_slice hash.length_as_bytes)

theorem V2InfoHash.ord_key_injective {left right : V2InfoHash} (h : left.ord_key = right.ord_key) : left = right := by
  apply as_bytes_injective
  exact List.map_injective_iff.mpr (fun _ _ => UInt8.toNat_inj.mp) h

inductive TorrentKey where
  | V1 (hash : InfoHash)
  | V2 (hash : V2InfoHash)
  deriving DecidableEq, Repr

/-- The protocol identity of a torrent. `Unknown` is a durable record from before identities
    were kept. -/
inductive TorrentIdentity where
  | Unknown
  | V1 (v1 : InfoHash)
  | V2 (v2 : V2InfoHash)
  | Hybrid (v1 : InfoHash) (v2 : V2InfoHash)
  deriving DecidableEq, Repr

namespace TorrentIdentity

def primary_key : TorrentIdentity → Option TorrentKey
  | V1 v1 | Hybrid v1 _ => some (.V1 v1)
  | V2 v2 => some (.V2 v2)
  | Unknown => none

def keys : TorrentIdentity → Vec TorrentKey
  | Unknown => []
  | V1 v1 => [.V1 v1]
  | V2 v2 => [.V2 v2]
  | Hybrid v1 v2 => [.V1 v1, .V2 v2]

def v1_info_hash : TorrentIdentity → Option InfoHash
  | V1 v1 | Hybrid v1 _ => some v1
  | Unknown | V2 _ => none

def v2_info_hash : TorrentIdentity → Option V2InfoHash
  | V2 v2 | Hybrid _ v2 => some v2
  | Unknown | V1 _ => none

/-- Every identity component against the exact `info` bytes. -/
def matches_info_bencoded (sha : Sha) (identity : TorrentIdentity) (info_bytes : Bytes) : Bool :=
  match identity with
  | Unknown => false
  | V1 v1 => v1 = InfoHash.from_info_bencoded sha info_bytes
  | V2 v2 => v2 = V2InfoHash.from_info_bencoded sha info_bytes
  | Hybrid v1 v2 =>
    v1 = InfoHash.from_info_bencoded sha info_bytes && v2 = V2InfoHash.from_info_bencoded sha info_bytes

end TorrentIdentity

/-- `hex::encode`. -/
def hex_encode (bytes : Bytes) : String := ascii (hex.encode bytes)

namespace InfoHash

def to_hex (hash : InfoHash) : String := hex_encode hash.bytes.toList

end InfoHash

namespace V2InfoHash

def to_hex (hash : V2InfoHash) : String := hex_encode hash.as_bytes

end V2InfoHash

/-- The locator of a key, which is also its `Display` text. -/
def TorrentKey.to_locator : TorrentKey → String
  | V1 hash => hash.to_hex
  | V2 hash => hash.to_hex

end swarmotter

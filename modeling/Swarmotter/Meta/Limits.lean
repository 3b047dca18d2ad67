import Mathlib.Data.Nat.Notation

namespace swarmotter.meta

/-- Bytes of a `.torrent` document or of an exchanged `info` dictionary. -/
def MAX_TORRENT_METADATA_BYTES : Nat := 16 * 1024 * 1024

/-- Nested lists and dictionaries; the root is at depth zero. -/
def MAX_BENCODE_DEPTH : Nat := 128

/-- Values of one document, its dictionary keys included. -/
def MAX_BENCODE_NODES : Nat := 250000

def MAX_TORRENT_FILES : Nat := 100000

def MAX_TORRENT_PIECES : Nat := 750000

def MAX_PIECE_LENGTH : Nat := 64 * 1024 * 1024

/-- The leaf block of a version 2 Merkle tree. -/
def V2_BLOCK_LENGTH : Nat := 16 * 1024

end swarmotter.meta

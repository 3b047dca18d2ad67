import Swarmotter.Hash
import Swarmotter.Lib.Merkle
import Swarmotter.Lib.Slices
import Swarmotter.Meta.Limits

open swarmotter.meta slices merkle

namespace swarmotter.v2

/-- SHA-256 of a leaf block of at most 16 KiB. -/
def v2_leaf_hash (sha : Sha) (data : Bytes) : V2InfoHash := ⟨sha.sha256 data⟩

/-- SHA-256 of two child hashes. -/
def v2_hash_pair (sha : Sha) (left right : V2InfoHash) : V2InfoHash :=
  ⟨sha.sha256 (left.as_bytes ++ right.as_bytes)⟩

/-- `while level.len() > 1` over the nodes of a Merkle level, then `level[0]`. The callers pass
    a level that is not empty. -/
def fold_level (sha : Sha) (level : Vec V2InfoHash) : V2InfoHash :=
  (reduce (v2_hash_pair sha) level.length level).headD V2InfoHash.ZERO

/-- The subtree root of one logical piece. Leaves that the data does not reach are the all-zero
    hash, not the hash of zero bytes. -/
def v2_piece_root (sha : Sha) (data : Bytes) (piece_length : Nat) : Result V2InfoHash := do
  let _ ← reject_if (piece_length < V2_BLOCK_LENGTH ∨ is_power_of_two piece_length = false)
    (.MalformedTorrent s!"BEP 52 piece length must be a power of two at least {V2_BLOCK_LENGTH}")
  let data_length := data.length
  let _ ← reject_if (data_length = 0 ∨ data_length > piece_length)
    (.MalformedTorrent s!"BEP 52 piece data length {data_length} is outside 1..={piece_length}")
  let leaves_per_piece := piece_length / V2_BLOCK_LENGTH
  let level := (chunks V2_BLOCK_LENGTH data).map (v2_leaf_hash sha)
  let level := resize level leaves_per_piece V2InfoHash.ZERO
  pure (fold_level sha level)

/-- The file-tree root of one file, padded only to the next power of two of the leaves it has. -/
def v2_file_root (sha : Sha) (data : Bytes) : Result V2InfoHash := do
  let _ ← reject_if (data = []) (.MalformedTorrent "BEP 52 file root requires non-empty data")
  let level := (chunks V2_BLOCK_LENGTH data).map (v2_leaf_hash sha)
  let width ← ok_or (checked_next_power_of_two level.length)
    (.MalformedTorrent "BEP 52 file leaf count exceeds platform limits")
  let level := resize level width V2InfoHash.ZERO
  pure (fold_level sha level)

end swarmotter.v2

namespace swarmotter.meta

def validate_v2_piece_length (piece_length : Nat) : Result Unit :=
  reject_if (piece_length < V2_BLOCK_LENGTH ∨ is_power_of_two piece_length = false)
    (.MalformedTorrent s!"BEP 52 piece length must be a power of two at least {V2_BLOCK_LENGTH}")

/-- The file root above a layer of piece roots. An absent entry of the layer is the root of an
    all-zero subtree. -/
def v2_piece_layer_root (sha : Sha) (hashes : Vec V2InfoHash) (piece_length : Nat) : Result V2InfoHash := do
  let _ ← reject_if (hashes = []) (.MalformedTorrent "BEP 52 piece layer must contain at least one hash")
  let _ ← validate_v2_piece_length piece_length
  let layer_depth := trailing_zeros (piece_length / V2_BLOCK_LENGTH)
  let zero := zero_subtree (v2.v2_hash_pair sha) V2InfoHash.ZERO layer_depth
  let target_len ← ok_or (checked_next_power_of_two hashes.length)
    (.MalformedTorrent "BEP 52 piece-layer width exceeds platform limits")
  let level := resize hashes target_len zero
  pure (v2.fold_level sha level)

end swarmotter.meta

namespace swarmotter.v2

section
variable (sha : Sha)

/-- The leaf hash at an index, with the all-zero hash behind the data. -/
def leaf (data : Bytes) (i : Nat) : V2InfoHash :=
  if i * V2_BLOCK_LENGTH < data.length
  then v2_leaf_hash sha ((data.drop (i * V2_BLOCK_LENGTH)).take V2_BLOCK_LENGTH)
  else V2InfoHash.ZERO

private theorem block_pos : 0 < V2_BLOCK_LENGTH := by decide

private theorem valid_length (d : Nat) : ¬ (2 ^ d * V2_BLOCK_LENGTH < V2_BLOCK_LENGTH ∨
    is_power_of_two (2 ^ d * V2_BLOCK_LENGTH) = false) := by
  have hpower : is_power_of_two (2 ^ d * 2 ^ 14) = true := is_power_of_two_iff.mpr ⟨d + 14, (Nat.pow_add ..).symm⟩
  rw [not_or, Nat.not_lt, Bool.not_eq_false]
  exact ⟨Nat.le_mul_of_pos_left _ (Nat.two_pow_pos d), hpower⟩

/-- A level filled up to `2 ^ d` nodes folds to the root of the tree over it. -/
theorem fold_level_resize {level : Vec V2InfoHash} {d : Nat} (fill : V2InfoHash) (hlevel : level.length ≤ 2 ^ d) :
    fold_level sha (resize level (2 ^ d) fill) = tree (v2_hash_pair sha) d fun i => level.getD i fill := by
  have hlength := length_resize hlevel fill
  have hfuel : d ≤ (resize level (2 ^ d) fill).length := by
    rw [hlength]
    exact Nat.lt_two_pow_self.le
  rw [fold_level, reduce_eq_tree (v2_hash_pair sha) fill hlength hfuel]
  exact tree_congr _ fun i _ => getD_resize hlevel fill i

/-- A piece that passes the checks of `v2_piece_root` has the tree over its leaves as its root. -/
theorem v2_piece_root_eq {data : Bytes} {d : Nat} (hne : data ≠ []) (hfits : data.length ≤ 2 ^ d * V2_BLOCK_LENGTH) :
    v2_piece_root sha data (2 ^ d * V2_BLOCK_LENGTH) = .ok (tree (v2_hash_pair sha) d (leaf sha data)) := by
  have hpos := List.length_pos_iff.mpr hne
  have hleaves : ((chunks V2_BLOCK_LENGTH data).map (v2_leaf_hash sha)).length ≤ 2 ^ d := by
    rw [List.length_map, length_chunks, div_ceil_le_iff block_pos]
    exact hfits
  have hdata : ¬ (data.length = 0 ∨ data.length > 2 ^ d * V2_BLOCK_LENGTH) := by omega
  simp only [v2_piece_root, reject_if, valid_length, hdata, if_false, bind_ok, pure_eq_ok,
    Nat.mul_div_cancel _ block_pos, fold_level_resize sha _ hleaves, Except.ok.injEq]
  exact tree_congr _ fun i _ => getD_map_chunks _ block_pos data i _

/-- The leaves of a chunk are a block of the leaves of the whole file. -/
theorem leaf_chunk (data : Bytes) {d i : Nat} (j : Nat) (hi : i < 2 ^ d) :
    leaf sha ((data.drop (j * (2 ^ d * V2_BLOCK_LENGTH))).take (2 ^ d * V2_BLOCK_LENGTH)) i =
      leaf sha data (j * 2 ^ d + i) := by
  have hoffset : (j * 2 ^ d + i) * V2_BLOCK_LENGTH = j * (2 ^ d * V2_BLOCK_LENGTH) + i * V2_BLOCK_LENGTH := by ring
  have hroom : i * V2_BLOCK_LENGTH + V2_BLOCK_LENGTH ≤ 2 ^ d * V2_BLOCK_LENGTH := by
    rw [← Nat.succ_mul]
    exact Nat.mul_le_mul_right _ hi
  have hpos := block_pos
  have hreach : i * V2_BLOCK_LENGTH <
        ((data.drop (j * (2 ^ d * V2_BLOCK_LENGTH))).take (2 ^ d * V2_BLOCK_LENGTH)).length ↔
      (j * 2 ^ d + i) * V2_BLOCK_LENGTH < data.length := by
    rw [hoffset, List.length_take, List.length_drop]
    omega
  have hslice : (((data.drop (j * (2 ^ d * V2_BLOCK_LENGTH))).take (2 ^ d * V2_BLOCK_LENGTH)).drop
        (i * V2_BLOCK_LENGTH)).take V2_BLOCK_LENGTH =
      (data.drop ((j * 2 ^ d + i) * V2_BLOCK_LENGTH)).take V2_BLOCK_LENGTH := by
    rw [List.drop_take, List.drop_drop, List.take_take, hoffset, Nat.min_eq_left (by omega)]
  simp only [leaf, hreach, hslice]

/-- Past one piece, the file tree is as deep as a piece tree and the tree over the piece layer
    together. -/
theorem clog_leaves {len d : Nat} (hlong : 2 ^ d * V2_BLOCK_LENGTH < len) :
    Nat.clog 2 ((len + V2_BLOCK_LENGTH - 1) / V2_BLOCK_LENGTH) =
      d + Nat.clog 2 ((len + 2 ^ d * V2_BLOCK_LENGTH - 1) / (2 ^ d * V2_BLOCK_LENGTH)) := by
  have hpiece : 0 < 2 ^ d * V2_BLOCK_LENGTH := Nat.mul_pos (Nat.two_pow_pos d) block_pos
  refine eq_of_forall_ge_iff fun depth => ?_
  rw [Nat.clog_le_iff_le_pow Nat.one_lt_two, div_ceil_le_iff block_pos]
  by_cases hdepth : d ≤ depth
  · obtain ⟨k, rfl⟩ := Nat.exists_eq_add_of_le hdepth
    rw [Nat.add_le_add_iff_left, Nat.clog_le_iff_le_pow Nat.one_lt_two, div_ceil_le_iff hpiece,
      show 2 ^ (d + k) * V2_BLOCK_LENGTH = 2 ^ k * (2 ^ d * V2_BLOCK_LENGTH) by ring]
  · have hpow : 2 ^ depth ≤ 2 ^ d := Nat.pow_le_pow_right Nat.two_pos (by omega)
    refine iff_of_false (Nat.not_le.mpr ?_) (by omega)
    exact (Nat.mul_le_mul_right _ hpow).trans_lt hlong

theorem v2_file_root_eq {data : Bytes} (hne : data ≠ []) (hslice : data.length ≤ usize.MAX) :
    v2_file_root sha data = .ok (tree (v2_hash_pair sha)
      (Nat.clog 2 ((data.length + V2_BLOCK_LENGTH - 1) / V2_BLOCK_LENGTH)) (leaf sha data)) := by
  have hcount : ((chunks V2_BLOCK_LENGTH data).map (v2_leaf_hash sha)).length =
      (data.length + V2_BLOCK_LENGTH - 1) / V2_BLOCK_LENGTH := by
    rw [List.length_map, length_chunks]
  have hbound : (data.length + V2_BLOCK_LENGTH - 1) / V2_BLOCK_LENGTH ≤ 2 ^ 63 := by
    rw [div_ceil_le_iff block_pos]
    exact hslice.trans (by decide)
  have hwidth := checked_next_power_of_two_of_le hbound (by decide)
  have hlevel := hcount.trans_le (Nat.le_pow_clog Nat.one_lt_two _)
  simp only [v2_file_root, reject_if, hne, if_false, bind_ok, pure_eq_ok, hcount, hwidth, ok_or,
    fold_level_resize sha _ hlevel, Except.ok.injEq]
  exact tree_congr _ fun i _ => getD_map_chunks _ block_pos data i _

theorem v2_piece_layer_root_eq {hashes : Vec V2InfoHash} {d k : Nat} (hne : hashes ≠ []) (hd : d < 64)
    (hcount : hashes.length ≤ 2 ^ k) (hk : k < 64) :
    v2_piece_layer_root sha hashes (2 ^ d * V2_BLOCK_LENGTH) =
      .ok (tree (v2_hash_pair sha) (Nat.clog 2 hashes.length) fun j =>
        hashes.getD j (zero_subtree (v2_hash_pair sha) V2InfoHash.ZERO d)) := by
  have hwidth := checked_next_power_of_two_of_le hcount hk
  have hlevel := Nat.le_pow_clog Nat.one_lt_two hashes.length
  simp only [v2_piece_layer_root, validate_v2_piece_length, reject_if, hne, valid_length, if_false, bind_ok, pure_eq_ok,
    hwidth, ok_or, Nat.mul_div_cancel _ block_pos,
    trailing_zeros_two_pow hd, fold_level_resize sha _ hlevel]

/-- A file longer than one piece has the same root whether it is computed from its 16 KiB leaves or
    from the layer of its piece roots. SHA-256 is an arbitrary function: only the shape of the two
    trees is compared, and every root involved is shown to exist. -/
theorem v2_file_root_eq_piece_layer_root (data : Slice UInt8) (piece_length : Nat)
    (hpower : is_power_of_two piece_length = true) (hmin : V2_BLOCK_LENGTH ≤ piece_length)
    (hlong : piece_length < data.elems.length) :
    ∃ roots root,
      (chunks piece_length data.elems).mapM (fun chunk => v2_piece_root sha chunk piece_length) = .ok roots ∧
      v2_piece_layer_root sha roots piece_length = .ok root ∧
      v2_file_root sha data.elems = .ok root := by
  obtain ⟨data, hslice⟩ := data
  dsimp only at hlong ⊢
  obtain ⟨d, hd, rfl⟩ : ∃ d, d < 64 ∧ piece_length = 2 ^ d * V2_BLOCK_LENGTH := by
    obtain ⟨n, rfl⟩ := is_power_of_two_iff.mp hpower
    have hfourteen : 14 ≤ n := (Nat.pow_le_pow_iff_right (by decide : 1 < 2)).mp hmin
    have hbits : n < 64 := by
      refine (Nat.pow_lt_pow_iff_right (by decide : 1 < 2)).mp ?_
      exact (hlong.trans_le hslice).trans (by decide)
    refine ⟨n - 14, by omega, ?_⟩
    change 2 ^ n = 2 ^ (n - 14) * 2 ^ 14
    rw [← Nat.pow_add, Nat.sub_add_cancel hfourteen]
  have hpiece : 0 < 2 ^ d * V2_BLOCK_LENGTH := Nat.mul_pos (Nat.two_pow_pos d) block_pos
  have hne : data ≠ [] := List.length_pos_iff.mp (by omega)
  let piece_root := fun chunk => tree (v2_hash_pair sha) d (leaf sha chunk)
  let roots := (chunks (2 ^ d * V2_BLOCK_LENGTH) data).map piece_root
  have hcount : roots.length = (data.length + 2 ^ d * V2_BLOCK_LENGTH - 1) / (2 ^ d * V2_BLOCK_LENGTH) := by
    rw [List.length_map, length_chunks]
  have hrootsNe : roots ≠ [] := by
    rw [← List.length_pos_iff, hcount, lt_div_ceil_iff hpiece]
    omega
  have hrootsLe : roots.length ≤ 2 ^ 63 := by
    rw [hcount, div_ceil_le_iff hpiece]
    have hmax : usize.MAX ≤ 2 ^ 63 * V2_BLOCK_LENGTH := by decide
    have hblock := Nat.le_mul_of_pos_left V2_BLOCK_LENGTH (Nat.two_pow_pos d)
    exact hslice.trans (hmax.trans (Nat.mul_le_mul_left _ hblock))
  have hpieces : (chunks (2 ^ d * V2_BLOCK_LENGTH) data).mapM
      (fun chunk => v2_piece_root sha chunk (2 ^ d * V2_BLOCK_LENGTH)) = .ok roots := by
    refine mapM_eq_ok fun chunk hchunk => ?_
    obtain ⟨hchunkNe, hchunkLe⟩ := mem_chunks hpiece hchunk
    exact v2_piece_root_eq sha hchunkNe hchunkLe
  refine ⟨roots, _, hpieces, v2_piece_layer_root_eq sha hrootsNe hd hrootsLe (by decide), ?_⟩
  rw [v2_file_root_eq sha hne hslice, clog_leaves hlong, hcount, tree_add]
  refine congrArg Except.ok (tree_congr _ fun j _ => ?_)
  -- the pieces of the layer: a real one is a block of leaves, an absent one is all zero
  rw [getD_map_chunks piece_root hpiece]
  split
  · exact tree_congr _ fun i hi => (leaf_chunk sha data j hi).symm
  · rename_i hpast
    rw [← tree_const]
    refine tree_congr _ fun i _ => if_neg ?_
    have hoffset : (j * 2 ^ d + i) * V2_BLOCK_LENGTH = j * (2 ^ d * V2_BLOCK_LENGTH) + i * V2_BLOCK_LENGTH := by ring
    omega

end

/-- A file of one block and a byte, at the smallest piece length. -/
theorem v2_file_root_eq_piece_layer_root_two_blocks :
    ∃ roots root,
      (chunks 16384 (List.replicate 16385 7)).mapM (fun chunk => v2_piece_root Sha.leading chunk 16384) = .ok roots ∧
      v2_piece_layer_root Sha.leading roots 16384 = .ok root ∧
      v2_file_root Sha.leading (List.replicate 16385 7) = .ok root :=
  v2_file_root_eq_piece_layer_root Sha.leading ⟨List.replicate 16385 7, by rw [List.length_replicate]; decide⟩ 16384
    (by decide) (by decide) (by rw [List.length_replicate]; decide)

end swarmotter.v2

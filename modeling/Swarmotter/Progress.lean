import Mathlib.Algebra.BigOperators.Ring.Finset
import Mathlib.Algebra.Order.BigOperators.Group.Finset
import Mathlib.Data.Nat.Count
import Swarmotter.Torrent
import Swarmotter.V2.Downloadable

open swarmotter.meta swarmotter.bencode
open swarmotter.v2 (V2Piece V2PieceLayout total_pieces)
open swarmotter.storage (PieceBitfield)

namespace swarmotter

namespace storage.PieceBitfield

/-- `u8::count_ones`. -/
def count_ones (byte : UInt8) : Nat := (List.range 8).countP fun bit => byte.toNat.testBit bit

def count (self : PieceBitfield) (total : Nat) : Nat :=
  let full := total / 8
  let rem := total % 8
  let count := ((self.bytes.take full).map count_ones).sum
  if rem > 0 then
    match self.bytes[full]? with
    | some byte => count + count_ones (byte &&& (0xFF <<< UInt8.ofNat (8 - rem)))
    | none => count
  else count

end storage.PieceBitfield

namespace meta.TorrentMeta

def v2_piece_layout (self : TorrentMeta) : Result V2PieceLayout := V2PieceLayout.from_meta self

/-- The number of pieces that are transferred. -/
def data_piece_count (self : TorrentMeta) : Result Nat :=
  if self.requires_v2_data_plane then self.v2_piece_layout.map V2PieceLayout.piece_count else .ok self.piece_count

/-- The same, as a torrent is created with it: unresolved metadata has the count of its placeholder. -/
def piece_total (self : TorrentMeta) : Nat :=
  match self.data_piece_count with
  | .ok count => count
  | .error _ => self.piece_count

end meta.TorrentMeta

namespace torrent

/-- The bytes of the pieces that are there. -/
def verified_bytes (torrent : TorrentMeta) (bitfield : PieceBitfield) : Nat :=
  if torrent.requires_v2_data_plane then
    match torrent.v2_piece_layout with
    | .ok layout =>
      ((((List.range layout.piece_count).filter bitfield.has).filterMap layout.piece).map V2Piece.length).sum
    | .error _ => 0
  else
    ((((List.range torrent.piece_count).filter bitfield.has).filterMap torrent.piece_byte_range).map
      fun range => range.2 - range.1).sum

/-- The body of the loop over the pieces of a file: a piece that is there counts with the bytes that it shares with the
file. -/
def add_overlap (torrent : TorrentMeta) (bitfield : PieceBitfield) (file_start file_end completed piece : Nat) : Nat :=
  if bitfield.has piece then
    let piece_start := u64.saturating_mul piece torrent.piece_length
    let piece_end := min (u64.saturating_add piece_start torrent.piece_length) torrent.total_length
    u64.saturating_add completed (min file_end piece_end - max file_start piece_start)
  else completed

def file_completed (torrent : TorrentMeta) (bitfield : PieceBitfield) (file_start file_end length : Nat) : Nat :=
  if length > 0 ∧ torrent.piece_length > 0 then
    let first_piece := file_start / torrent.piece_length
    let last_piece := (file_end - 1) / torrent.piece_length
    (List.range' first_piece (last_piece + 1 - first_piece)).foldl (add_overlap torrent bitfield file_start file_end) 0
  else 0

/-- The loop over the files of version 1 metadata. -/
def credit_files (torrent : TorrentMeta) (bitfield : PieceBitfield) :
    Nat → Nat → Vec MetaFile → Vec TorrentFile → Vec TorrentFile
  | _, _, [], rows => rows
  | index, file_start, file :: files, rows =>
    let file_end := u64.saturating_add file_start file.length
    let completed := file_completed torrent bitfield file_start file_end file.length
    credit_files torrent bitfield (index + 1) file_end files
      (rows.modify index fun row => { row with bytes_completed := min completed file.length })

/-- The body of the loop over the pieces of version 2 metadata. -/
def credit_piece (bitfield : PieceBitfield) (layout : V2PieceLayout) (rows : Vec TorrentFile) (piece : Nat) :
    Vec TorrentFile :=
  if bitfield.has piece then
    match layout.piece piece with
    | some mapping => rows.modify mapping.file_index fun row =>
        { row with bytes_completed := min (u64.saturating_add row.bytes_completed mapping.length) row.length }
    | none => rows
  else rows

namespace Torrent

/-- A torrent as it is created, as far as it is modelled. -/
def new (torrent : TorrentMeta) : Torrent where
  torrent_meta := torrent
  state := .Queued
  progress := .new torrent.piece_total
  files := torrent.files.zipIdx.map fun (file, i) => ⟨i, "/".intercalate file.path, file.length, 0, .Normal, true⟩
  needs_metadata := false
  magnet_info_hash := none
  magnet_identity := none

/-- The progress of every file from the pieces that are there. -/
def recompute_file_bytes_completed (self : Torrent) : Torrent :=
  let bitfield := self.progress.bitfield
  if self.torrent_meta.requires_v2_data_plane then
    let rows := self.files.map fun row => { row with bytes_completed := 0 }
    match self.torrent_meta.v2_piece_layout with
    | .ok layout => { self with files := (List.range layout.piece_count).foldl (credit_piece bitfield layout) rows }
    | .error _ => { self with files := rows }
  else { self with files := credit_files self.torrent_meta bitfield 0 0 self.torrent_meta.files self.files }

end Torrent

end torrent

namespace engine

/-- The state that the tasks of a torrent share, as far as the progress is concerned. -/
structure EngineState where
  pieces_have : PieceBitfield
  piece_count : Nat
  bytes_completed : Nat
  deriving DecidableEq

/-- Publish a bitfield and the bytes of its pieces. -/
def update_progress_state (state : EngineState) (torrent : TorrentMeta) (bitfield : PieceBitfield) : EngineState :=
  let complete_pieces := bitfield.count state.piece_count
  let completed := u64.saturating_mul complete_pieces torrent.piece_length
  let completed := if state.piece_count > 0 ∧ bitfield.has (state.piece_count - 1) = true then
      completed - (torrent.piece_length - torrent.last_piece_length)
    else completed
  { state with pieces_have := bitfield, bytes_completed := min completed torrent.total_length }

end engine

/-! The bits of a bitfield. -/

namespace storage.PieceBitfield

theorem has_of_byte {self : PieceBitfield} {full bit : Nat} (hbit : bit < 8) :
    self.has (8 * full + bit) = (self.bytes[full]?).elim false fun byte => byte.toNat.testBit (7 - bit) := by
  have hdiv : (8 * full + bit) / 8 = full := by omega
  have hmod : (8 * full + bit) % 8 = bit := by omega
  rw [Bool.eq_iff_iff, has_eq_true_iff, hdiv, hmod]
  cases self.bytes[full]? <;> simp

theorem count_ones_eq (byte : UInt8) :
    count_ones byte = (List.range 8).countP fun bit => byte.toNat.testBit (7 - bit) := by
  have hreverse : ((List.range 8).map (7 - ·)).Perm (List.range 8) := by decide
  rw [count_ones, ← hreverse.countP_eq, List.countP_map]
  rfl

/-- The mask keeps the leading bits. -/
theorem testBit_mask {rem bit : Nat} (hpos : 0 < rem) (hrem : rem < 8) (hbit : bit < 8) :
    (0xFF <<< UInt8.ofNat (8 - rem) : UInt8).toNat.testBit (7 - bit) = decide (bit < rem) := by
  have hall : ∀ rem < 8, 0 < rem → ∀ bit < 8,
      (0xFF <<< UInt8.ofNat (8 - rem) : UInt8).toNat.testBit (7 - bit) = decide (bit < rem) := by decide
  exact hall rem hrem hpos bit hbit

theorem count_ones_and_mask (byte : UInt8) {rem : Nat} (hpos : 0 < rem) (hrem : rem < 8) :
    count_ones (byte &&& (0xFF <<< UInt8.ofNat (8 - rem))) =
      (List.range rem).countP fun bit => byte.toNat.testBit (7 - bit) := by
  have hall : ∀ rem < 8, (List.range 8).filter (fun bit => decide (bit < rem)) = List.range rem := by decide
  rw [count_ones_eq, ← hall rem hrem, List.countP_filter]
  apply List.countP_congr
  intro bit hbit
  rw [UInt8.toNat_and, Nat.testBit_and, testBit_mask hpos hrem (List.mem_range.mp hbit)]

/-- The count is that of the pieces that are there. -/
theorem count_eq (self : PieceBitfield) (total : Nat) :
    self.count total = Nat.count (fun i => self.has i = true) total := by
  have hbyte (full rem : Nat) (hrem : rem ≤ 8) : Nat.count (fun i => self.has i = true) (8 * full + rem) =
      Nat.count (fun i => self.has i = true) (8 * full) +
        (self.bytes[full]?).elim 0 fun byte => (List.range rem).countP fun bit => byte.toNat.testBit (7 - bit) := by
    rw [Nat.count_add]
    congr 1
    rw [Nat.count]
    cases hget : self.bytes[full]? with
    | none =>
      rw [Option.elim_none, List.countP_eq_zero]
      intro bit hbit
      have hbit := List.mem_range.mp hbit
      rw [has_of_byte (by omega), hget]
      simp
    | some byte =>
      apply List.countP_congr
      intro bit hbit
      have hbit := List.mem_range.mp hbit
      rw [has_of_byte (by omega), hget, Option.elim_some, decide_eq_true_eq]
  have hfull (full : Nat) : ((self.bytes.take full).map count_ones).sum =
      Nat.count (fun i => self.has i = true) (8 * full) := by
    induction full with
    | zero => simp
    | succ full ih =>
      rw [Nat.mul_succ, hbyte full 8 (Nat.le_refl 8), ← ih, List.take_add_one, List.map_append, List.sum_append]
      cases self.bytes[full]? with
      | none => simp
      | some byte => simp [count_ones_eq byte]
  have htotal : total = 8 * (total / 8) + total % 8 := by omega
  have hrem : total % 8 < 8 := Nat.mod_lt _ (by decide)
  unfold count
  dsimp only
  conv_rhs => rw [htotal, hbyte _ _ (by omega), ← hfull]
  split
  · rename_i hpos
    cases self.bytes[total / 8]? with
    | none => simp
    | some byte => simp [count_ones_and_mask byte hpos hrem]
  · rename_i hzero
    have hzero : total % 8 = 0 := by omega
    rw [hzero]
    cases self.bytes[total / 8]? <;> simp

end storage.PieceBitfield

namespace torrent

/-! Sums over the pieces. -/

section
variable {α : Type} {n : Nat} {p : Nat → Bool} {f g : Nat → Nat}

theorem sum_filterMap_range (p : Nat → Bool) (piece : Nat → Option α) (length : α → Nat) (n : Nat) :
    ((((List.range n).filter p).filterMap piece).map length).sum =
      ∑ k ∈ Finset.range n, if p k then (piece k).elim 0 length else 0 := by
  induction n with
  | zero => rfl
  | succ n ih =>
    rw [List.range_succ, List.filter_append, List.filterMap_append, List.map_append, List.sum_append, ih,
      Finset.sum_range_succ]
    congr 1
    cases hp : p n with
    | false => simp [hp]
    | true => cases hpiece : piece n <;> simp [hp, hpiece]

theorem sum_map_getElem? (xs : List α) (length : α → Nat) :
    (xs.map length).sum = ∑ k ∈ Finset.range xs.length, (xs[k]?).elim 0 length := by
  have hall := sum_filterMap_range (fun _ => true) (fun k => xs[k]?) length xs.length
  rw [List.filter_true, slices.filterMap_getElem?_range] at hall
  simpa using hall

/-- The bytes of some of the pieces are those of all of them only if these are all the pieces. -/
theorem sum_ite_eq_sum_iff (hpos : ∀ k < n, 0 < f k) :
    (∑ k ∈ Finset.range n, if p k then f k else 0) = ∑ k ∈ Finset.range n, f k ↔ ∀ k < n, p k = true := by
  rw [Finset.sum_eq_sum_iff_of_le]
  · constructor
    · intro h k hk
      by_contra hp
      have := h k (Finset.mem_range.mpr hk)
      rw [if_neg hp] at this
      have := hpos k hk
      omega
    · intro h k hk
      rw [if_pos (h k (Finset.mem_range.mp hk))]
  · intro k _
    split
    · exact Nat.le_refl _
    · exact Nat.zero_le _

end

/-! Version 1: the bytes of the pieces that are there, counted one by one. -/

/-- The number of bytes before an address that are in a piece that is there. -/
def present (has : Nat → Bool) (len address : Nat) : Nat := Nat.count (fun i => has (i / len) = true) address

section
variable {has : Nat → Bool} {len k a b : Nat}

/-- The addresses of one piece. -/
theorem present_piece (hlow : k * len ≤ a) (hab : a ≤ b) (hhigh : b ≤ k * len + len) :
    present has len b = present has len a + if has k then b - a else 0 := by
  induction b, hab using Nat.le_induction with
  | base => simp
  | succ b hab ih =>
    have hpiece : b / len = k := by
      apply Nat.div_eq_of_lt_le
      · omega
      · rw [Nat.succ_mul]
        omega
    rw [present, Nat.count_succ, hpiece, ← present, ih (by omega)]
    cases has k with
    | false => simp
    | true =>
      simp only [if_true]
      omega

theorem present_add_le (a d : Nat) : present has len (a + d) ≤ present has len a + d := by
  rw [present, Nat.count_add]
  exact Nat.add_le_add_left (Nat.count_le _) _

/-- Pieces of full length. -/
theorem present_mul (m : Nat) : present has len (m * len) = Nat.count (fun i => has i = true) m * len := by
  induction m with
  | zero => simp [present]
  | succ m ih =>
    rw [Nat.succ_mul, present_piece (Nat.le_refl _) (Nat.le_add_right _ _) (Nat.le_refl _), ih, Nat.count_succ,
      Nat.add_sub_cancel_left, Nat.add_mul]
    split <;> simp

/-- The first pieces, of which the last one may be cut short. -/
theorem sum_present (total n : Nat) : (∑ k ∈ Finset.range n, if has k then min (k * len + len) total - k * len else 0) =
    present has len (min total (n * len)) := by
  induction n with
  | zero => simp [present]
  | succ n ih =>
    rw [Finset.sum_range_succ, ih, Nat.succ_mul]
    by_cases hend : total ≤ n * len
    · have hnone : min (n * len + len) total - n * len = 0 := by omega
      rw [hnone, ite_self, Nat.add_zero, Nat.min_eq_left hend, Nat.min_eq_left (by omega)]
    · rw [Nat.min_eq_right (show n * len ≤ total by omega), Nat.min_comm total,
        present_piece (Nat.le_refl _) (show n * len ≤ min (n * len + len) total by omega) (Nat.min_le_left _ _)]

end

section
variable {sha : Sha} {torrent : TorrentMeta} {bitfield : PieceBitfield} {k len file_start file_end length : Nat}

theorem verified_bytes_v1 (hplane : torrent.requires_v2_data_plane = false) (hvalid : Valid sha torrent)
    (hpieces : V1Pieces torrent) :
    verified_bytes torrent bitfield = present bitfield.has torrent.piece_length torrent.total_length := by
  have htotal : torrent.total_length ≤ torrent.piece_count * torrent.piece_length := by
    rw [← Nat.not_lt, ← storage.lt_piece_count_iff hvalid hpieces]
    exact Nat.lt_irrefl _
  rw [verified_bytes, if_neg (by simp [hplane]), sum_filterMap_range]
  conv_rhs => rw [← Nat.min_eq_left htotal, ← sum_present]
  apply Finset.sum_congr rfl
  intro k hk
  rw [storage.piece_byte_range_eq (Finset.mem_range.mp hk)]
  rfl

/-- After a piece, what lies before its end has been counted. -/
theorem add_overlap_eq {completed : Nat} (hlen : torrent.piece_length = len) (hmax : torrent.total_length ≤ usize.MAX)
    (hend : file_end ≤ torrent.total_length) (hstart : file_start < file_end) (hpiece : k * len < file_end)
    (hreaches : file_start < k * len + len)
    (hcompleted : completed + present bitfield.has len file_start =
      present bitfield.has len (max file_start (min file_end (k * len)))) :
    add_overlap torrent bitfield file_start file_end completed k + present bitfield.has len file_start =
      present bitfield.has len (max file_start (min file_end (k * len + len))) := by
  have hmax : torrent.total_length ≤ 2 ^ 64 - 1 := hmax
  have hbefore : max file_start (min file_end (k * len)) = max file_start (k * len) := by omega
  have hafter : max file_start (min file_end (k * len + len)) = min file_end (k * len + len) := by omega
  have hsmall : present bitfield.has len (max file_start (k * len)) ≤ max file_start (k * len) := Nat.count_le _
  rw [hbefore] at hcompleted
  rw [hafter, present_piece (Nat.le_max_right file_start _) (show max file_start (k * len) ≤ _ by omega)
    (Nat.min_le_right _ _)]
  unfold add_overlap
  cases bitfield.has k with
  | false => simpa using hcompleted
  | true =>
    simp only [if_true, hlen, u64.saturating_mul, u64.saturating_add]
    omega

/-- The loop over the pieces of a file counts the bytes of the file that are there. -/
theorem file_completed_eq (hlen : torrent.piece_length = len) (hpos : 0 < len)
    (hmax : torrent.total_length ≤ usize.MAX) (hend : file_start + length ≤ torrent.total_length) :
    file_completed torrent bitfield file_start (file_start + length) length + present bitfield.has len file_start =
      present bitfield.has len (file_start + length) := by
  unfold file_completed
  rw [hlen]
  by_cases hlength : length = 0
  · rw [if_neg (by omega), hlength, Nat.zero_add, Nat.add_zero]
  rw [if_pos ⟨by omega, hpos⟩]
  dsimp only
  generalize hfirst : file_start / len = first
  generalize hlast : (file_start + length - 1) / len = last
  have hfirst_le : first * len ≤ file_start := hfirst ▸ Nat.div_mul_le_self _ _
  have hfirst_lt : file_start < first * len + len := hfirst ▸ Nat.lt_div_mul_add hpos
  have hlast_le : last * len ≤ file_start + length - 1 := hlast ▸ Nat.div_mul_le_self _ _
  have hlast_lt : file_start + length - 1 < last * len + len := hlast ▸ Nat.lt_div_mul_add hpos
  have hfirst_last : first ≤ last := hfirst ▸ hlast ▸ Nat.div_le_div_right (by omega)
  have hloop : ∀ m ≤ last + 1 - first, (List.range' first m).foldl
      (add_overlap torrent bitfield file_start (file_start + length)) 0 + present bitfield.has len file_start =
      present bitfield.has len (max file_start (min (file_start + length) ((first + m) * len))) := by
    intro m hm
    induction m with
    | zero =>
      rw [List.range'_zero, List.foldl_nil, Nat.zero_add, Nat.add_zero]
      congr 1
      omega
    | succ m ih =>
      have hpiece : (first + m) * len ≤ last * len := Nat.mul_le_mul_right _ (by omega)
      have hlow : first * len ≤ (first + m) * len := Nat.mul_le_mul_right _ (by omega)
      rw [List.range'_1_concat, List.foldl_append, List.foldl_cons, List.foldl_nil,
        add_overlap_eq hlen hmax hend (by omega) (by omega) (by omega) (ih (by omega)), ← Nat.succ_mul]
      rfl
  rw [hloop _ (Nat.le_refl _), show first + (last + 1 - first) = last + 1 by omega, Nat.succ_mul]
  congr 1
  omega

theorem modify_append (before : Vec TorrentFile) (row : TorrentFile) (rows : Vec TorrentFile)
    (f : TorrentFile → TorrentFile) : (before ++ row :: rows).modify before.length f = before ++ f row :: rows := by
  induction before with
  | nil => rfl
  | cons first before ih => exact congrArg (first :: ·) ih

/-- The loop over the files. The rows before those of the files are left as they are. -/
theorem credit_files_spec (hlen : torrent.piece_length = len) (hpos : 0 < len)
    (hmax : torrent.total_length ≤ usize.MAX) {files : Vec MetaFile} {before rows : Vec TorrentFile}
    (hrows : rows.map TorrentFile.length = files.map MetaFile.length)
    (hend : file_start + (files.map MetaFile.length).sum ≤ torrent.total_length) :
    ∃ out, credit_files torrent bitfield before.length file_start files (before ++ rows) = before ++ out ∧
      (∀ row ∈ out, row.bytes_completed ≤ row.length) ∧
      (out.map TorrentFile.bytes_completed).sum + present bitfield.has len file_start =
        present bitfield.has len (file_start + (files.map MetaFile.length).sum) := by
  induction files generalizing file_start before rows with
  | nil =>
    obtain rfl : rows = [] := List.map_eq_nil_iff.mp hrows
    exact ⟨[], rfl, nofun, by simp⟩
  | cons file files ih =>
    cases rows with
    | nil => cases hrows
    | cons row rows =>
      rw [List.map_cons, List.map_cons, List.cons.injEq] at hrows
      rw [List.map_cons, List.sum_cons] at hend ⊢
      have hmax' : torrent.total_length ≤ 2 ^ 64 - 1 := hmax
      have hfile_end : u64.saturating_add file_start file.length = file_start + file.length := by
        unfold u64.saturating_add
        omega
      have hcompleted := @file_completed_eq torrent bitfield _ file_start file.length hlen hpos hmax (by omega)
      have hle : present bitfield.has len (file_start + file.length) ≤ _ := present_add_le _ _
      let completed := file_completed torrent bitfield file_start (file_start + file.length) file.length
      let credited : TorrentFile := { row with bytes_completed := min completed file.length }
      have hcredited : credited.bytes_completed = completed := Nat.min_eq_left (by omega)
      obtain ⟨out, hout, hbytes, hsum⟩ :=
        @ih (file_start + file.length) (before ++ [credited]) rows hrows.2 (by omega)
      refine ⟨credited :: out, ?_, ?_, ?_⟩
      · rw [credit_files, hfile_end, modify_append]
        rw [List.length_append, List.append_assoc, List.append_assoc] at hout
        exact hout
      · exact List.forall_mem_cons.mpr ⟨(Nat.min_le_right _ _).trans hrows.1.ge, hbytes⟩
      · rw [List.map_cons, List.sum_cons, hcredited, ← Nat.add_assoc file_start, ← hsum]
        omega

/-- The pieces counted, with the last one corrected. -/
theorem bytes_completed_eq (hvalid : Valid sha torrent) (hpieces : V1Pieces torrent) {state : engine.EngineState}
    (hstate : state.piece_count = torrent.piece_count) :
    (engine.update_progress_state state torrent bitfield).bytes_completed =
      present bitfield.has torrent.piece_length torrent.total_length := by
  have hsome := hvalid.total_length_pos
  obtain ⟨last, hcount⟩ : ∃ last, torrent.piece_count = last + 1 := by
    apply Nat.exists_eq_succ_of_ne_zero
    apply Nat.ne_zero_of_lt
    rwa [storage.lt_piece_count_iff hvalid hpieces, Nat.zero_mul]
  obtain ⟨hlast, hend⟩ := storage.last_piece_length_eq hvalid hpieces hcount.symm
  have hstart := (storage.lt_piece_count_iff hvalid hpieces).mp (show last < torrent.piece_count by omega)
  have hmax : last * torrent.piece_length + torrent.piece_length ≤ 2 ^ 64 - 1 :=
    storage.piece_address_le hvalid hpieces (by omega)
  have hbefore : Nat.count (fun i => bitfield.has i = true) last * torrent.piece_length ≤ last * torrent.piece_length :=
    Nat.mul_le_mul_right _ (Nat.count_le _)
  rw [present_piece (Nat.le_refl _) hstart.le hend, present_mul]
  simp only [engine.update_progress_state, hstate, hcount, PieceBitfield.count_eq, Nat.add_sub_cancel, Nat.count_succ,
    u64.saturating_mul, Nat.add_mul]
  cases bitfield.has last with
  | false =>
    simp only [Bool.false_eq_true, and_false, if_false, Nat.zero_mul, Nat.add_zero]
    omega
  | true =>
    simp only [and_true, if_true, Nat.one_mul, if_pos (Nat.succ_pos last)]
    omega

/-- The bytes of all pieces are the whole of the torrent. -/
theorem present_eq_total_iff (hvalid : Valid sha torrent) (hpieces : V1Pieces torrent) :
    present bitfield.has torrent.piece_length torrent.total_length = torrent.total_length ↔
      ∀ k < torrent.piece_count, bitfield.has k = true := by
  have hpos := hvalid.piece_length_pos
  simp only [present, Nat.count_iff_forall, storage.lt_piece_count_iff hvalid hpieces]
  constructor
  · intro h k hk
    have hhas := h _ hk
    rwa [Nat.mul_div_cancel _ hpos] at hhas
  · intro h a ha
    exact h _ ((Nat.div_mul_le_self _ _).trans_lt ha)

end

/-! Version 2: the pieces of each file. -/

/-- The bytes that a piece contributes to a file. -/
def weight (bitfield : PieceBitfield) (layout : V2PieceLayout) (file piece : Nat) : Nat :=
  if bitfield.has piece then
    (layout.piece piece).elim 0 fun mapping => if mapping.file_index = file then mapping.length else 0
  else 0

section
variable {bitfield : PieceBitfield} {layout : V2PieceLayout} {rows : Vec TorrentFile}

/-- A piece adds its weight to a file that has room for it. -/
theorem getElem?_credit_piece {file k : Nat} {row : TorrentFile} (hrow : rows[file]? = some row)
    (hmax : row.length ≤ usize.MAX) (hbound : row.bytes_completed + weight bitfield layout file k ≤ row.length) :
    (credit_piece bitfield layout rows k)[file]? =
      some { row with bytes_completed := row.bytes_completed + weight bitfield layout file k } := by
  have hmax : row.length ≤ 2 ^ 64 - 1 := hmax
  unfold credit_piece
  unfold weight at hbound ⊢
  cases hhas : bitfield.has k with
  | false => simpa [hhas] using hrow
  | true =>
    cases hpiece : layout.piece k with
    | none => simpa [hhas, hpiece] using hrow
    | some mapping =>
      simp only [hhas, hpiece, if_true, Option.elim_some] at hbound ⊢
      rw [List.getElem?_modify, hrow]
      by_cases hfile : mapping.file_index = file
      · rw [if_pos hfile] at hbound ⊢
        simp only [if_pos hfile, Option.map_eq_map, Option.map_some, u64.saturating_add]
        congr 2
        omega
      · simp [if_neg hfile]

@[simp]
theorem length_credit_piece (k : Nat) : (credit_piece bitfield layout rows k).length = rows.length := by
  unfold credit_piece
  split
  · split
    · exact List.length_modify _ _ _
    · rfl
  · rfl

/-- After some of the pieces, each file has the bytes that these contribute to it. -/
theorem getElem?_foldl_credit_piece {n : Nat} {file : Nat} {row : TorrentFile} (hrow : rows[file]? = some row)
    (hmax : row.length ≤ usize.MAX) (hbound : ∑ k ∈ Finset.range n, weight bitfield layout file k ≤ row.length) :
    ((List.range n).foldl (credit_piece bitfield layout)
      (rows.map fun row => { row with bytes_completed := 0 }))[file]? =
      some { row with bytes_completed := ∑ k ∈ Finset.range n, weight bitfield layout file k } := by
  induction n with
  | zero => simp [hrow]
  | succ n ih =>
    rw [Finset.sum_range_succ] at hbound ⊢
    rw [List.range_succ, List.foldl_append, List.foldl_cons, List.foldl_nil]
    exact getElem?_credit_piece (ih (by omega)) hmax hbound

theorem length_foldl_credit_piece (n : Nat) :
    ((List.range n).foldl (credit_piece bitfield layout) rows).length = rows.length := by
  induction n with
  | zero => rfl
  | succ n ih => rw [List.range_succ, List.foldl_append, List.foldl_cons, List.foldl_nil, length_credit_piece, ih]

variable {torrent : TorrentMeta}

/-- A file is contributed no more than it has. -/
theorem sum_weight_le (hlayout : V2PieceLayout.from_meta torrent = .ok layout)
    (file : Nat) : ∑ k ∈ Finset.range layout.piece_count, weight bitfield layout file k ≤
      (torrent.files.map MetaFile.length).getD file 0 := by
  have hfile := List.sum_map_ite (fun piece => piece.file_index = file) V2Piece.length (fun _ => 0) layout.pieces
  rw [List.map_const', List.sum_replicate, nsmul_zero, Nat.add_zero] at hfile
  rw [← v2.from_meta_sum_file hlayout file, ← hfile, sum_map_getElem?]
  apply Finset.sum_le_sum
  intro k _
  unfold weight
  split
  · simp [V2PieceLayout.piece]
  · exact Nat.zero_le _

/-- A piece contributes its bytes to one of the files. -/
theorem sum_weight_files (hlayout : V2PieceLayout.from_meta torrent = .ok layout)
    (k : Nat) : ∑ file ∈ Finset.range torrent.files.length, weight bitfield layout file k =
      if bitfield.has k then (layout.piece k).elim 0 V2Piece.length else 0 := by
  unfold weight
  cases bitfield.has k with
  | false => simp
  | true =>
    cases hpiece : layout.piece k with
    | none => simp
    | some mapping =>
      have hbytes := (v2.from_meta_piece hlayout hpiece).2
      have hfile : mapping.file_index < torrent.files.length := by
        by_contra hout
        have hsum := v2.from_meta_sum_file hlayout mapping.file_index
        rw [List.getD_eq_default _ _ (by rw [List.length_map]; omega)] at hsum
        have hmem : mapping ∈ layout.pieces.filter fun piece => piece.file_index = mapping.file_index :=
          List.mem_filter.mpr ⟨List.mem_of_getElem? hpiece, by simp⟩
        have := List.le_sum_of_mem (List.mem_map_of_mem (f := V2Piece.length) hmem)
        omega
      simp [hfile]

theorem verified_bytes_v2 (hplane : torrent.requires_v2_data_plane = true)
    (hlayout : V2PieceLayout.from_meta torrent = .ok layout) :
    verified_bytes torrent bitfield = ∑ k ∈ Finset.range layout.piece_count,
      if bitfield.has k then (layout.piece k).elim 0 V2Piece.length else 0 := by
  rw [verified_bytes, if_pos hplane, TorrentMeta.v2_piece_layout, hlayout]
  exact sum_filterMap_range _ _ _ _

end

namespace Torrent

/-- What the counts by file, by piece and by the pieces of full length agree on. -/
structure Accounted (torrent : Torrent) : Prop where
  files_le : ∀ row ∈ torrent.recompute_file_bytes_completed.files, row.bytes_completed ≤ row.length
  files_sum : (torrent.recompute_file_bytes_completed.files.map TorrentFile.bytes_completed).sum =
    verified_bytes torrent.torrent_meta torrent.progress.bitfield
  state_eq : torrent.torrent_meta.requires_v2_data_plane = false → ∀ state : engine.EngineState,
    state.piece_count = torrent.torrent_meta.piece_count →
    (engine.update_progress_state state torrent.torrent_meta torrent.progress.bitfield).bytes_completed =
      verified_bytes torrent.torrent_meta torrent.progress.bitfield
  total_iff : verified_bytes torrent.torrent_meta torrent.progress.bitfield = torrent.torrent_meta.total_length ↔
    ∀ i < torrent.torrent_meta.piece_total, torrent.progress.bitfield.has i = true

section
variable {sha : Sha} {self : Torrent}

theorem accounted_v1 (hvalid : Valid sha self.torrent_meta) (hplane : self.torrent_meta.requires_v2_data_plane = false)
    (hfiles : self.files.map TorrentFile.length = self.torrent_meta.files.map MetaFile.length) : self.Accounted := by
  have hpieces := hvalid.v1_pieces hplane
  have hsum := hvalid.files.sum_length
  have hbytes : verified_bytes self.torrent_meta self.progress.bitfield = _ := verified_bytes_v1 hplane hvalid hpieces
  obtain ⟨out, hout, hle, hout_sum⟩ := @credit_files_spec self.torrent_meta self.progress.bitfield _ 0 rfl
    hvalid.piece_length_pos hvalid.files.total_le self.torrent_meta.files [] self.files hfiles
    (by rw [hsum, Nat.zero_add])
  rw [hsum, Nat.zero_add] at hout_sum
  have hrows : self.recompute_file_bytes_completed.files = out := by
    rw [recompute_file_bytes_completed, if_neg (by simp [hplane])]
    exact hout
  have htotal : self.torrent_meta.piece_total = self.torrent_meta.piece_count := by
    simp [TorrentMeta.piece_total, TorrentMeta.data_piece_count, hplane]
  refine ⟨hrows ▸ hle, ?_, fun _ state hstate => ?_, ?_⟩
  · rw [hrows, hbytes, ← hout_sum]
    rfl
  · rw [bytes_completed_eq hvalid hpieces hstate, hbytes]
  · rw [hbytes, htotal, present_eq_total_iff hvalid hpieces]

theorem accounted_v2 (hvalid : Valid sha self.torrent_meta)
    (hplane : self.torrent_meta.requires_v2_data_plane = true) {layout : V2PieceLayout}
    (hlayout : V2PieceLayout.from_meta self.torrent_meta = .ok layout)
    (hfiles : self.files.map TorrentFile.length = self.torrent_meta.files.map MetaFile.length) : self.Accounted := by
  have hbytes : verified_bytes self.torrent_meta self.progress.bitfield = _ := verified_bytes_v2 hplane hlayout
  have htotal : self.torrent_meta.piece_total = layout.piece_count := by
    simp [TorrentMeta.piece_total, TorrentMeta.data_piece_count, TorrentMeta.v2_piece_layout, hplane, hlayout,
      Except.map]
  have hcount : self.files.length = self.torrent_meta.files.length := by simpa using congrArg List.length hfiles
  let out := (List.range layout.piece_count).foldl (credit_piece self.progress.bitfield layout)
    (self.files.map fun row => { row with bytes_completed := 0 })
  have hrows : self.recompute_file_bytes_completed.files = out := by
    rw [recompute_file_bytes_completed, if_pos hplane, TorrentMeta.v2_piece_layout, hlayout]
  have hout_length : out.length = self.torrent_meta.files.length := by
    rw [length_foldl_credit_piece, List.length_map, hcount]
  have hbound {file : Nat} {row : TorrentFile} (hrow : self.files[file]? = some row) :
      ∑ k ∈ Finset.range layout.piece_count, weight self.progress.bitfield layout file k ≤ row.length := by
    have hle := @sum_weight_le self.progress.bitfield layout self.torrent_meta hlayout file
    rw [← hfiles, List.getD_eq_getElem?_getD, List.getElem?_map, hrow] at hle
    exact hle
  have hmax {row : TorrentFile} (hrow : row ∈ self.files) : row.length ≤ usize.MAX := by
    have hle := List.le_sum_of_mem (List.mem_map_of_mem (f := TorrentFile.length) hrow)
    rw [hfiles, hvalid.files.sum_length] at hle
    exact hle.trans hvalid.files.total_le
  have hout {file : Nat} {row : TorrentFile} (hrow : self.files[file]? = some row) : out[file]? = some _ :=
    getElem?_foldl_credit_piece hrow (hmax (List.mem_of_getElem? hrow)) (hbound hrow)
  refine ⟨?_, ?_, fun hv1 => absurd (hplane.symm.trans hv1) (by decide), ?_⟩
  · intro credited hcredited
    rw [hrows] at hcredited
    obtain ⟨file, hfile⟩ := List.mem_iff_getElem?.mp hcredited
    have hlt : file < self.files.length := by
      rw [hcount, ← hout_length]
      exact (List.getElem?_eq_some_iff.mp hfile).1
    have hrow := List.getElem?_eq_getElem hlt
    obtain rfl := Option.some.inj (hfile.symm.trans (hout hrow))
    have hle := hbound hrow
    exact hle
  · rw [hrows, hbytes, sum_map_getElem?, hout_length]
    rw [Finset.sum_congr rfl fun k _ => (sum_weight_files hlayout k).symm, Finset.sum_comm]
    apply Finset.sum_congr rfl
    intro file hfile
    have hlt : file < self.files.length := by
      rw [hcount]
      exact Finset.mem_range.mp hfile
    rw [hout (List.getElem?_eq_getElem hlt)]
    rfl
  · rw [hbytes, htotal, ← hvalid.files.sum_length, ← v2.from_meta_sum hlayout, sum_map_getElem?]
    refine sum_ite_eq_sum_iff fun k hk => ?_
    have hpiece : layout.piece k = some _ := List.getElem?_eq_getElem hk
    have hlength := (v2.from_meta_piece hlayout hpiece).2
    rw [hpiece]
    exact hlength

variable {bytes : Bytes}

/-- Metadata that cannot be laid out has no piece to hold, and no byte of it counts. -/
theorem not_laid_out (h : parse_torrent sha bytes = .ok self.torrent_meta)
    (hplane : self.torrent_meta.requires_v2_data_plane = true)
    (hmany : MAX_TORRENT_PIECES < total_pieces self.torrent_meta.piece_length self.torrent_meta.files) :
    self.torrent_meta.piece_total = 0 ∧ ∀ bitfield, verified_bytes self.torrent_meta bitfield = 0 := by
  obtain ⟨⟨hash, hidentity⟩, hpieces⟩ := (parse_torrent_valid h).pure_v2 hplane
  cases hlayout : V2PieceLayout.from_meta self.torrent_meta with
  | ok layout =>
    have hle := v2.total_le_of_from_meta h hidentity hlayout
    omega
  | error err =>
    refine ⟨?_, fun bitfield => ?_⟩
    · simp [TorrentMeta.piece_total, TorrentMeta.data_piece_count, TorrentMeta.v2_piece_layout, hplane, hlayout,
        Except.map, TorrentMeta.piece_count, hpieces]
    · rw [verified_bytes, if_pos hplane, TorrentMeta.v2_piece_layout, hlayout]

theorem Accounted.total_le (haccounted : self.Accounted) (h : parse_torrent sha bytes = .ok self.torrent_meta)
    (hplane : self.torrent_meta.requires_v2_data_plane = true) :
    total_pieces self.torrent_meta.piece_length self.torrent_meta.files ≤ MAX_TORRENT_PIECES := by
  by_contra hmany
  obtain ⟨htotal, hnone⟩ := not_laid_out h hplane (Nat.not_le.mp hmany)
  have hzero := haccounted.total_iff.mpr fun i hi => absurd hi (by omega)
  rw [hnone] at hzero
  have hpositive := (parse_torrent_valid h).total_length_pos
  omega

/-- The counts agree exactly if the pieces of a pure version 2 torrent can be laid out. -/
theorem accounted_iff (h : parse_torrent sha bytes = .ok self.torrent_meta)
    (hfiles : self.files.map TorrentFile.length = self.torrent_meta.files.map MetaFile.length) :
    self.Accounted ↔ (self.torrent_meta.requires_v2_data_plane = true →
      total_pieces self.torrent_meta.piece_length self.torrent_meta.files ≤ MAX_TORRENT_PIECES) := by
  have hvalid := parse_torrent_valid h
  constructor
  · intro haccounted hplane
    exact haccounted.total_le h hplane
  · intro hlimit
    cases hplane : self.torrent_meta.requires_v2_data_plane with
    | false => exact accounted_v1 hvalid hplane hfiles
    | true =>
      obtain ⟨⟨hash, hidentity⟩, -⟩ := (parse_torrent_valid h).pure_v2 hplane
      obtain ⟨layout, hlayout⟩ := v2.exists_from_meta h hidentity (hlimit hplane)
      exact accounted_v2 hvalid hplane hlayout hfiles

theorem new_files (torrent : TorrentMeta) :
    (new torrent).files.map TorrentFile.length = torrent.files.map MetaFile.length := by
  calc (new torrent).files.map TorrentFile.length = (torrent.files.zipIdx.map Prod.fst).map MetaFile.length := by
        simp only [new, List.map_map, Function.comp_def]
    _ = torrent.files.map MetaFile.length := by rw [List.zipIdx_map_fst]

end

/-- Two files of two pieces each, of which the first and the last piece are there. -/
theorem accounted_iff_twins :
    ∃ torrent, parse_torrent Sha.leading (Value.Dict (v2.twin_root 20000 2)).serialize = .ok torrent ∧
      torrent.requires_v2_data_plane = true ∧ total_pieces torrent.piece_length torrent.files = 4 ∧
      ({ new torrent with progress := ⟨⟨[0x90]⟩, 4, 2⟩ } : Torrent).Accounted := by
  have hread : (parse_torrent Sha.leading (Value.Dict (v2.twin_root 20000 2)).serialize >>= fun torrent =>
      .ok (torrent.requires_v2_data_plane, total_pieces torrent.piece_length torrent.files)) =
      .ok (true, 4) := by decide +kernel
  obtain ⟨torrent, htorrent, hfields⟩ := bind_eq_ok_iff.mp hread
  obtain ⟨hplane, htotal⟩ := Prod.ext_iff.mp (Except.ok.inj hfields)
  have hfew : total_pieces torrent.piece_length torrent.files ≤ MAX_TORRENT_PIECES := htotal.le.trans (by decide)
  refine ⟨torrent, htorrent, hplane, htotal, ?_⟩
  apply (accounted_iff htorrent ?_).mpr
  · exact fun _ => hfew
  · exact new_files torrent

/-- Two files with too many pieces together: whatever is held, no byte of them counts. -/
theorem large_twins_unaccounted :
    ∃ torrent, parse_torrent Sha.leading (Value.Dict (v2.twin_root 6144016384 375001)).serialize = .ok torrent ∧
      total_pieces torrent.piece_length torrent.files = 750002 ∧ 0 < torrent.total_length ∧
      (∀ bitfield, verified_bytes torrent bitfield = 0) ∧ ¬ (new torrent).Accounted := by
  obtain ⟨torrent, hparsed, hidentity, hcount⟩ := v2.parse_large_twins
  have hplane : torrent.requires_v2_data_plane = true := by
    simp [TorrentMeta.requires_v2_data_plane, hidentity, TorrentIdentity.v1_info_hash]
  have hmany : MAX_TORRENT_PIECES < total_pieces torrent.piece_length torrent.files := by
    rw [hcount]
    decide
  have hparsed' : parse_torrent Sha.leading (Value.Dict (v2.twin_root 6144016384 375001)).serialize =
      .ok (new torrent).torrent_meta := hparsed
  refine ⟨torrent, hparsed, hcount, (parse_torrent_valid hparsed).total_length_pos,
    (not_laid_out hparsed' hplane hmany).2, fun haccounted => ?_⟩
  exact absurd (haccounted.total_le hparsed' hplane) (Nat.not_le.mpr hmany)

end Torrent

end torrent

end swarmotter

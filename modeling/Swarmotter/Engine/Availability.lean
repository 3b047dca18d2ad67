import Swarmotter.Engine.PieceWindow
import Swarmotter.Lib.Tally

open swarmotter.net tally swarmotter.peer swarmotter.storage

namespace swarmotter.engine

/-! How many peers have a piece. -/

/-- What the sessions report of their peers. -/
inductive PeerCall where
  | note_peer_bitfield (peer : SocketAddr) (bits : Bytes)
  | note_peer_have (peer : SocketAddr) (piece : UInt32)
  | remove_peer (peer : SocketAddr)

namespace ParallelPieceState

def call (piece_count : Nat) (self : ParallelPieceState) : PeerCall → ParallelPieceState
  | .note_peer_bitfield peer bits => self.note_peer_bitfield peer (Bitfield.from_bytes bits piece_count) piece_count
  | .note_peer_have peer piece => self.note_peer_have peer piece piece_count
  | .remove_peer peer => self.remove_peer peer piece_count

/-- The availability of each piece is the number of peers whose recorded bitfield has it. -/
def Counts (piece_count : Nat) (state : ParallelPieceState) : Prop :=
  ∀ i < piece_count, state.availability[i]? = some (count (·.has i) state.peer_pieces)

/-- The recorded bitfield of a peer that announces a piece has a byte for it. -/
def Recordable (piece_count : Nat) (state : ParallelPieceState) : PeerCall → Prop
  | .note_peer_have peer piece => piece.toNat < piece_count →
      ∀ bitfield ∈ state.peer_pieces.lookup peer, piece.toNat / 8 < bitfield.bits.length
  | _ => True

/-- The bitfields are recorded for the pieces of the torrent, of at most 65535 peers. -/
structure Recorded (piece_count : Nat) (state : ParallelPieceState) : Prop where
  piece_count_eq : ∀ peer, ∀ bitfield ∈ state.peer_pieces.lookup peer, bitfield.piece_count = piece_count
  peers : state.peer_pieces.entries.length ≤ u16.MAX

section
variable {piece_count : Nat} {state : ParallelPieceState} {peer : SocketAddr}

theorem getElem?_forget_peer (hcounts : Counts piece_count state) {i : Nat} (hi : i < piece_count) :
    (state.forget_peer peer piece_count)[i]? = some (count (·.has i) (state.peer_pieces.erase peer)) := by
  have herase : count (·.has i) (state.peer_pieces.erase peer) + one (·.has i)
      (state.peer_pieces.lookup peer) = count (·.has i) state.peer_pieces := count_erase _
  unfold forget_peer
  cases hlookup : state.peer_pieces.lookup peer with
  | none =>
    rw [hlookup] at herase
    rw [hcounts i hi, ← herase]
    rfl
  | some previous =>
    rw [hlookup] at herase
    dsimp only
    rw [getElem?_each_piece, hcounts i hi, ← herase]
    cases hhas : previous.has i <;> simp [one, hhas, hi]

/-- The availability once a bitfield is recorded for a peer. -/
theorem getElem?_note_peer_bitfield (hcounts : Counts piece_count state) (bitfield : Bitfield)
    (hpeers : (state.peer_pieces.insert peer bitfield).entries.length ≤ u16.MAX) {i : Nat} (hi : i < piece_count) :
    (state.note_peer_bitfield peer bitfield piece_count).availability[i]? =
      some (count (·.has i) (state.peer_pieces.insert peer bitfield)) := by
  have hinsert : count (·.has i) (state.peer_pieces.insert peer bitfield) =
      count (·.has i) (state.peer_pieces.erase peer) + one (·.has i) (some bitfield) := count_insert _
  have hroom : count (·.has i) (state.peer_pieces.erase peer) + 1 ≤ u16.MAX :=
    (Nat.succ_le_succ (count_le _)).trans hpeers
  change (each_piece piece_count bitfield (u16.saturating_add · 1) (state.forget_peer peer piece_count))[i]? = _
  rw [getElem?_each_piece, getElem?_forget_peer hcounts hi, hinsert]
  cases hhas : bitfield.has i with
  | true => simp [one, hhas, hi, u16.saturating_add, hroom]
  | false => simp [one, hhas]

theorem counts_remove_peer (hcounts : Counts piece_count state) :
    Counts piece_count (state.remove_peer peer piece_count) :=
  fun _ hi => getElem?_forget_peer hcounts hi

/-- The bitfield that an announcement of the peer is recorded in. -/
def entry (piece_count : Nat) (state : ParallelPieceState) (peer : SocketAddr) : Bitfield :=
  (state.peer_pieces.lookup peer).getD (Bitfield.new piece_count)

theorem one_lookup (i : Nat) :
    one (·.has i) (state.peer_pieces.lookup peer) = ((state.entry piece_count peer).has i).toNat := by
  unfold one entry
  cases state.peer_pieces.lookup peer with
  | none => rw [Option.elim_none, Option.getD_none, Bitfield.has_new]
  | some bitfield => rfl

theorem piece_count_entry (hrecorded : Recorded piece_count state) :
    (state.entry piece_count peer).piece_count = piece_count := by
  unfold entry
  cases hlookup : state.peer_pieces.lookup peer with
  | none => rfl
  | some bitfield => exact hrecorded.piece_count_eq peer bitfield hlookup

/-- The availability of a piece, with the peer apart. -/
theorem getElem?_entry (hcounts : Counts piece_count state) {i : Nat} (hi : i < piece_count) :
    state.availability[i]? = some (count (·.has i) (state.peer_pieces.erase peer) +
      ((state.entry piece_count peer).has i).toNat) := by
  rw [hcounts i hi, ← one_lookup]
  exact congrArg some (count_erase _).symm

theorem recordable_iff {piece : UInt32} (hpiece : piece.toNat < piece_count) :
    Recordable piece_count state (.note_peer_have peer piece) ↔
      piece.toNat / 8 < (state.entry piece_count peer).bits.length := by
  unfold Recordable entry
  cases hlookup : state.peer_pieces.lookup peer with
  | none =>
    have hbyte : piece.toNat / 8 < (Bitfield.new piece_count).bits.length := by
      rw [Bitfield.new, List.length_replicate]
      omega
    simp [hlookup, hbyte]
  | some bitfield => simp [hlookup, hpiece]

theorem note_peer_have_eq {piece : UInt32} (hpiece : piece.toNat < piece_count) :
    state.note_peer_have peer piece piece_count =
      if (state.entry piece_count peer).has piece.toNat then
        { state with peer_pieces := state.peer_pieces.insert peer (state.entry piece_count peer) }
      else { state with
        peer_pieces := state.peer_pieces.insert peer ((state.entry piece_count peer).set piece.toNat)
        availability := state.availability.modify piece.toNat (u16.saturating_add · 1) } := by
  rw [note_peer_have, if_neg (Nat.not_le.mpr hpiece)]
  rfl

/-- A piece that a peer announces is counted if and only if it can be recorded. -/
theorem counts_note_peer_have_iff (hcounts : Counts piece_count state) (hrecorded : Recorded piece_count state)
    (piece : UInt32) (hpeers : (state.note_peer_have peer piece piece_count).peer_pieces.entries.length ≤ u16.MAX) :
    Counts piece_count (state.note_peer_have peer piece piece_count) ↔
      Recordable piece_count state (.note_peer_have peer piece) := by
  by_cases hpiece : piece.toNat < piece_count
  case neg =>
    rw [note_peer_have, if_pos (Nat.not_lt.mp hpiece)]
    exact iff_of_true hcounts fun hlt => absurd hlt hpiece
  rw [recordable_iff hpiece]
  have hbefore : ∀ i < piece_count, state.availability[i]? = some (count (·.has i) (state.peer_pieces.erase peer) +
      ((state.entry piece_count peer).has i).toNat) := fun i hi => getElem?_entry hcounts hi
  have hafter : ∀ i bitfield, count (·.has i) (state.peer_pieces.insert peer bitfield) =
      count (·.has i) (state.peer_pieces.erase peer) + (bitfield.has i).toNat := fun _ _ => count_insert _
  rw [note_peer_have_eq hpiece] at hpeers ⊢
  by_cases hhas : (state.entry piece_count peer).has piece.toNat = true
  · rw [if_pos hhas]
    apply iff_of_true
    · intro i hi
      exact (hbefore i hi).trans (congrArg some (hafter i _).symm)
    · by_contra hshort
      rw [Bitfield.has_of_short (Nat.not_lt.mp hshort)] at hhas
      exact Bool.false_ne_true hhas
  · rw [if_neg hhas] at hpeers ⊢
    have hroom : count (·.has piece.toNat) (state.peer_pieces.erase peer) + 1 ≤ u16.MAX :=
      (Nat.succ_le_succ (count_le _)).trans hpeers
    -- the piece is counted one more time, whether or not it could be recorded
    have hpiece' : (state.availability.modify piece.toNat (u16.saturating_add · 1))[piece.toNat]? =
        some (count (·.has piece.toNat) (state.peer_pieces.erase peer) + 1) := by
      rw [List.getElem?_modify, hbefore _ hpiece, Bool.eq_false_of_not_eq_true hhas]
      simp [u16.saturating_add, hroom]
    constructor
    · intro hcounts'
      by_contra hshort
      have hcount := hcounts' piece.toNat hpiece
      dsimp only at hcount
      rw [hpiece', hafter, Bitfield.set_of_short (Nat.not_lt.mp hshort), Bool.eq_false_of_not_eq_true hhas] at hcount
      simp at hcount
    · intro hbyte i hi
      dsimp only
      rw [hafter]
      by_cases heq : i = piece.toNat
      · rw [heq, hpiece', Bitfield.has_set_self (by rw [piece_count_entry hrecorded]; exact hpiece) hbyte]
        rfl
      · rw [List.getElem?_modify, hbefore i hi, Bitfield.has_set_of_ne heq]
        exact congrArg some (if_neg (Ne.symm heq))

end

/-! Sequences of calls. -/

section
variable {piece_count : Nat} {state : ParallelPieceState}

theorem Recorded.call (h : Recorded piece_count state) (next : PeerCall)
    (hpeers : (state.call piece_count next).peer_pieces.entries.length ≤ u16.MAX) :
    Recorded piece_count (state.call piece_count next) := by
  have hinsert : ∀ {peer bitfield}, bitfield.piece_count = piece_count →
      ∀ other, ∀ found ∈ (state.peer_pieces.insert peer bitfield).lookup other, found.piece_count = piece_count := by
    intro peer bitfield hbitfield other found hfound
    by_cases hother : other = peer
    · rw [hother, AList.lookup_insert] at hfound
      rw [← Option.some.inj hfound]
      exact hbitfield
    · rw [AList.lookup_insert_ne hother] at hfound
      exact h.piece_count_eq other found hfound
  refine ⟨?_, hpeers⟩
  cases next with
  | note_peer_bitfield peer bits => exact hinsert rfl
  | note_peer_have peer piece =>
    by_cases hpiece : piece.toNat < piece_count
    · change ∀ other, ∀ found ∈ (state.note_peer_have peer piece piece_count).peer_pieces.lookup other, _
      rw [note_peer_have_eq hpiece]
      split
      · exact hinsert (piece_count_entry h)
      · exact hinsert ((Bitfield.piece_count_set _ _).trans (piece_count_entry h))
    · change ∀ other, ∀ found ∈ (state.note_peer_have peer piece piece_count).peer_pieces.lookup other, _
      rw [note_peer_have, if_pos (Nat.not_lt.mp hpiece)]
      exact h.piece_count_eq
  | remove_peer peer =>
    intro other found hfound
    by_cases hother : other = peer
    · change found ∈ (state.peer_pieces.erase peer).lookup other at hfound
      rw [hother, AList.lookup_erase] at hfound
      exact absurd hfound (Option.not_mem_none _)
    · change found ∈ (state.peer_pieces.erase peer).lookup other at hfound
      rw [AList.lookup_erase_ne hother] at hfound
      exact h.piece_count_eq other found hfound

theorem counts_call_iff (hcounts : Counts piece_count state) (hrecorded : Recorded piece_count state) (next : PeerCall)
    (hpeers : (state.call piece_count next).peer_pieces.entries.length ≤ u16.MAX) :
    Counts piece_count (state.call piece_count next) ↔ Recordable piece_count state next := by
  cases next with
  | note_peer_bitfield peer bits =>
    exact iff_of_true (fun i hi => getElem?_note_peer_bitfield hcounts _ hpeers hi) trivial
  | note_peer_have peer piece => exact counts_note_peer_have_iff hcounts hrecorded piece hpeers
  | remove_peer peer => exact iff_of_true (counts_remove_peer hcounts) trivial

end

/-- The state after a sequence of calls. -/
def run (piece_count : Nat) (start : ParallelPieceState) (calls : List PeerCall) : ParallelPieceState :=
  calls.foldl (call piece_count) start

/-- With at most 65535 peers at a time the availability is always the number of peers with the piece, if and only if no
peer announces a piece for which its recorded bitfield is too short. -/
theorem availability_counts_iff (shared_have : PieceBitfield) (piece_count : Nat) (selection : PieceSelection)
    (calls : List PeerCall)
    (hpeers : ∀ past, past <+: calls →
      (run piece_count (new shared_have piece_count selection) past).peer_pieces.entries.length ≤ 65535) :
    (∀ past, past <+: calls → Counts piece_count (run piece_count (new shared_have piece_count selection) past)) ↔
      ∀ past next, past ++ [next] <+: calls →
        Recordable piece_count (run piece_count (new shared_have piece_count selection) past) next := by
  have hstep : ∀ past next, run piece_count (new shared_have piece_count selection) (past ++ [next]) =
      (run piece_count (new shared_have piece_count selection) past).call piece_count next := by
    intro past next
    rw [run, List.foldl_append]
    rfl
  have hrecorded : ∀ past, past <+: calls →
      Recorded piece_count (run piece_count (new shared_have piece_count selection) past) := by
    intro past
    induction past using List.reverseRecOn with
    | nil => exact fun _ => ⟨fun _ _ h => absurd h (Option.not_mem_none _), Nat.zero_le _⟩
    | append_singleton past next ih =>
      intro hpast
      have hlength := hpeers _ hpast
      rw [hstep] at hlength ⊢
      exact (ih ((List.prefix_append _ _).trans hpast)).call next hlength
  constructor
  · intro hcounts past next hpast
    have hlength := hpeers _ hpast
    have hafter := hcounts _ hpast
    rw [hstep] at hlength hafter
    have hbefore := (List.prefix_append past [next]).trans hpast
    exact (counts_call_iff (hcounts past hbefore) (hrecorded past hbefore) next hlength).mp hafter
  · intro hrecordable past
    induction past using List.reverseRecOn with
    | nil =>
      intro _ i hi
      exact (List.getElem?_replicate_of_lt hi).trans rfl
    | append_singleton past next ih =>
      intro hpast
      have hlength := hpeers _ hpast
      rw [hstep] at hlength ⊢
      have hbefore := (List.prefix_append past [next]).trans hpast
      exact (counts_call_iff (ih hbefore) (hrecorded past hbefore) next hlength).mpr (hrecordable past next hpast)

def sample_peer : SocketAddr := ⟨.V4 ⟨#v[10, 0, 0, 6]⟩, 6881⟩

/-- A peer has the first of sixteen pieces, and announces the second. -/
def sample_calls : List PeerCall := [.note_peer_bitfield sample_peer [0x80, 0], .note_peer_have sample_peer 1]

theorem availability_counts_iff_announced :
    (run 16 (new (.new 16) 16 ⟨[]⟩) sample_calls).availability.take 3 = [1, 1, 0] ∧
      Counts 16 (run 16 (new (.new 16) 16 ⟨[]⟩) sample_calls) := by
  refine ⟨by decide +kernel, ?_⟩
  have hinits : ∀ past, past <+: sample_calls → past = [] ∨ past = [] ++ [.note_peer_bitfield sample_peer [0x80, 0]] ∨
      past = [.note_peer_bitfield sample_peer [0x80, 0]] ++ [.note_peer_have sample_peer 1] := by
    intro past hpast
    simpa [sample_calls] using (List.mem_inits _ _).mpr hpast
  refine (availability_counts_iff (.new 16) 16 ⟨[]⟩ sample_calls ?_).mpr ?_ _ (List.prefix_refl _)
  · intro past hpast
    rcases hinits past hpast with rfl | rfl | rfl <;> decide +kernel
  · intro past next hpast
    rcases hinits _ hpast with hnil | hone | htwo
    · exact absurd hnil (List.append_ne_nil_of_right_ne_nil _ (List.cons_ne_nil _ _))
    · obtain ⟨rfl, hnext⟩ := List.append_inj' hone rfl
      cases hnext
      exact trivial
    · obtain ⟨rfl, hnext⟩ := List.append_inj' htwo rfl
      cases hnext
      change _ → ∀ bitfield ∈ _, _
      decide +kernel

/-- A peer with a bitfield of one byte announces the ninth of sixteen pieces twice. It is counted twice, and recorded
never. -/
theorem announced_piece_counted_twice :
    (run 16 (new (.new 16) 16 ⟨[]⟩) [.note_peer_bitfield sample_peer [0x80], .note_peer_have sample_peer 8,
        .note_peer_have sample_peer 8]).availability[8]? = some 2 ∧
      count (·.has 8) (run 16 (new (.new 16) 16 ⟨[]⟩) [.note_peer_bitfield sample_peer [0x80],
        .note_peer_have sample_peer 8, .note_peer_have sample_peer 8]).peer_pieces = 0 := by
  decide +kernel

end ParallelPieceState

end swarmotter.engine

import Swarmotter.Engine.PieceWindow
import Swarmotter.Lib.Holdings

open swarmotter.net swarmotter.peer swarmotter.storage

namespace swarmotter.engine

/-! The choice of a piece. -/

section
variable {pool : ParallelPieceState} {peer_bf : Bitfield} {piece_count : Nat}

theorem piece_shard_lt (peer_addr : SocketAddr) (h : 0 < piece_count) :
    piece_shard peer_addr piece_count < piece_count := by
  unfold piece_shard
  rw [if_neg (Nat.ne_of_gt h)]
  exact Nat.mod_lt _ h

/-- The search goes over all pieces, from wherever it starts. -/
theorem mem_rotated {shard i : Nat} (hshard : shard < piece_count) :
    i ∈ ((List.range piece_count).map fun offset => (shard + offset) % piece_count) ↔ i < piece_count := by
  rw [List.mem_map]
  constructor
  · rintro ⟨offset, -, rfl⟩
    exact Nat.mod_lt _ (by omega)
  · intro hi
    by_cases hle : shard ≤ i
    · refine ⟨i - shard, List.mem_range.mpr (by omega), ?_⟩
      rw [Nat.add_sub_cancel' hle, Nat.mod_eq_of_lt hi]
    · refine ⟨i + piece_count - shard, List.mem_range.mpr (by omega), ?_⟩
      rw [Nat.add_sub_cancel' (by omega), Nat.add_mod_right, Nat.mod_eq_of_lt hi]

/-- The pieces among which `reserve_piece` chooses. -/
theorem mem_search (peer_addr : SocketAddr) {i : Nat} :
    i ∈ ((List.range piece_count).map fun offset => (piece_shard peer_addr piece_count + offset) % piece_count).filter
        (pool.assignable peer_bf) ↔ i < piece_count ∧ pool.assignable peer_bf i = true := by
  rw [List.mem_filter]
  by_cases hzero : piece_count = 0
  · subst hzero
    simp
  · rw [mem_rotated (piece_shard_lt peer_addr (by omega))]

/-- The first one comes before the second in the order of the reservations, or as early as it. -/
theorem reservation_key_le_iff {i j : Nat} :
    pool.reservation_key i ≤ pool.reservation_key j ↔ pool.selection.priority j < pool.selection.priority i ∨
        pool.selection.priority i = pool.selection.priority j ∧
          max ((pool.availability[i]?).getD 0) 1 ≤ max ((pool.availability[j]?).getD 0) 1 := by
  rw [ParallelPieceState.reservation_key, ParallelPieceState.reservation_key, Prod.Lex.toLex_le_toLex]
  simp

/-- What `reserve_piece` can do. -/
inductive Reserves (pool : ParallelPieceState) (peer_bf : Bitfield) (piece_count : Nat) :
    Option Nat × ParallelPieceState → Prop
  | none (hnone : ∀ i < piece_count, pool.assignable peer_bf i = false) : Reserves pool peer_bf piece_count (none, pool)
  | some (piece : Nat) (hlt : piece < piece_count) (hassignable : pool.assignable peer_bf piece = true)
      (hbest : ∀ i < piece_count, pool.assignable peer_bf i = true →
        pool.reservation_key piece ≤ pool.reservation_key i) :
      Reserves pool peer_bf piece_count (some piece, { pool with reserved := insert piece pool.reserved })

theorem reserves_reserve_piece (pool : ParallelPieceState) (peer_bf : Bitfield) (peer_addr : SocketAddr)
    (piece_count : Nat) : Reserves pool peer_bf piece_count (pool.reserve_piece peer_bf peer_addr piece_count) := by
  unfold ParallelPieceState.reserve_piece
  dsimp only
  split
  · rename_i piece hchosen
    obtain ⟨hlt, hassignable⟩ := (mem_search peer_addr).mp (List.argmin_mem hchosen)
    exact .some piece hlt hassignable fun i hi hfree =>
      List.le_of_mem_argmin ((mem_search peer_addr).mpr ⟨hi, hfree⟩) hchosen
  · rename_i hnone
    have hempty := List.argmin_eq_none.mp hnone
    refine .none fun i hi => ?_
    by_contra hfree
    have hmem := (mem_search peer_addr).mpr ⟨hi, Bool.of_not_eq_false hfree⟩
    rw [hempty] at hmem
    exact List.not_mem_nil hmem

end

/-! What the sessions hold. -/

/-- The piece that a session has in hand. -/
@[simp] def WindowPhase.in_hand : WindowPhase → List Nat
  | .Requesting _ _ download => [download.piece_index]
  | .Finishing piece_index _ => [piece_index]
  | _ => []

/-- The pieces that a session has reserved and not yet released. -/
@[simp] def ParallelSession.held (self : ParallelSession) : List Nat := self.phase.in_hand ++ self.downloads.keys

/-- Outside of a window there are no downloads. -/
@[simp] def ParallelSession.Tidy (session : ParallelSession) : Prop :=
  session.phase = .Idle ∨ session.phase = .Ended → session.downloads.keys = []

section
variable {work : Work} {pool : ParallelPieceState} {session : ParallelSession}
  {downloads : AList fun _ : Nat => ParallelPieceDownload}
  {piece_index : Nat} {download : ParallelPieceDownload}

theorem piece_index_send_loop (request_budget fuel : Nat) (writes : Option Nat) (download : ParallelPieceDownload)
    (global_in_flight : Nat) :
    (ParallelPieceDownload.send_loop request_budget fuel writes download global_in_flight).2.1.piece_index =
      download.piece_index :=
  @ParallelPieceDownload.send_loop_keeps (fun sent _ => sent.piece_index = download.piece_index)
    (fun h _ => h) _ _ _ _ _ rfl

theorem assignable_unreserved {peer_bf : Bitfield} {piece : Nat} (h : pool.assignable peer_bf piece = true) :
    piece ∉ pool.reserved := by
  unfold ParallelPieceState.assignable at h
  exact of_decide_eq_true (Bool.and_eq_true_iff.mp h).2

/-- What a step of a session leaves behind: a piece that it has now and had not before is reserved, and one that it has
no longer is free. -/
structure HoldsOn (pool : ParallelPieceState) (session : ParallelSession)
    (after : ParallelPieceState × ParallelSession) :
    Prop where
  balance : after.1.reserved.val + session.held = pool.reserved.val + after.2.held
  tidy : after.2.Tidy

theorem HoldsOn.keep {after : ParallelPieceState × ParallelSession} (hreserved : after.1.reserved = pool.reserved)
    (hheld : after.2.held.Perm session.held) (htidy : after.2.Tidy) : HoldsOn pool session after :=
  ⟨by rw [hreserved, Multiset.coe_eq_coe.mpr hheld], htidy⟩

theorem HoldsOn.give_back {after : ParallelPieceState × ParallelSession} (hmem : piece_index ∈ pool.reserved)
    (hreserved : after.1.reserved = pool.reserved.erase piece_index)
    (hheld : session.held.Perm (piece_index :: after.2.held)) (htidy : after.2.Tidy) : HoldsOn pool session after := by
  refine ⟨?_, htidy⟩
  rw [hreserved, Finset.erase_val, Multiset.coe_eq_coe.mpr hheld, ← Multiset.cons_coe, Multiset.add_cons,
    ← Multiset.cons_add,
    Multiset.cons_erase hmem]

theorem HoldsOn.same (htidy : session.Tidy) : HoldsOn pool session (pool, session) := .keep rfl (.refl _) htidy

/-- Nothing is reserved or released when the window has been filled, and a session without downloads ends. -/
theorem filled_spec (session : ParallelSession) (pool : ParallelPieceState) (piece_count : Nat) (first ok : Bool) :
    (session.filled pool piece_count first ok).1.reserved = pool.reserved ∧
      (session.filled pool piece_count first ok).2.held = session.downloads.keys ∧
      (session.filled pool piece_count first ok).2.Tidy := by
  unfold ParallelSession.filled ParallelSession.finish
  cases hempty : session.downloads.entries.isEmpty <;> cases first <;> cases ok <;>
    simp_all [ParallelSession.Tidy, AList.keys, ParallelPieceState.remove_peer]

theorem learn_spec (session : ParallelSession) (pool : ParallelPieceState) (piece_count : Nat) (message : Message) :
    (session.learn pool piece_count message).1.reserved = pool.reserved ∧
      (session.learn pool piece_count message).2.phase = session.phase ∧
      (session.learn pool piece_count message).2.downloads = session.downloads ∧
      (session.learn pool piece_count message).2.global_in_flight = session.global_in_flight := by
  unfold ParallelSession.learn ParallelPieceState.note_peer_have ParallelPieceState.note_peer_bitfield
  split
  · exact ⟨rfl, rfl, rfl, rfl⟩
  · exact ⟨rfl, rfl, rfl, rfl⟩
  · refine ⟨?_, rfl, rfl, rfl⟩
    dsimp only
    split
    · rfl
    · split <;> rfl
  · exact ⟨rfl, rfl, rfl, rfl⟩
  · split
    · split <;> exact ⟨rfl, rfl, rfl, rfl⟩
    · exact ⟨rfl, rfl, rfl, rfl⟩
  · exact ⟨rfl, rfl, rfl, rfl⟩

/-- A block of a piece of the window leaves the piece there, or in the hand of the session. -/
theorem held_receive_block (hphase : session.phase = .Receiving) (offset : Nat) (block : Bytes)
    (rate writes : Option Nat) (stored : Bool) :
    (session.receive_block work piece_index offset block rate writes stored).held.Perm session.held ∧
      (session.receive_block work piece_index offset block rate writes stored).Tidy := by
  have hopen : session.Tidy := by simp [hphase]
  unfold ParallelSession.receive_block
  split
  · exact ⟨.refl _, hopen⟩
  · next download hlookup =>
    have hmem : piece_index ∈ session.downloads.keys := by
      rw [← AList.mem_keys, ← AList.lookup_isSome, hlookup]
      rfl
    have hperm := (List.perm_cons_erase hmem).symm
    split
    · simp [hphase]
    · exact ⟨.refl _, hopen⟩
    · dsimp only
      split
      · simpa [hphase] using hperm
      · split <;> simpa [hphase] using hperm

variable (htidy : session.Tidy)
include htidy

theorem keeps_learn (piece_count : Nat) (message : Message) :
    HoldsOn pool session (session.learn pool piece_count message) := by
  obtain ⟨hreserved, hphase, hdownloads, -⟩ := learn_spec session pool piece_count message
  refine .keep hreserved (.of_eq ?_) ?_
  · rw [ParallelSession.held, hphase, hdownloads]
    rfl
  · rw [ParallelSession.Tidy, hphase, hdownloads]
    exact htidy

theorem keeps_hear (message : Message) (rate writes : Option Nat) (stored : Bool) :
    HoldsOn pool session (session.hear work pool message rate writes stored) := by
  unfold ParallelSession.hear
  split
  · split
    · exact keeps_learn htidy _ message
    · exact .same htidy
  · next hphase =>
    split
    · exact .same htidy
    · split
      · obtain ⟨hheld, hopen⟩ := held_receive_block hphase _ _ rate writes stored
        exact .keep rfl hheld hopen
      · exact .keep rfl (by simp [hphase]) (by simp)
      · exact keeps_learn htidy _ _
  · exact .same htidy

theorem keeps_stop (failed : Bool) : HoldsOn pool session (session.stop work pool failed) := by
  unfold ParallelSession.stop
  split
  · next hphase => exact .keep rfl (by simp [ParallelSession.finish, hphase]) fun _ => htidy (.inl hphase)
  · next hphase =>
    exact .keep rfl (by simp [hphase]) (by simp)
  · exact .same htidy

variable (hheld : ∀ piece ∈ session.held, piece ∈ pool.reserved) (hnodup : session.held.Nodup)
include hheld hnodup

theorem keeps_proceed (writes : Option Nat) : HoldsOn pool session (session.proceed work pool writes) := by
  have hkeep {session' : ParallelSession} (hnew : session'.held = session.held) (htidy' : session'.Tidy) :
      HoldsOn pool session (pool, session') := .keep rfl (.of_eq hnew) htidy'
  rw [ParallelSession.proceed]
  split
  · next hphase _ =>
    have hempty := htidy (.inl hphase)
    split
    · exact .same htidy
    · exact hkeep (by simp [hphase, hempty]) (by simp)
  · next hphase _ => exact hkeep (by simp [hphase]) (by simp)
  · next first max_for_this_session peer_bf hphase _ =>
    have hfilled (ok : Bool) : HoldsOn pool session (session.filled pool work.torrent.piece_count first ok) := by
      obtain ⟨hreserved, hafter, htidy'⟩ := filled_spec session pool work.torrent.piece_count first ok
      exact .keep hreserved (.of_eq (hafter.trans (by simp [hphase]))) htidy'
    split
    · have hreserves := reserves_reserve_piece pool peer_bf session.peer_socket work.torrent.piece_count
      generalize pool.reserve_piece peer_bf session.peer_socket work.torrent.piece_count = answer at hreserves ⊢
      cases hreserves with
      | none => exact hfilled true
      | some piece hlt hassignable hbest =>
        -- the length of the piece is known, so that it is not reserved in vain
        simp only [meta.TorrentMeta.piece_length_for_index_u32_eq_ok work.valid.piece_length_pos
          work.valid.piece_length_le hlt]
        refine ⟨?_, by simp⟩
        simp [hphase, Finset.insert_val_of_notMem (assignable_unreserved hassignable), ParallelPieceDownload.new,
          ← Multiset.cons_coe]
    · exact hfilled true
  · next first max_for_this_session download hphase =>
    have hindex := piece_index_send_loop session.request_window.desired_in_flight
      (download.reqs.length - download.next_req) writes download session.global_in_flight
    dsimp only [ParallelPieceDownload.send_more]
    generalize ParallelPieceDownload.send_loop session.request_window.desired_in_flight
      (download.reqs.length - download.next_req) writes download session.global_in_flight = sent at hindex ⊢
    obtain ⟨ok, sent, global_in_flight⟩ := sent
    have hnew : download.piece_index ∉ session.downloads.keys := by simp_all
    cases ok with
    | true => exact hkeep (by simp_all [AList.keys_insert, List.erase_of_not_mem]) (by simp)
    | false => exact hkeep (by simp_all) (by simp)
  · next hphase =>
    split
    · exact hkeep (by simp [hphase]) (by simp)
    · exact .same htidy
  · next piece_index outcome hphase =>
    have hmem := hheld piece_index (by simp [hphase])
    cases outcome with
    | Stored =>
      by_cases hwrites : writes = some 0 <;>
        exact .give_back hmem rfl (.of_eq (by simp [ParallelSession.release_finished, hphase, hwrites]))
          (by simp [ParallelSession.release_finished, hwrites])
    | WriteFailed | HashMismatch =>
      exact .give_back hmem rfl (.of_eq (by simp [ParallelSession.release_finished, hphase]))
        (by simp [ParallelSession.release_finished])
    | Unsent first =>
      obtain ⟨hreserved, hafter, htidy'⟩ :=
        filled_spec session (pool.release_piece piece_index) work.torrent.piece_count first false
      exact .give_back hmem hreserved (.of_eq (.trans (by simp [hphase]) (congrArg _ hafter.symm))) htidy'
  · next hphase =>
    split
    · next piece_index download rest hentries =>
      have hkey : piece_index ∈ session.downloads.keys := by simp [AList.keys, hentries]
      exact .give_back (hheld piece_index (by simp [hphase, hkey])) rfl
        (by simpa [hphase] using List.perm_cons_erase hkey) (by simp [hphase])
    · next hentries =>
      have hempty : session.downloads.keys = [] := by simp [AList.keys, hentries]
      split
      · exact .keep rfl (by simp [hphase, ParallelSession.finish]) fun _ => hempty
      · exact hkeep (by simp [hphase]) fun _ => hempty
  · exact .same htidy

theorem keeps_step (input : SessionInput) : HoldsOn pool session (session.step work pool input) := by
  cases input with
  | Proceed writes => exact keeps_proceed htidy hheld hnodup writes
  | Hear message rate writes stored => exact keeps_hear htidy message rate writes stored
  | Stop failed => exact keeps_stop htidy failed

end

/-! Rounds. -/

/-- The reserved pieces are with the sessions, each with one of them. -/
structure Round.Accounted (round : Round) : Prop where
  accounted : holdings.Accounted ParallelSession.held round.pool.reserved round.sessions
  tidy : ∀ session ∈ round.sessions, session.Tidy

section
variable {work : Work} {round : Round}

theorem Round.Accounted.start (work : Work) (shared_have : PieceBitfield) (selection : PieceSelection) :
    (Round.start work shared_have selection).Accounted := ⟨rfl, nofun⟩

theorem Round.Accounted.held_nodup (h : round.Accounted) {session : ParallelSession} (hmem : session ∈ round.sessions) :
    session.held.Nodup :=
  (List.nodup_flatMap.mp h.accounted.nodup).1 session hmem

theorem Round.Accounted.step (h : round.Accounted) (event : RoundEvent) : (round.step work event).Accounted := by
  cases event with
  | Spawn peer_socket candidate_count =>
    exact ⟨h.accounted.push rfl, List.forall_mem_append.mpr ⟨h.tidy, List.forall_mem_singleton.mpr fun _ => rfl⟩⟩
  | Act index input =>
    cases hget : round.sessions[index]? with
    | none =>
      simp only [Round.step, hget]
      exact h
    | some session =>
      have hmem := List.mem_of_getElem? hget
      have hkeeps : HoldsOn round.pool session (session.step work round.pool input) :=
        keeps_step (h.tidy session hmem) (fun piece hpiece => h.accounted.mem_iff.mpr ⟨session, hmem, hpiece⟩)
          (h.held_nodup hmem) input
      simp only [Round.step, hget]
      refine ⟨h.accounted.set hget hkeeps.balance, fun other hother => ?_⟩
      rcases List.mem_or_eq_of_mem_set hother with hold | rfl
      · exact h.tidy other hold
      · exact hkeeps.tidy

/-- In every run of a round the reserved pieces are with the sessions. -/
theorem Round.Accounted.foldl (h : round.Accounted) (events : List RoundEvent) :
    (events.foldl (Round.step work) round).Accounted := by
  induction events generalizing round with
  | nil => exact h
  | cons event events ih => exact ih (h.step event)

end

/-- A piece that can be given to the session of a peer. -/
structure ParallelPieceState.Free (pool : ParallelPieceState) (peer_bf : Bitfield) (piece_count piece : Nat) :
    Prop where
  lt : piece < piece_count
  selected : pool.selection.includes piece = true
  held_by_peer : peer_bf.has piece = true
  missing : pool.shared_have.has piece = false
  unreserved : piece ∉ pool.reserved

theorem free_iff {pool : ParallelPieceState} {peer_bf : Bitfield} {piece_count piece : Nat} :
    pool.Free peer_bf piece_count piece ↔ piece < piece_count ∧ pool.assignable peer_bf piece = true := by
  unfold ParallelPieceState.assignable
  simp only [Bool.and_eq_true, Bool.not_eq_true', decide_eq_true_eq]
  constructor
  · rintro ⟨hlt, hselected, hheld, hmissing, hunreserved⟩
    exact ⟨hlt, ⟨⟨hselected, hheld⟩, hmissing⟩, hunreserved⟩
  · rintro ⟨hlt, ⟨⟨hselected, hheld⟩, hmissing⟩, hunreserved⟩
    exact ⟨hlt, hselected, hheld, hmissing, hunreserved⟩

/-- In every run of a round no piece is reserved by two sessions at once, what is reserved is held by a session, and a
session that has ended holds nothing. A piece is given out if one is free, and then one of the highest priority and
among those of the lowest availability, where nobody counts as one. -/
theorem Round.reserved_exclusively (work : Work) (shared_have : PieceBitfield) (selection : PieceSelection)
    (events : List RoundEvent) :
    let round := Round.run work shared_have selection events
    (∀ (i j : Nat) (session session' : ParallelSession), round.sessions[i]? = some session →
      round.sessions[j]? = some session' → i ≠ j → session.held.Disjoint session'.held) ∧
    (∀ piece, piece ∈ round.pool.reserved ↔ ∃ session ∈ round.sessions, piece ∈ session.held) ∧
    (∀ session ∈ round.sessions, session.held.Nodup ∧ (session.phase = .Ended → session.held = [])) ∧
    ∀ (peer_bf : Bitfield) (peer_addr : SocketAddr),
      match round.pool.reserve_piece peer_bf peer_addr work.torrent.piece_count with
      | (some piece, pool) =>
        round.pool.Free peer_bf work.torrent.piece_count piece ∧ pool.reserved = insert piece round.pool.reserved ∧
          ∀ other, round.pool.Free peer_bf work.torrent.piece_count other →
            round.pool.selection.priority other < round.pool.selection.priority piece ∨
              round.pool.selection.priority piece = round.pool.selection.priority other ∧
                max ((round.pool.availability[piece]?).getD 0) 1 ≤ max ((round.pool.availability[other]?).getD 0) 1
      | (none, pool) =>
        pool = round.pool ∧ ∀ piece, ¬round.pool.Free peer_bf work.torrent.piece_count piece := by
  intro round
  have haccounted : round.Accounted := (Round.Accounted.start work shared_have selection).foldl events
  refine ⟨?_, ?_, ?_, ?_⟩
  · intro i j session session' hget hget' hne
    exact haccounted.accounted.disjoint hget hget' hne
  · exact fun piece => haccounted.accounted.mem_iff
  · intro session hmem
    refine ⟨haccounted.held_nodup hmem, fun hended => ?_⟩
    rw [ParallelSession.held, hended, haccounted.tidy session hmem (.inr hended)]
    rfl
  · intro peer_bf peer_addr
    have hreserves := reserves_reserve_piece round.pool peer_bf peer_addr work.torrent.piece_count
    generalize round.pool.reserve_piece peer_bf peer_addr work.torrent.piece_count = answer at hreserves ⊢
    cases hreserves with
    | none hnone =>
      refine ⟨rfl, fun piece hfree => ?_⟩
      obtain ⟨hlt, hassignable⟩ := free_iff.mp hfree
      rw [hnone piece hlt] at hassignable
      exact nomatch hassignable
    | some piece hlt hassignable hbest =>
      refine ⟨free_iff.mpr ⟨hlt, hassignable⟩, rfl, fun other hfree => ?_⟩
      obtain ⟨hlt', hassignable'⟩ := free_iff.mp hfree
      exact reservation_key_le_iff.mp (hbest other hlt' hassignable')

/-- A torrent of two pieces. -/
def sample_work : Work where
  sha := Sha.leading
  torrent := { meta.one_piece with
    pieces := [Sha.leading.sha1 [1, 2], Sha.leading.sha1 [3, 4]], files := [⟨["t"], 4, none⟩], total_length := 4 }
  valid := .of_validate (by decide +kernel)
  verify_piece _ data := data.length = 2

/-- A peer that has all pieces unchokes, and a piece is reserved for it. -/
def reserving (index : Nat) : List RoundEvent :=
  [.Spawn ⟨.V4 ⟨#v[10, 0, 1, index.toUInt8]⟩, 6881⟩ 2, .Act index (.Hear (.Bitfield [0xC0]) none none true),
    .Act index (.Hear .Unchoke none none true), .Act index (.Proceed none), .Act index (.Proceed none),
    .Act index (.Proceed none)]

/-- The requests of the second session cannot be sent, and the piece of the first one is stored. -/
def releasing : List RoundEvent :=
  [.Act 1 (.Proceed (some 0)), .Act 1 (.Proceed none), .Act 0 (.Proceed none), .Act 0 (.Proceed none),
    .Act 0 (.Hear (.Piece 1 0 [3, 4]) none none true), .Act 0 (.Proceed none)]

def sample_run (events : List RoundEvent) : Round := Round.run sample_work ⟨[0]⟩ ⟨[some 0, some 0]⟩ events

/-- Each session reserves a piece of its own, and nobody holds one after both are released. -/
theorem Round.reserved_exclusively_released :
    (sample_run (reserving 0 ++ reserving 1)).sessions.map ParallelSession.held = [[1], [0]] ∧
    (∀ piece, piece ∈ (sample_run (reserving 0 ++ reserving 1)).pool.reserved ↔
      ∃ session ∈ (sample_run (reserving 0 ++ reserving 1)).sessions, piece ∈ session.held) ∧
    (sample_run (reserving 0 ++ reserving 1 ++ releasing)).pool.shared_have.has 1 = true ∧
    ∀ session ∈ (sample_run (reserving 0 ++ reserving 1 ++ releasing)).sessions, ∀ piece, piece ∉ session.held := by
  have hstored : (sample_run (reserving 0 ++ reserving 1 ++ releasing)).pool.shared_have.has 1 = true ∧
      (sample_run (reserving 0 ++ reserving 1 ++ releasing)).pool.reserved = ∅ := by
    decide +kernel
  obtain ⟨-, hheld, -⟩ := reserved_exclusively sample_work ⟨[0]⟩ ⟨[some 0, some 0]⟩ (reserving 0 ++ reserving 1)
  obtain ⟨-, hnone, -⟩ :=
    reserved_exclusively sample_work ⟨[0]⟩ ⟨[some 0, some 0]⟩ (reserving 0 ++ reserving 1 ++ releasing)
  refine ⟨by decide +kernel, hheld, hstored.1, fun session hmem piece hpiece => ?_⟩
  have hreserved := (hnone piece).mpr ⟨session, hmem, hpiece⟩
  rw [← sample_run, hstored.2] at hreserved
  exact Finset.notMem_empty piece hreserved

end swarmotter.engine

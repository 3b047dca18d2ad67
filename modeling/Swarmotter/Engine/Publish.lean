import Swarmotter.Progress
import Swarmotter.Storage.Window

open swarmotter.meta
open swarmotter.storage (PieceBitfield)
open swarmotter.torrent (bytes_completed_eq verified_bytes verified_bytes_v1)

namespace swarmotter.engine

/-! The tasks of a download round. Each copies the bitfield that they share under one lock, and publishes the copy under
another one later. -/

/-- What a task gets its pieces from. The round itself publishes the bitfield at its end. -/
inductive PieceSource where
  | Peer
  | Webseed
  | Round
  deriving DecidableEq

inductive PieceTask where
  | Downloading (source : PieceSource)
  /-- About to publish a copy. The last field is not kept by the code: the pieces that the round had added by then. -/
  | Publishing (source : PieceSource) (have_snapshot : PieceBitfield) (taken : Nat)
  | Ended
  deriving DecidableEq

/-- The last two fields are not kept by the code: the pieces that the round has added to the bitfield, and how many of
them there were when the copy was made that was published last. -/
structure DownloadRound where
  shared_have : PieceBitfield
  state : EngineState
  tasks : Vec PieceTask
  added : Nat
  published : Nat
  deriving DecidableEq

inductive RoundStep where
  | Spawn (source : PieceSource)
  /-- A piece of a task has been verified and is on disk. -/
  | Store (task piece_index : Nat)
  /-- The round is over. -/
  | Merge (task : Nat)
  | Publish (task : Nat)
  | Abort (task : Nat)
  deriving DecidableEq

namespace DownloadRound

/-- A round starts with the bitfield that is published. -/
def start (torrent : TorrentMeta) (state : EngineState) (shared_have : PieceBitfield) : DownloadRound where
  shared_have
  state := update_progress_state state torrent shared_have
  tasks := []
  added := 0
  published := 0

/-- The bitfield is copied. -/
def copy (self : DownloadRound) (task : Nat) (source : PieceSource) : DownloadRound :=
  { self with tasks := self.tasks.set task (.Publishing source self.shared_have self.added) }

/-- A piece is added to the bitfield. -/
def add (self : DownloadRound) (piece_index : Nat) : DownloadRound :=
  let shared_have := self.shared_have.set piece_index
  { self with shared_have, added := self.added + (shared_have.has piece_index).toNat }

def step (torrent : TorrentMeta) (self : DownloadRound) : RoundStep → DownloadRound
  | .Spawn source => { self with tasks := self.tasks ++ [.Downloading source] }
  | .Store task piece_index =>
    match self.tasks[task]? with
    | some (.Downloading .Peer) =>
      (if self.shared_have.has piece_index then self else self.add piece_index).copy task .Peer
    | some (.Downloading .Webseed) =>
      if self.shared_have.has piece_index then { self with tasks := self.tasks.set task .Ended }
      else (self.add piece_index).copy task .Webseed
    | _ => self
  | .Merge task =>
    match self.tasks[task]? with
    | some (.Downloading .Round) => self.copy task .Round
    | _ => self
  | .Publish task =>
    match self.tasks[task]? with
    | some (.Publishing source have_snapshot taken) =>
      { self with
        state := update_progress_state self.state torrent have_snapshot
        tasks := self.tasks.set task (if source = .Peer then .Downloading .Peer else .Ended)
        published := taken }
    | _ => self
  | .Abort task => { self with tasks := self.tasks.set task .Ended }

def after (torrent : TorrentMeta) (self : DownloadRound) (steps : List RoundStep) : DownloadRound :=
  steps.foldl (step torrent) self

/-- The copy that is published was not made before one that has been published, or no piece was added between the two.
    -/
def in_order (self : DownloadRound) : RoundStep → Bool
  | .Publish task =>
    match self.tasks[task]? with
    | some (.Publishing _ _ taken) => self.published ≤ taken
    | _ => true
  | _ => true

/-- All pieces of a bitfield are in another one. -/
def Within (first second : PieceBitfield) : Prop := ∀ i, first.has i = true → second.has i = true

/-- The bitfields that were shared, in their order: one for each number of pieces that had been added, with a piece that
those before it do not have. -/
structure Versions (round : DownloadRound) (versions : List PieceBitfield) : Prop where
  grows : versions.Pairwise fun first second => Within first second ∧ ¬Within second first
  shared : versions.getLast? = some round.shared_have
  added : versions.length = round.added + 1
  copied : ∀ source have_snapshot taken, .Publishing source have_snapshot taken ∈ round.tasks →
    versions[taken]? = some have_snapshot
  published : versions[round.published]? = some round.state.pieces_have

section
variable {torrent : TorrentMeta} {self : DownloadRound} {versions : List PieceBitfield} {task : Nat}

theorem Within.refl (bitfield : PieceBitfield) : Within bitfield bitfield := fun _ h => h

theorem Versions.within_iff (h : self.Versions versions) {i j : Nat} {first second : PieceBitfield}
    (hi : versions[i]? = some first) (hj : versions[j]? = some second) : Within first second ↔ i ≤ j := by
  obtain ⟨hilt, rfl⟩ := List.getElem?_eq_some_iff.mp hi
  obtain ⟨hjlt, rfl⟩ := List.getElem?_eq_some_iff.mp hj
  have hgrows := List.pairwise_iff_getElem.mp h.grows
  rcases Nat.lt_trichotomy i j with hlt | rfl | hlt
  · exact iff_of_true (hgrows i j hilt hjlt hlt).1 hlt.le
  · exact iff_of_true (.refl _) le_rfl
  · exact iff_of_false (hgrows j i hjlt hilt hlt).2 (by omega)

theorem Versions.within_shared (h : self.Versions versions) {i : Nat} {version : PieceBitfield}
    (hi : versions[i]? = some version) : Within version self.shared_have := by
  have hlast := h.shared
  rw [List.getLast?_eq_getElem?] at hlast
  have hlt := (List.getElem?_eq_some_iff.mp hi).1
  exact (h.within_iff hi hlast).mpr (by omega)

theorem Versions.start (torrent : TorrentMeta) (state : EngineState) (shared_have : PieceBitfield) :
    (start torrent state shared_have).Versions [shared_have] :=
  ⟨List.pairwise_singleton _ _, rfl, rfl, nofun, rfl⟩

/-- The tasks change, without a new copy. -/
theorem Versions.with_tasks (h : self.Versions versions) {tasks : Vec PieceTask}
    (htasks : ∀ source have_snapshot taken, .Publishing source have_snapshot taken ∈ tasks →
      .Publishing source have_snapshot taken ∈ self.tasks) : Versions { self with tasks } versions :=
  ⟨h.grows, h.shared, h.added, fun _ _ _ hmem => h.copied _ _ _ (htasks _ _ _ hmem), h.published⟩

theorem Versions.set_task (h : self.Versions versions) {new : PieceTask}
    (hnew : ∀ source have_snapshot taken, new ≠ .Publishing source have_snapshot taken) :
    Versions { self with tasks := self.tasks.set task new } versions := by
  apply h.with_tasks
  intro source have_snapshot taken hmem
  rcases List.mem_or_eq_of_mem_set hmem with hmem | heq
  · exact hmem
  · exact absurd heq.symm (hnew source have_snapshot taken)

theorem Versions.copy (h : self.Versions versions) (source : PieceSource) :
    (self.copy task source).Versions versions := by
  refine ⟨h.grows, h.shared, h.added, ?_, h.published⟩
  intro source' have_snapshot taken hmem
  rcases List.mem_or_eq_of_mem_set hmem with hmem | heq
  · exact h.copied source' have_snapshot taken hmem
  · cases heq
    have hlast := h.shared
    rwa [List.getLast?_eq_getElem?, h.added] at hlast

/-- A piece that is not there is added. -/
theorem Versions.add (h : self.Versions versions) {piece_index : Nat}
    (hnew : self.shared_have.has piece_index = false) :
    ∃ versions, (self.add piece_index).Versions versions := by
  cases hset : (self.shared_have.set piece_index).has piece_index with
  | false =>
    -- the piece is beyond the last byte, and nothing changes
    have hsame : self.add piece_index = self := by
      unfold DownloadRound.add
      dsimp only
      rw [hset, PieceBitfield.set_eq_self hset]
      rfl
    rw [hsame]
    exact ⟨versions, h⟩
  | true =>
    have hbefore : ∀ version ∈ versions, Within version self.shared_have := by
      intro version hmem
      obtain ⟨i, hi⟩ := List.mem_iff_getElem?.mp hmem
      exact h.within_shared hi
    have hkept {i : Nat} {version : PieceBitfield} (hi : versions[i]? = some version) :
        (versions ++ [self.shared_have.set piece_index])[i]? = some version :=
      List.getElem?_append_left (List.getElem?_eq_some_iff.mp hi).1 ▸ hi
    refine ⟨versions ++ [self.shared_have.set piece_index], ?_, List.getLast?_concat, ?_,
      fun _ _ _ hmem => hkept (h.copied _ _ _ hmem), hkept h.published⟩
    · refine List.pairwise_append.mpr ⟨h.grows, List.pairwise_singleton _ _, fun version hmem _ hlast => ?_⟩
      rw [List.mem_singleton.mp hlast]
      refine ⟨fun k hk => PieceBitfield.has_set_of_has (hbefore version hmem k hk), fun hwithin => ?_⟩
      have hearly := hbefore version hmem piece_index (hwithin piece_index hset)
      rw [hnew] at hearly
      exact nomatch hearly
    · simp [DownloadRound.add, hset, h.added]

/-- What a step does to the versions, and to what is published. -/
theorem Versions.step (h : self.Versions versions) (event : RoundStep) :
    (∃ versions, (self.step torrent event).Versions versions) ∧
      (Within self.state.pieces_have (self.step torrent event).state.pieces_have ↔ self.in_order event = true) := by
  have hsame (next : DownloadRound) (hstate : next.state = self.state) (horder : self.in_order event = true) :
      Within self.state.pieces_have next.state.pieces_have ↔ self.in_order event = true := by
    rw [hstate, horder]
    exact iff_of_true (.refl _) rfl
  cases event with
  | Spawn source =>
    refine ⟨⟨versions, h.with_tasks fun _ _ _ hmem => ?_⟩, hsame _ rfl rfl⟩
    rcases List.mem_append.mp hmem with hmem | hmem
    · exact hmem
    · exact nomatch List.mem_singleton.mp hmem
  | Store task piece_index =>
    dsimp only [DownloadRound.step]
    split
    · cases hhas : self.shared_have.has piece_index with
      | true => exact ⟨⟨versions, h.copy _⟩, hsame _ rfl rfl⟩
      | false =>
        obtain ⟨next, hadded⟩ := h.add hhas
        exact ⟨⟨next, hadded.copy _⟩, hsame _ rfl rfl⟩
    · cases hhas : self.shared_have.has piece_index with
      | true => exact ⟨⟨versions, h.set_task nofun⟩, hsame _ rfl rfl⟩
      | false =>
        obtain ⟨next, hadded⟩ := h.add hhas
        exact ⟨⟨next, hadded.copy _⟩, hsame _ rfl rfl⟩
    · exact ⟨⟨versions, h⟩, hsame _ rfl rfl⟩
  | Merge task =>
    dsimp only [DownloadRound.step]
    split
    · exact ⟨⟨versions, h.copy _⟩, hsame _ rfl rfl⟩
    · exact ⟨⟨versions, h⟩, hsame _ rfl rfl⟩
  | Publish task =>
    dsimp only [DownloadRound.step]
    cases htask : self.tasks[task]? with
    | none => exact ⟨⟨versions, h⟩, hsame _ rfl (by simp [in_order, htask])⟩
    | some found =>
      cases found with
      | Publishing source have_snapshot taken =>
        have htaken := h.copied source have_snapshot taken (List.mem_of_getElem? htask)
        have hset : DownloadRound.Versions
            { self with tasks := self.tasks.set task (if source = .Peer then .Downloading .Peer else .Ended) }
              versions := by
          apply h.set_task
          intro source' have_snapshot' taken'
          split <;> exact nofun
        refine ⟨⟨versions, hset.grows, hset.shared, hset.added, hset.copied, htaken⟩, ?_⟩
        have horder : self.in_order (.Publish task) = decide (self.published ≤ taken) := by simp [in_order, htask]
        rw [horder, decide_eq_true_iff]
        exact h.within_iff h.published htaken
      | Downloading source => exact ⟨⟨versions, h⟩, hsame _ rfl (by simp [in_order, htask])⟩
      | Ended => exact ⟨⟨versions, h⟩, hsame _ rfl (by simp [in_order, htask])⟩
  | Abort task => exact ⟨⟨versions, h.set_task nofun⟩, hsame _ rfl rfl⟩

theorem Versions.after (h : self.Versions versions) (steps : List RoundStep) :
    ∃ versions, (self.after torrent steps).Versions versions := by
  induction steps generalizing self versions with
  | nil => exact ⟨versions, h⟩
  | cons event steps ih =>
    obtain ⟨⟨next, hstep⟩, -⟩ := @Versions.step torrent self versions h event
    exact ih hstep

/-- The bytes that are published are those of the pieces that are. -/
structure Tallied (torrent : TorrentMeta) (state : EngineState) : Prop where
  piece_count : state.piece_count = torrent.piece_count
  bytes : state.bytes_completed = verified_bytes torrent state.pieces_have

theorem Tallied.publish {sha : Sha} (hvalid : Valid sha torrent) (hplane : torrent.requires_v2_data_plane = false)
    {state : EngineState} (hcount : state.piece_count = torrent.piece_count) (bitfield : PieceBitfield) :
    Tallied torrent (update_progress_state state torrent bitfield) := by
  refine ⟨hcount, ?_⟩
  rw [bytes_completed_eq hvalid (hvalid.v1_pieces hplane) hcount]
  exact (verified_bytes_v1 hplane hvalid (hvalid.v1_pieces hplane)).symm

theorem Tallied.step {sha : Sha} (h : Tallied torrent self.state) (hvalid : Valid sha torrent)
    (hplane : torrent.requires_v2_data_plane = false) (event : RoundStep) :
    Tallied torrent (self.step torrent event).state := by
  cases event with
  | Publish task =>
    dsimp only [DownloadRound.step]
    split
    · exact .publish hvalid hplane h.piece_count _
    · exact h
  | Store task piece_index =>
    dsimp only [DownloadRound.step]
    split
    · split <;> exact h
    · split <;> exact h
    · exact h
  | Merge task =>
    dsimp only [DownloadRound.step]
    split <;> exact h
  | _ => exact h

theorem Tallied.after {sha : Sha} (h : Tallied torrent self.state) (hvalid : Valid sha torrent)
    (hplane : torrent.requires_v2_data_plane = false) (steps : List RoundStep) :
    Tallied torrent (self.after torrent steps).state := by
  induction steps generalizing self with
  | nil => exact h
  | cons event steps ih => exact ih (h.step hvalid hplane event)

theorem after_append (steps : List RoundStep) (event : RoundStep) :
    self.after torrent (steps ++ [event]) = (self.after torrent steps).step torrent event := by
  rw [DownloadRound.after, List.foldl_append]
  rfl

end

/-- At every moment of a round the bytes that are published are those of the pieces that are. The pieces that are
published never get fewer exactly if each copy is published before any other that was made after more pieces had been
added. -/
theorem published_grows_iff {sha : Sha} {bytes : Bytes} {torrent : TorrentMeta}
    (h : parse_torrent sha bytes = .ok torrent) (hplane : torrent.requires_v2_data_plane = false) {state : EngineState}
    (hcount : state.piece_count = torrent.piece_count) (shared_have : PieceBitfield) (steps : List RoundStep) :
    let round (before : List RoundStep) := (start torrent state shared_have).after torrent before
    (∀ before, before <+: steps →
      (round before).state.bytes_completed = verified_bytes torrent (round before).state.pieces_have) ∧
    ((∀ before event, before ++ [event] <+: steps →
      Within (round before).state.pieces_have (round (before ++ [event])).state.pieces_have) ↔
    ∀ before event, before ++ [event] <+: steps → (round before).in_order event = true) := by
  intro round
  have hvalid := parse_torrent_valid h
  have hstart : Tallied torrent (start torrent state shared_have).state := .publish hvalid hplane hcount shared_have
  have hstep (before : List RoundStep) (event : RoundStep) :
      Within (round before).state.pieces_have (round (before ++ [event])).state.pieces_have ↔
        (round before).in_order event = true := by
    obtain ⟨versions, hversions⟩ := @Versions.after torrent _ _ (Versions.start torrent state shared_have) before
    dsimp only [round]
    rw [after_append]
    exact (hversions.step event).2
  refine ⟨fun before _ => (hstart.after hvalid hplane before).bytes, ?_⟩
  constructor
  · exact fun hgrows before event hbefore => (hstep before event).mp (hgrows before event hbefore)
  · exact fun horder before event hbefore => (hstep before event).mpr (horder before event hbefore)

/-- Two sessions, each with a piece. -/
def two_sessions : List RoundStep := [.Spawn .Peer, .Spawn .Peer, .Store 0 0, .Store 1 1]

/-- The copy with both pieces is published first, and then the one with only the first piece. -/
theorem stale_copy_published : ∃ torrent, parse_torrent Sha.leading storage.three_files = .ok torrent ∧
    torrent.requires_v2_data_plane = false ∧ torrent.piece_count = 3 ∧
    let round (steps : List RoundStep) := (start torrent ⟨.new 3, 3, 0⟩ (.new 3)).after torrent (two_sessions ++ steps)
    ((round [.Publish 1]).state.pieces_have.has 1 = true ∧ (round [.Publish 1]).state.bytes_completed = 4) ∧
      (round [.Publish 1, .Publish 0]).state.pieces_have.has 1 = false ∧
      (round [.Publish 1, .Publish 0]).state.bytes_completed = 2 := by
  have hrun : (parse_torrent Sha.leading storage.three_files >>= fun torrent =>
      let round (steps : List RoundStep) :=
        (start torrent ⟨.new 3, 3, 0⟩ (.new 3)).after torrent (two_sessions ++ steps)
      .ok (torrent.requires_v2_data_plane, torrent.piece_count, (round [.Publish 1]).state,
        (round [.Publish 1, .Publish 0]).state)) = .ok (false, 3, ⟨⟨[0xC0]⟩, 3, 4⟩, ⟨⟨[0x80]⟩, 3, 2⟩) := by
    decide +kernel
  obtain ⟨torrent, htorrent, hfields⟩ := bind_eq_ok_iff.mp hrun
  simp only [Except.ok.injEq, Prod.mk.injEq] at hfields
  obtain ⟨hplane, hcount, hfirst, hsecond⟩ := hfields
  refine ⟨torrent, htorrent, hplane, hcount, ?_⟩
  dsimp only
  rw [hfirst, hsecond]
  decide

/-- The copies are published in their order. -/
theorem published_grows_iff_in_order : ∃ torrent, parse_torrent Sha.leading storage.three_files = .ok torrent ∧
    let round (steps : List RoundStep) := (start torrent ⟨.new 3, 3, 0⟩ (.new 3)).after torrent steps
    ∀ before event, before ++ [event] <+: two_sessions ++ [.Publish 0, .Publish 1] →
      Within (round before).state.pieces_have (round (before ++ [event])).state.pieces_have := by
  have hread : (parse_torrent Sha.leading storage.three_files >>= fun torrent =>
      .ok (torrent.requires_v2_data_plane, torrent.piece_count)) = .ok (false, 3) := by decide +kernel
  obtain ⟨torrent, htorrent, hfields⟩ := bind_eq_ok_iff.mp hread
  obtain ⟨hplane, hcount⟩ := Prod.ext_iff.mp (Except.ok.inj hfields)
  refine ⟨torrent, htorrent, ?_⟩
  have hstate : (⟨.new 3, 3, 0⟩ : EngineState).piece_count = torrent.piece_count := hcount.symm
  refine (published_grows_iff htorrent hplane hstate (.new 3) (two_sessions ++ [.Publish 0, .Publish 1])).2.mpr ?_
  rintro before event ⟨rest, hrest⟩
  have hbefore : before = (two_sessions ++ [RoundStep.Publish 0, .Publish 1]).take before.length := by
    rw [← hrest, List.append_assoc, List.take_left]
  have hevent : (two_sessions ++ [RoundStep.Publish 0, .Publish 1])[before.length]? = some event := by
    rw [← hrest, List.append_assoc, List.getElem?_append_right (Nat.le_refl _), Nat.sub_self]
    rfl
  have hlt : before.length < 6 := (List.getElem?_eq_some_iff.mp hevent).1
  generalize before.length = i at hbefore hevent hlt
  subst hbefore
  match i, hlt with
  | 0, _ | 1, _ | 2, _ | 3, _ | 4, _ | 5, _ =>
    cases hevent
    rfl

/-- At every moment of a round, and in whatever order copies are published, only pieces of the shared bitfield are
published, and only such pieces are waiting to be. -/
theorem published_within_shared (torrent : TorrentMeta) (state : EngineState) (shared_have : PieceBitfield)
    (steps : List RoundStep) :
    let round := (start torrent state shared_have).after torrent steps
    Within round.state.pieces_have round.shared_have ∧
      ∀ source have_snapshot taken, .Publishing source have_snapshot taken ∈ round.tasks →
        Within have_snapshot round.shared_have := by
  intro round
  obtain ⟨versions, h⟩ := @Versions.after torrent _ _ (Versions.start torrent state shared_have) steps
  exact ⟨h.within_shared h.published, fun _ _ _ hmem => h.within_shared (h.copied _ _ _ hmem)⟩

end DownloadRound

end swarmotter.engine

import Swarmotter.Lib.Recency
import Swarmotter.Storage.HandleSlots

open recency

namespace swarmotter.storage.handle_cache

/-! Which handle is evicted: the one that was opened first. A handle that is used again does not get a new tick. -/

/-- The handles of the caches are writable, and carry the tick at which they were opened. -/
def ticked : Filing where
  handle _ _ handle := handle.writable = true ∧ handle.last_used = handle.file.id
  file _ _ _ := True
  file_of_handle _ := trivial

namespace World

/-- The file whose handle is found in the cache. -/
def hits (world : World) : Event → Option BudgetedWritableFile
  | .Step call _ =>
    match world.calls[call]? with
    | some (.Open torrent index create_if_missing .Looking) =>
      (((world.storages[torrent]?).bind (·.cache.handles.lookup index)).filter
        fun handle => handle.writable || !create_if_missing).map (·.file)
    | some (.Open torrent index _ (.Inserting _)) =>
      (((world.storages[torrent]?).bind (·.cache.handles.lookup index)).filter (·.writable)).map (·.file)
    | _ => none
  | _ => none

/-- The use that an event makes of a file. -/
def uses (world : World) (event : Event) : List (Use Nat) :=
  match world.opens event with
  | some file => [.Opened file.id]
  | none => (world.hits event).toList.map fun file => .Hit file.id

/-- The uses in the course of the events. -/
def log : World → List Event → List (Use Nat)
  | _, [] => []
  | world, event :: events => world.uses event ++ (world.step event).log events

end World

/-- The states of the loop that makes room for a file. -/
inductive Displaces (index : Nat) (first : AList fun _ : Nat => CachedFileHandle) :
    (AList fun _ : Nat => CachedFileHandle) → Prop
  | start : Displaces index first first
  | next {handles : AList fun _ : Nat => CachedFileHandle} {evict_index : Nat} (h : Displaces index first handles)
      (hfull : MAX_CACHED_WRITABLE_FILE_HANDLES ≤ handles.entries.length)
      (holdest : WritableHandleCache.oldest handles (fun candidate _ => candidate ≠ index) = some evict_index) :
      Displaces index first (handles.erase evict_index)

/-- A handle is evicted from a cache that has some handles, by `evict_one_lru` or to make room for a file. -/
inductive Evicts (world : World) : Event → (AList fun _ : Nat => CachedFileHandle) → CachedFileHandle → Prop
  | budget {call torrent index other chosen candidate : Nat} {create_if_missing ok : Bool} {rest : Vec Nat}
      {storage : TorrentStorage} {victim : CachedFileHandle}
      (hcall : world.calls[call]? =
        some (.Open torrent index create_if_missing (.Evicting other rest (.Removing chosen))))
      (hstorage : world.storages[other]? = some storage) (hcandidate : storage.cache.candidate = some candidate)
      (hvictim : storage.cache.handles.lookup candidate = some victim) :
      Evicts world (.Step call ok) storage.cache.handles victim
  | room {call torrent index evict_index : Nat} {create_if_missing ok : Bool} {handle victim : CachedFileHandle}
      {storage : TorrentStorage} {handles : AList fun _ : Nat => CachedFileHandle}
      (hcall : world.calls[call]? = some (.Open torrent index create_if_missing (.Inserting handle)))
      (hstorage : world.storages[torrent]? = some storage)
      (hmissing : (storage.cache.handles.lookup index).filter (·.writable) = none)
      (hdisplaces : Displaces index storage.cache.handles handles)
      (hfull : MAX_CACHED_WRITABLE_FILE_HANDLES ≤ handles.entries.length)
      (holdest : WritableHandleCache.oldest handles (fun candidate _ => candidate ≠ index) = some evict_index)
      (hvictim : handles.lookup evict_index = some victim) :
      Evicts world (.Step call ok) handles victim

theorem Displaces.lookup {index other : Nat} {first handles : AList fun _ : Nat => CachedFileHandle}
    {handle : CachedFileHandle} (h : Displaces index first handles) (hlookup : handles.lookup other = some handle) :
    first.lookup other = some handle := by
  induction h with
  | start => exact hlookup
  | @next handles evict_index _ _ _ ih =>
    by_cases heq : other = evict_index
    · rw [heq, AList.lookup_erase] at hlookup
      exact nomatch hlookup
    · rw [AList.lookup_erase_ne heq] at hlookup
      exact ih hlookup

theorem WritableHandleCache.oldest_le {handles : AList fun _ : Nat => CachedFileHandle}
    {p : Nat → CachedFileHandle → Bool} {index other : Nat} {victim handle : CachedFileHandle}
    (h : oldest handles p = some index) (hvictim : handles.lookup index = some victim)
    (hhandle : handles.lookup other = some handle) (hp : p other handle = true) :
    victim.last_used ≤ handle.last_used := by
  obtain ⟨entry, hentry, rfl⟩ := Option.map_eq_some_iff.mp h
  have hmem := (List.mem_filter.mp (List.argmin_mem hentry)).1
  have hsame : some entry.2 = some victim := (AList.mem_lookup_iff.mpr hmem).symm.trans hvictim
  cases hsame
  have hother : (⟨other, handle⟩ : Sigma fun _ : Nat => CachedFileHandle) ∈
      handles.entries.filter fun entry => p entry.1 entry.2 :=
    List.mem_filter.mpr ⟨AList.mem_lookup_iff.mp hhandle, hp⟩
  exact List.le_of_mem_argmin
    (f := fun entry : Sigma fun _ : Nat => CachedFileHandle => entry.2.last_used) hother hentry

namespace World

section
variable {world : World}

theorem opened_uses (world : World) (event : Event) :
    (world.uses event).filterMap Use.opened = List.range' world.use_tick (world.opens event).isSome.toNat := by
  unfold uses
  cases hopens : world.opens event with
  | some file =>
    dsimp only
    rw [(opens_new hopens).1]
    rfl
  | none => cases world.hits event <;> rfl

/-- The files are opened in the order of their ticks. -/
theorem opened_log (world : World) (events : List Event) :
    ∃ count, (world.log events).filterMap Use.opened = List.range' world.use_tick count ∧
      (world.after events).use_tick = world.use_tick + count := by
  induction events generalizing world with
  | nil => exact ⟨0, rfl, rfl⟩
  | cons event events ih =>
    obtain ⟨count, hlog, htick⟩ := ih (world.step event)
    have hstep : (world.step event).use_tick = world.use_tick + (world.opens event).isSome.toNat :=
      use_tick_act world event
    refine ⟨(world.opens event).isSome.toNat + count, ?_, ?_⟩
    · rw [log, List.filterMap_append, opened_uses, hlog, hstep, List.range'_append_1]
    · change ((world.step event).after events).use_tick = _
      rw [htick, hstep, Nat.add_assoc]

theorem filed_ticked_after (h : world.Filed ticked) (events : List Event) : (world.after events).Filed ticked := by
  induction events generalizing world with
  | nil => exact h
  | cons event events ih =>
    refine ih (h.step ?_)
    cases event with
    | Step call ok =>
      intro torrent index create_if_missing phase storage hcall
      refine ⟨fun _ _ _ => ?_, ?_⟩
      · cases create_if_missing with
        | true => exact ⟨rfl, rfl⟩
        | false => trivial
      · rintro other rest eviction rfl -
        cases eviction with
        | Removing index => exact fun _ _ _ hhandle => hhandle
        | _ => trivial
    | _ => trivial

/-- The victim is among the candidates, and was opened before the others. -/
theorem evicts_first {event : Event} {candidates : AList fun _ : Nat => CachedFileHandle} {victim : CachedFileHandle}
    (h : Evicts world event candidates victim) (hfiled : world.Filed ticked) :
    (∃ index, candidates.lookup index = some victim) ∧
      ∀ index handle, candidates.lookup index = some handle → victim.file.id ≤ handle.file.id ∧
        ∃ (torrent : Nat) (storage : TorrentStorage), world.storages[torrent]? = some storage ∧
          storage.cache.handles.lookup index = some handle := by
  cases h with
  | @budget _ _ _ other _ candidate _ _ _ storage _ hcall hstorage hcandidate hvictim =>
    have hcache := hfiled.storages other storage hstorage
    refine ⟨⟨candidate, hvictim⟩, fun index handle hhandle => ⟨?_, other, storage, hstorage, hhandle⟩⟩
    obtain ⟨hwritable, hlast⟩ := hcache.handles index handle hhandle
    have hle := WritableHandleCache.oldest_le hcandidate hvictim hhandle hwritable
    rwa [hlast, (hcache.handles candidate victim hvictim).2] at hle
  | @room _ torrent own evict_index _ _ _ _ storage _ hcall hstorage hmissing hdisplaces hfull holdest hvictim =>
    have hcache := hfiled.storages torrent storage hstorage
    refine ⟨⟨evict_index, hvictim⟩, fun index handle hhandle => ?_⟩
    have hfirst := hdisplaces.lookup hhandle
    refine ⟨?_, torrent, storage, hstorage, hfirst⟩
    obtain ⟨hwritable, hlast⟩ := hcache.handles index handle hfirst
    -- the file that is opened is not in the cache
    have hne : index ≠ own := by
      rintro rfl
      rw [hfirst] at hmissing
      simp [hwritable] at hmissing
    have hle := WritableHandleCache.oldest_le holdest hvictim hhandle (decide_eq_true hne)
    rwa [hlast, (hcache.handles evict_index victim (hdisplaces.lookup hvictim)).2] at hle

end

/-- The handle that is evicted is the one whose last use is the oldest exactly if, since each time that the handle which
was opened first was used again, all others have been used. -/
theorem evicts_least_recently_used_iff {max_writable_handles : Nat} {handle_budgets : Vec Bool} {events : List Event}
    {event : Event} {candidates : AList fun _ : Nat => CachedFileHandle} {victim : CachedFileHandle}
    (h : Evicts ((start max_writable_handles handle_budgets).after events) event candidates victim) :
    let log := (start max_writable_handles handle_budgets).log events
    (∀ index handle, candidates.lookup index = some handle → handle.file.id ≠ victim.file.id →
      UsedSince log victim.file.id handle.file.id) ↔
    ∀ index first, candidates.lookup index = some first →
      (∀ index handle, candidates.lookup index = some handle → handle.file.id ≠ first.file.id →
        OpenedAfter log first.file.id handle.file.id) →
      ∀ index handle, candidates.lookup index = some handle → handle.file.id ≠ first.file.id →
        ∀ rest, (.Hit first.file.id :: rest) <:+ log → ∃ use ∈ rest, use.item = handle.file.id := by
  intro log
  let world := (start max_writable_handles handle_budgets).after events
  have hfiled : world.Filed ticked := filed_ticked_after (.start _ _ _) events
  have hcounted := (Counted.start max_writable_handles handle_budgets).after events
  obtain ⟨count, hopened, htick⟩ := opened_log (start max_writable_handles handle_budgets) events
  have hordered : (log.filterMap Use.opened).Pairwise (· < ·) := by
    rw [hopened]
    exact List.pairwise_lt_range'
  obtain ⟨⟨victim_index, hvictim⟩, hfirst⟩ := evicts_first h hfiled
  have hmem {index : Nat} {handle : CachedFileHandle} (hhandle : candidates.lookup index = some handle) :
      .Opened handle.file.id ∈ log := by
    obtain ⟨-, torrent, storage, hstorage, hlookup⟩ := hfirst index handle hhandle
    have hlt : handle.file.id < world.use_tick :=
      (hcounted.filed.storages torrent storage hstorage).handles index handle hlookup
    refine mem_opened.mp ?_
    rw [hopened, List.mem_range'_1]
    exact ⟨Nat.zero_le _, by rw [← htick]; exact hlt⟩
  have hafter {index other : Nat} {first handle : CachedFileHandle} (hone : candidates.lookup index = some first)
      (hhandle : candidates.lookup other = some handle) :
      OpenedAfter log first.file.id handle.file.id ↔ first.file.id < handle.file.id :=
    openedAfter_iff hordered (hmem hone) (hmem hhandle)
  have hvictim_after {index : Nat} {handle : CachedFileHandle} (hhandle : candidates.lookup index = some handle)
      (hne : handle.file.id ≠ victim.file.id) : OpenedAfter log victim.file.id handle.file.id :=
    (hafter hvictim hhandle).mpr (Nat.lt_of_le_of_ne (hfirst index handle hhandle).1 (Ne.symm hne))
  constructor
  · intro hlru index first hone hall other handle hhandle hne rest hrest
    have hsame : first.file.id = victim.file.id := by
      by_contra hdiffer
      have hearlier := (hafter hone hvictim).mp (hall victim_index victim hvictim (Ne.symm hdiffer))
      have hle := (hfirst index first hone).1
      omega
    rw [hsame] at hne hrest
    exact (usedSince_iff (hvictim_after hhandle hne) (hmem hvictim)).mp (hlru other handle hhandle hne) rest hrest
  · intro hcondition index handle hhandle hne
    refine (usedSince_iff (hvictim_after hhandle hne) (hmem hvictim)).mpr ?_
    exact hcondition victim_index victim hvictim (fun _ _ hother hdiffer => hvictim_after hother hdiffer) index handle
      hhandle hne

/-- Two files are open, which is all that the budget allows. -/
def two_files : List Event := .Open 0 0 true :: steps 0 6 ++ .Cancel 0 :: .Open 0 1 true :: steps 1 6 ++ [.Cancel 1]

/-- A call for a third file has chosen a handle to evict. -/
def third_file (call : Nat) : List Event := .Open 0 2 true :: steps call 8

/-- The first file is evicted. -/
theorem evicts_first_file {events : List Event} {call : Nat}
    (hcall : ((start 2 [true]).after events).calls[call]? = some (.Open 0 2 true (.Evicting 0 [] (.Removing 0))))
    (hread : (((start 2 [true]).after events).storages[0]?).map
      (fun storage => (storage.cache.candidate, storage.cache.handles.lookup 0, storage.cache.handles.lookup 1)) =
      some (some 0, some ⟨⟨0, 0, 0, true⟩, true, 0⟩, some ⟨⟨1, 0, 1, true⟩, true, 1⟩)) :
    ∃ candidates victim, Evicts ((start 2 [true]).after events) (.Step call true) candidates victim ∧
      victim.file.id = 0 ∧ candidates.lookup 1 = some ⟨⟨1, 0, 1, true⟩, true, 1⟩ := by
  obtain ⟨storage, hstorage, hfields⟩ := Option.map_eq_some_iff.mp hread
  simp only [Prod.mk.injEq] at hfields
  obtain ⟨hcandidate, hvictim, hother⟩ := hfields
  exact ⟨storage.cache.handles, _, .budget hcall hstorage hcandidate hvictim, rfl, hother⟩

/-- No handle is used again. -/
theorem evicts_least_recently_used_iff_unused :
    ∃ candidates victim, Evicts ((start 2 [true]).after (two_files ++ third_file 2)) (.Step 2 true) candidates victim ∧
      victim.file.id = 0 ∧ ∀ index handle, candidates.lookup index = some handle → handle.file.id ≠ victim.file.id →
        UsedSince ((start 2 [true]).log (two_files ++ third_file 2)) victim.file.id handle.file.id := by
  obtain ⟨candidates, victim, hevicts, hid, -⟩ :=
    @evicts_first_file (two_files ++ third_file 2) 2 (by decide +kernel) (by decide +kernel)
  have hlog : (start 2 [true]).log (two_files ++ third_file 2) = [.Opened 0, .Opened 1] := by decide +kernel
  refine ⟨candidates, victim, hevicts, hid, (evicts_least_recently_used_iff hevicts).mpr ?_⟩
  intro _ first _ _ _ _ _ _ rest hrest
  rw [hlog] at hrest
  have hmem : Use.Hit first.file.id ∈ [Use.Opened 0, Use.Opened 1] := hrest.subset List.mem_cons_self
  exact absurd hmem (by simp)

/-- The first file is used again, and is evicted all the same, although the second one was not used since. -/
theorem recently_used_evicted :
    let events := two_files ++ .Open 0 0 true :: steps 2 1 ++ .Cancel 2 :: third_file 3
    ∃ candidates victim, Evicts ((start 2 [true]).after events) (.Step 3 true) candidates victim ∧
      victim.file.id = 0 ∧ candidates.lookup 1 = some ⟨⟨1, 0, 1, true⟩, true, 1⟩ ∧
      (start 2 [true]).log events = [.Opened 0, .Opened 1, .Hit 0] ∧ ¬UsedSince ((start 2 [true]).log events) 0 1 := by
  intro events
  obtain ⟨candidates, victim, hevicts, hid, hother⟩ :=
    @evicts_first_file events 3 (by decide +kernel) (by decide +kernel)
  have hlog : (start 2 [true]).log events = [.Opened 0, .Opened 1, .Hit 0] := by decide +kernel
  refine ⟨candidates, victim, hevicts, hid, hother, hlog, ?_⟩
  rw [hlog]
  rintro ⟨rest, hrest, ⟨use, huse, -⟩, hnot⟩
  have hlast : rest.getLast (List.ne_nil_of_mem huse) = .Hit 0 := hrest.getLast (List.ne_nil_of_mem huse)
  exact hnot _ (List.getLast_mem (List.ne_nil_of_mem huse)) (by rw [hlast]; rfl)

end World

end swarmotter.storage.handle_cache

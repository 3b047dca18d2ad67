import Swarmotter.Storage.Handles

namespace swarmotter.storage.handle_cache

/-! What holds of every handle and every file object, wherever it is. -/

/-- A property of handles and of files, which depends on the torrent and the index that they are filed under. -/
structure Filing where
  handle : Nat → Nat → CachedFileHandle → Prop
  file : Nat → Nat → BudgetedWritableFile → Prop
  file_of_handle : ∀ {torrent index found}, handle torrent index found → file torrent index found.file

/-! Caches. -/

namespace WritableHandleCache

structure Filed (p : Filing) (torrent : Nat) (cache : WritableHandleCache) : Prop where
  handles : ∀ index handle, cache.handles.lookup index = some handle → p.handle torrent index handle
  retired : ∀ entry ∈ cache.retired, p.file torrent entry.1 entry.2.file

section
variable {p : Filing} {torrent index : Nat} {cache : WritableHandleCache} {handle : CachedFileHandle}
  {strong_count : BudgetedWritableFile → Nat}

theorem Filed.empty (p : Filing) (torrent : Nat) : Filed p torrent .empty :=
  ⟨nofun, nofun⟩

theorem Filed.insert (h : Filed p torrent cache) (hhandle : p.handle torrent index handle) :
    Filed p torrent { cache with handles := cache.handles.insert index handle } := by
  refine ⟨fun other found hfound => ?_, h.retired⟩
  by_cases heq : other = index
  · subst heq
    rw [AList.lookup_insert] at hfound
    cases hfound
    exact hhandle
  · rw [AList.lookup_insert_ne heq] at hfound
    exact h.handles other found hfound

theorem Filed.erase (h : Filed p torrent cache) (index : Nat) :
    Filed p torrent { cache with handles := cache.handles.erase index } := by
  refine ⟨fun other found hfound => ?_, h.retired⟩
  by_cases heq : other = index
  · subst heq
    rw [AList.lookup_erase] at hfound
    exact nomatch hfound
  · rw [AList.lookup_erase_ne heq] at hfound
    exact h.handles other found hfound

theorem Filed.push_retired (h : Filed p torrent cache) {retired : RetiredWritableHandle}
    (hretired : p.file torrent index retired.file) : Filed p torrent (cache.push_retired index retired) := by
  exact ⟨h.handles, List.forall_mem_append.mpr ⟨h.retired, List.forall_mem_singleton.mpr hretired⟩⟩

theorem Filed.put_back (h : Filed p torrent cache) (hhandle : p.handle torrent index handle) :
    Filed p torrent (cache.put_back index handle) := by
  unfold WritableHandleCache.put_back
  split
  · exact h.insert hhandle
  · exact h.push_retired (p.file_of_handle hhandle)

/-- Some of the retired handles are left, or have been flushed. -/
theorem Filed.with_retired (h : Filed p torrent cache) {retired : Vec (Nat × RetiredWritableHandle)}
    (hretired : ∀ entry ∈ retired, ∃ old ∈ cache.retired, old.1 = entry.1 ∧ old.2.file = entry.2.file) :
    Filed p torrent { cache with retired } := by
  refine ⟨h.handles, fun entry hentry => ?_⟩
  obtain ⟨old, hold, hindex, hfile⟩ := hretired entry hentry
  rw [← hindex, ← hfile]
  exact h.retired old hold

theorem Filed.filter_retired (h : Filed p torrent cache) (keep : Nat × RetiredWritableHandle → Bool) :
    Filed p torrent { cache with retired := cache.retired.filter keep } :=
  h.with_retired fun entry hentry => ⟨entry, (List.mem_filter.mp hentry).1, rfl, rfl⟩

theorem mem_replaceF {α : Type} {f : α → Option α} {xs : List α} {x : α} (h : x ∈ xs.replaceF f) :
    x ∈ xs ∨ ∃ old ∈ xs, f old = some x := by
  induction xs with
  | nil => exact absurd h List.not_mem_nil
  | cons y xs ih =>
    cases hf : f y with
    | none =>
      rw [List.replaceF_cons_of_none f hf] at h
      rcases List.mem_cons.mp h with rfl | hrest
      · exact .inl List.mem_cons_self
      · rcases ih hrest with hold | ⟨old, hold, hx⟩
        · exact .inl (List.mem_cons_of_mem y hold)
        · exact .inr ⟨old, List.mem_cons_of_mem y hold, hx⟩
    | some new =>
      rw [List.replaceF_cons_of_some f hf] at h
      rcases List.mem_cons.mp h with rfl | hrest
      · exact .inr ⟨y, List.mem_cons_self, hf⟩
      · exact .inl (List.mem_cons_of_mem y hrest)

theorem Filed.mark_flushed (h : Filed p torrent cache) (index : Nat) (file : BudgetedWritableFile) :
    Filed p torrent (cache.mark_flushed index file) := by
  apply h.with_retired
  intro entry hentry
  rcases mem_replaceF hentry with hold | ⟨old, hold, hnew⟩
  · exact ⟨entry, hold, rfl, rfl⟩
  · split at hnew
    · cases hnew
      exact ⟨old, hold, rfl, rfl⟩
    · exact nomatch hnew

theorem Filed.mark_retired_flushed (h : Filed p torrent cache) (indices : Option (Vec Nat)) :
    Filed p torrent (cache.mark_retired_flushed indices) := by
  apply h.with_retired
  intro entry hentry
  obtain ⟨old, hold, rfl⟩ := List.mem_map.mp hentry
  refine ⟨old, hold, ?_⟩
  split <;> exact ⟨rfl, rfl⟩

/-- The handles that are displaced, and those that stay. -/
theorem Filed.displace (h : Filed p torrent cache) (index fuel : Nat) :
    (∀ entry ∈ (displace index fuel cache.handles).1, p.handle torrent entry.1 entry.2) ∧
      Filed p torrent { cache with handles := (displace index fuel cache.handles).2 } := by
  induction fuel generalizing cache with
  | zero => exact ⟨nofun, h⟩
  | succ fuel ih =>
    unfold WritableHandleCache.displace
    split
    · split
      · rename_i evict_index _
        split
        · rename_i handle hlookup
          obtain ⟨hevicted, hrest⟩ := ih (h.erase evict_index)
          exact ⟨List.forall_mem_cons.mpr ⟨h.handles _ _ hlookup, hevicted⟩, hrest⟩
        · exact ih h
      · exact ⟨nofun, h⟩
    · exact ⟨nofun, h⟩

/-- The handles that a flush reaches are filed under the files that it is for. -/
theorem Filed.collect (h : Filed p torrent cache) {indices : Option (Vec Nat)} {file : BudgetedWritableFile}
    (hfile : file ∈ cache.collect_writable_handles strong_count indices) :
    ∃ index, (∀ asked, indices = some asked → index ∈ asked) ∧ p.file torrent index file := by
  have hasked {index : Nat} (hindex : indices.elim true (fun indices => decide (index ∈ indices)) = true) :
      ∀ asked, indices = some asked → index ∈ asked := by
    rintro asked rfl
    exact of_decide_eq_true hindex
  rcases List.mem_append.mp hfile with hmem | hmem
  · obtain ⟨entry, hentry, rfl⟩ := List.mem_map.mp hmem
    obtain ⟨hentry, hp⟩ := List.mem_filter.mp hentry
    exact ⟨entry.1, hasked (Bool.and_eq_true_iff.mp hp).1,
      p.file_of_handle (h.handles _ _ (AList.mem_lookup_iff.mpr hentry))⟩
  · obtain ⟨entry, hentry, rfl⟩ := List.mem_map.mp hmem
    obtain ⟨hentry, hp⟩ := List.mem_filter.mp hentry
    exact ⟨entry.1, hasked (Bool.and_eq_true_iff.mp hp).1, h.retired entry hentry⟩

end

end WritableHandleCache

/-! Evictions and calls. -/

def Eviction.Filed (p : Filing) (torrent : Nat) : Eviction → Prop
  | .Flushing index handle | .PuttingBack index handle | .Retiring index handle => p.handle torrent index handle
  | _ => True

/-- The handle that is removed can be filed under the index that was chosen before. -/
def Eviction.Allowed (p : Filing) (torrent : Nat) (cache : WritableHandleCache) : Eviction → Prop
  | .Removing index => ∀ candidate handle, cache.candidate = some candidate → p.handle torrent candidate handle →
    p.handle torrent index handle
  | _ => True

theorem Eviction.Filed.step {p : Filing} {torrent : Nat} {cache : WritableHandleCache} {eviction : Eviction}
    (h : eviction.Filed p torrent) (hcache : cache.Filed p torrent) (hallowed : eviction.Allowed p torrent cache)
    (strong_count : BudgetedWritableFile → Nat) (ok : Bool) :
    (eviction.step cache strong_count ok).1.Filed p torrent ∧
      ∀ next, (eviction.step cache strong_count ok).2 = some next → next.Filed p torrent := by
  cases eviction with
  | Pruning =>
    refine ⟨hcache.filter_retired _, fun next hnext => ?_⟩
    cases hnext
    trivial
  | Choosing =>
    refine ⟨hcache, fun next hnext => ?_⟩
    obtain ⟨index, -, rfl⟩ := Option.map_eq_some_iff.mp hnext
    trivial
  | Removing index =>
    dsimp only [Eviction.step]
    split
    · rename_i candidate hcandidate
      split
      · rename_i handle hlookup
        refine ⟨hcache.erase candidate, fun next hnext => ?_⟩
        cases hnext
        exact hallowed candidate handle hcandidate (hcache.handles _ _ hlookup)
      · exact ⟨hcache, nofun⟩
    · exact ⟨hcache, nofun⟩
  | Flushing index handle =>
    dsimp only [Eviction.step]
    split
    · refine ⟨hcache, fun next hnext => ?_⟩
      dsimp only at hnext
      split at hnext
      · cases hnext
        exact h
      · exact nomatch hnext
    · refine ⟨hcache, fun next hnext => ?_⟩
      cases hnext
      exact h
  | PuttingBack index handle => exact ⟨hcache.put_back h, nofun⟩
  | Retiring index handle => exact ⟨hcache.push_retired (p.file_of_handle h), nofun⟩

namespace OpenPhase

def Filed (p : Filing) (torrent index : Nat) : OpenPhase → Prop
  | .FlushingRetired file | .MarkingFlushed file | .Returned file => p.file torrent index file
  | .Evicting other _ eviction => eviction.Filed p other
  | .Inserting handle => p.handle torrent index handle
  | .Displacing file evicted rest | .Restoring file evicted rest | .Retiring file evicted rest =>
    p.file torrent index file ∧ ∀ entry ∈ evicted :: rest, p.handle torrent entry.1 entry.2
  | _ => True

theorem filed_evict_from (p : Filing) (torrent index : Nat) (rest : Vec Nat) :
    (evict_from rest).Filed p torrent index := by
  cases rest <;> trivial

theorem filed_displacing {p : Filing} {torrent index : Nat} {file : BudgetedWritableFile}
    {evicted : Vec (Nat × CachedFileHandle)} (hfile : p.file torrent index file)
    (hevicted : ∀ entry ∈ evicted, p.handle torrent entry.1 entry.2) :
    (displacing file evicted).Filed p torrent index := by
  cases evicted with
  | nil => exact hfile
  | cons entry rest => exact ⟨hfile, hevicted⟩

end OpenPhase

def Call.Filed (p : Filing) : Call → Prop
  | .Open torrent index _ phase => phase.Filed p torrent index
  | .Flush torrent indices (.Flushing files) => ∀ file ∈ files,
    ∃ index, (∀ asked, indices = some asked → index ∈ asked) ∧ p.file torrent index file
  | _ => True

namespace World

structure Filed (p : Filing) (world : World) : Prop where
  storages : ∀ (torrent : Nat) (storage : TorrentStorage), world.storages[torrent]? = some storage →
    storage.cache.Filed p torrent
  calls : ∀ call ∈ world.calls, call.Filed p

/-- The handle that an open makes. -/
def opened (world : World) (torrent index : Nat) (create_if_missing handle_budget : Bool) : CachedFileHandle :=
  ⟨⟨world.use_tick, torrent, index, create_if_missing && handle_budget⟩, create_if_missing, world.use_tick⟩

/-- The property holds of a handle that is opened to be kept, or of a file that is opened to be read, and of a handle
that is about to be filed under another index. -/
def Allowed (p : Filing) (world : World) : Event → Prop
  | .Step call ok => ∀ torrent index create_if_missing phase storage,
    world.calls[call]? = some (.Open torrent index create_if_missing phase) →
    (phase = .Opening → ok = true → world.storages[torrent]? = some storage →
      if create_if_missing then p.handle torrent index (world.opened torrent index true storage.handle_budget)
      else p.file torrent index (world.opened torrent index false storage.handle_budget).file) ∧
    ∀ other rest eviction, phase = .Evicting other rest eviction → world.storages[other]? = some storage →
      eviction.Allowed p other storage.cache
  | _ => True

section
variable {p : Filing} {world : World} {call torrent index : Nat} {create_if_missing ok : Bool}
  {storage : TorrentStorage}

theorem Filed.set_call (h : world.Filed p) (call : Nat) {next : Call} (hnext : next.Filed p) :
    (world.set_call call next).Filed p := by
  refine ⟨h.storages, fun other hother => ?_⟩
  rcases List.mem_or_eq_of_mem_set hother with hmem | rfl
  · exact h.calls other hmem
  · exact hnext

theorem Filed.set_cache (h : world.Filed p) {cache : WritableHandleCache} (hcache : cache.Filed p torrent) :
    (world.set_cache torrent cache).Filed p := by
  refine ⟨fun other storage hstorage => ?_, h.calls⟩
  rw [getElem?_set_cache] at hstorage
  split at hstorage
  · rename_i heq
    obtain ⟨old, -, rfl⟩ := Option.map_eq_some_iff.mp hstorage
    exact heq ▸ hcache
  · exact h.storages other storage hstorage

theorem filed_resolved : (resolved storage torrent index create_if_missing ok).Filed p := by
  unfold resolved
  split
  · split <;> trivial
  · trivial

theorem Filed.with_budget (h : world.Filed p) (budget : StorageHandleBudget) : World.Filed p { world with budget } :=
  ⟨h.storages, h.calls⟩

theorem Filed.count_in (h : world.Filed p) (rest : Option (Vec Nat)) :
    (world.count_in call torrent index create_if_missing rest).Filed p := by
  refine (h.with_budget world.budget.fetch_add.2).set_call call ?_
  split <;> trivial

theorem Filed.step_open (h : world.Filed p) {phase : OpenPhase}
    (hcall : world.calls[call]? = some (.Open torrent index create_if_missing phase))
    (hstorage : world.storages[torrent]? = some storage) (hallowed : world.Allowed p (.Step call ok)) :
    (world.step_open call torrent index create_if_missing ok storage phase).Filed p := by
  have hcache := h.storages torrent storage hstorage
  have hphase : phase.Filed p torrent index := h.calls _ (List.mem_of_getElem? hcall)
  cases phase with
  | Looking =>
    have hmissed : (if create_if_missing then world.set_call call (.Open torrent index create_if_missing .Waiting)
        else world.set_call call (resolved storage torrent index create_if_missing ok)).Filed p := by
      split
      · exact h.set_call call trivial
      · exact h.set_call call filed_resolved
    dsimp only [World.step_open]
    split
    · rename_i handle hlookup
      split
      · exact h.set_call call (p.file_of_handle (hcache.handles index handle hlookup))
      · exact hmissed
    · exact hmissed
  | Waiting =>
    have hkept := h.set_cache (hcache.filter_retired fun entry =>
      entry.1 ≠ index || WritableHandleCache.retained world.strong_count entry.2)
    dsimp only [World.step_open]
    split
    · exact hkept.set_call call filed_resolved
    · split
      · rename_i other handle hfind
        have hasked := List.find?_some hfind
        have hindex : other = index := of_decide_eq_true (Bool.and_eq_true_iff.mp hasked).1
        refine hkept.set_call call ?_
        rw [← hindex]
        exact hcache.retired _ (List.mem_filter.mp (List.mem_of_find?_eq_some hfind)).1
      · exact hkept
  | FlushingRetired file =>
    dsimp only [World.step_open]
    split
    · exact h.set_call call hphase
    · exact h.set_call call trivial
  | MarkingFlushed file => exact (h.set_cache (hcache.mark_flushed index file)).set_call call trivial
  | Registering => exact (h.with_budget _).set_call call trivial
  | Acquiring => exact h.count_in none
  | Overshot rest =>
    refine (h.with_budget _).set_call call ?_
    cases rest with
    | none => trivial
    | some rest => exact OpenPhase.filed_evict_from p torrent index rest
  | Collecting => exact h.set_call call (OpenPhase.filed_evict_from p torrent index _)
  | Evicting other rest eviction =>
    dsimp only [World.step_open]
    split
    · rename_i target htarget
      obtain ⟨hnext_cache, hnext⟩ := Eviction.Filed.step hphase (h.storages other target htarget)
        ((hallowed _ _ _ _ target hcall).2 other rest eviction rfl htarget) world.strong_count ok
      refine (h.set_cache hnext_cache).set_call call ?_
      cases hresult : (eviction.step target.cache world.strong_count ok).2 with
      | none => trivial
      | some next => exact hnext next hresult
    · exact h.set_call call trivial
  | Retrying rest => exact h.count_in (some rest)
  | Sleeping => exact h.set_call call trivial
  | Opening =>
    dsimp only [World.step_open]
    split
    · rename_i hok
      have hopened := (hallowed _ _ _ _ storage hcall).1 rfl hok hstorage
      have hticked : World.Filed p { world with use_tick := world.use_tick + 1 } := ⟨h.storages, h.calls⟩
      refine hticked.set_call call ?_
      cases create_if_missing with
      | true => exact hopened
      | false => exact hopened
    · exact (h.with_budget _).set_call call trivial
  | Inserting handle =>
    dsimp only [World.step_open]
    split
    · rename_i existing hexisting
      exact h.set_call call (p.file_of_handle (hcache.handles _ _ (Option.filter_eq_some_iff.mp hexisting).1))
    · obtain ⟨hevicted, hrest⟩ := hcache.displace index storage.cache.handles.entries.length
      exact (h.set_cache (hrest.insert hphase)).set_call call
        (OpenPhase.filed_displacing (p.file_of_handle hphase) hevicted)
  | Displacing file evicted rest =>
    have hrest : ∀ entry ∈ rest, p.handle torrent entry.1 entry.2 :=
      fun entry hentry => hphase.2 entry (List.mem_cons_of_mem _ hentry)
    dsimp only [World.step_open]
    split
    · split
      · exact h.set_call call hphase
      · exact h.set_call call (OpenPhase.filed_displacing hphase.1 hrest)
    · exact h.set_call call hphase
  | Restoring file evicted rest =>
    exact (h.set_cache (hcache.put_back (hphase.2 evicted List.mem_cons_self))).set_call call trivial
  | Retiring file evicted rest =>
    have hevicted := p.file_of_handle (hphase.2 evicted List.mem_cons_self)
    have hrest : ∀ entry ∈ rest, p.handle torrent entry.1 entry.2 :=
      fun entry hentry => hphase.2 entry (List.mem_cons_of_mem _ hentry)
    exact (h.set_cache (hcache.push_retired hevicted)).set_call call (OpenPhase.filed_displacing hphase.1 hrest)
  | Returned file => exact h

theorem Filed.step_flush (h : world.Filed p) {indices : Option (Vec Nat)} {phase : FlushPhase}
    (hcall : world.calls[call]? = some (.Flush torrent indices phase))
    (hstorage : world.storages[torrent]? = some storage) :
    (world.step_flush call torrent indices ok storage phase).Filed p := by
  have hcache := h.storages torrent storage hstorage
  have hphase := h.calls _ (List.mem_of_getElem? hcall)
  cases phase with
  | Gathering => exact h.set_call call fun file hfile => hcache.collect hfile
  | Flushing files =>
    cases files with
    | nil => exact h.set_call call trivial
    | cons file files =>
      refine h.set_call call ?_
      split
      · exact fun other hother => hphase other (List.mem_cons_of_mem _ hother)
      · trivial
  | Marking => exact (h.set_cache (hcache.mark_retired_flushed indices)).set_call call trivial
  | Pruning => exact (h.set_cache (hcache.filter_retired _)).set_call call trivial

/-- What holds of all handles goes on to do so. -/
theorem Filed.act (h : world.Filed p) {event : Event} (hallowed : world.Allowed p event) :
    (world.act event).Filed p := by
  have hpush {next : Call} (hnext : next.Filed p) : World.Filed p { world with calls := world.calls ++ [next] } :=
    ⟨h.storages, List.forall_mem_append.mpr ⟨h.calls, List.forall_mem_singleton.mpr hnext⟩⟩
  cases event with
  | Open torrent index create_if_missing => exact hpush trivial
  | Flush torrent indices => exact hpush trivial
  | Step call ok =>
    dsimp only [World.act]
    split
    · rename_i torrent index create_if_missing phase hcall
      split
      · rename_i storage hstorage
        exact h.step_open hcall hstorage hallowed
      · exact h
    · rename_i torrent indices phase hcall
      split
      · rename_i storage hstorage
        exact h.step_flush hcall hstorage
      · exact h
    · exact h
  | Cancel call =>
    dsimp only [World.act]
    split
    · exact h
    · exact h.set_call call trivial
    · exact h
  | Clear torrent => exact h.set_cache (.empty p torrent)

theorem Filed.step (h : world.Filed p) {event : Event} (hallowed : world.Allowed p event) :
    (world.step event).Filed p :=
  (h.act hallowed).with_budget _

theorem Filed.start (p : Filing) (max_writable_handles : Nat) (handle_budgets : Vec Bool) :
    (start max_writable_handles handle_budgets).Filed p := by
  refine ⟨fun torrent storage hstorage => ?_, nofun⟩
  obtain ⟨handle_budget, -, rfl⟩ := List.mem_map.mp (List.mem_of_getElem? hstorage)
  exact .empty p torrent

end

end World

/-! Every handle is filed under the file that it was opened for, as long as no other task changes which handle is the
oldest one while an eviction has given up the lock. -/

def opened_for : Filing where
  handle torrent index handle := handle.file.torrent = torrent ∧ handle.file.index = index
  file torrent index file := file.torrent = torrent ∧ file.index = index
  file_of_handle h := h

/-- The handle that is removed is the one that was chosen. -/
def Eviction.steady (cache : WritableHandleCache) : Eviction → Bool
  | .Removing index => cache.candidate.all (· = index)
  | _ => true

namespace World

/-- An eviction that is about to remove a handle finds the one it has chosen to be the oldest still. -/
def steady (world : World) : Event → Bool
  | .Step call _ =>
    match world.calls[call]? with
    | some (.Open _ _ _ (.Evicting torrent _ eviction)) =>
      (world.storages[torrent]?).all fun storage => eviction.steady storage.cache
    | _ => true
  | _ => true

/-- All steps of a run are steady. -/
def steady_run : World → List Event → Bool
  | _, [] => true
  | world, event :: events => world.steady event && (world.step event).steady_run events

theorem allowed_of_steady {world : World} {event : Event} (h : world.steady event = true) :
    world.Allowed opened_for event := by
  cases event with
  | Step call ok =>
    intro torrent index create_if_missing phase storage hcall
    refine ⟨fun _ _ _ => ?_, ?_⟩
    · cases create_if_missing <;> exact ⟨rfl, rfl⟩
    rintro other rest eviction rfl hstorage
    have hchosen : eviction.steady storage.cache = true := by simpa [World.steady, hcall, hstorage] using h
    cases eviction with
    | Removing index =>
      intro candidate handle hcandidate hhandle
      have hsame : candidate = index := by simpa [Eviction.steady, hcandidate] using hchosen
      exact hsame ▸ hhandle
    | _ => trivial
  | _ => trivial

theorem filed_of_steady_run {world : World} (h : world.Filed opened_for) {events : List Event}
    (hevents : world.steady_run events = true) : (world.after events).Filed opened_for := by
  induction events generalizing world with
  | nil => exact h
  | cons event events ih =>
    obtain ⟨hevent, hevents⟩ := Bool.and_eq_true_iff.mp hevents
    exact ih (h.step (allowed_of_steady hevent)) hevents

/-- As long as the oldest handle of a cache stays the same while an eviction has given up the lock between choosing and
removing it, every handle in a cache or among the retired ones is filed under the file it was opened for, every file
that is returned is the one that was asked for, and a flush reaches handles of its own files only. -/
theorem handles_match_files {max_writable_handles : Nat} {handle_budgets : Vec Bool} {events : List Event}
    (hevents : (start max_writable_handles handle_budgets).steady_run events = true) :
    ((start max_writable_handles handle_budgets).after events).Filed opened_for :=
  filed_of_steady_run (.start opened_for max_writable_handles handle_budgets) hevents

/-- A call goes on for some steps, in all of which its file operations succeed. -/
def steps (call count : Nat) : List Event := List.replicate count (.Step call true)

/-- A file of the second torrent takes the slot of a file of the first one, whose handle is evicted. -/
theorem handles_match_files_one_eviction :
    let events := .Open 0 0 true :: steps 0 6 ++ .Cancel 0 :: .Open 1 5 true :: steps 1 13
    let world := (start 1 [true, true]).after events
    world.calls[1]? = some (.Open 1 5 true (.Returned ⟨1, 1, 5, true⟩)) ∧ world.Filed opened_for :=
  ⟨by decide +kernel, handles_match_files (by decide +kernel)⟩

/-- Two files of the first torrent are open and use up the budget, and two calls of the second torrent ask for a slot.
    -/
def two_evictions : List Event :=
  .Open 0 0 true :: steps 0 6 ++ .Cancel 0 :: .Open 0 1 true :: steps 1 6 ++
    [.Cancel 1, .Open 1 0 true, .Open 1 1 true] ++
    -- both have chosen the file that was opened first
    steps 2 8 ++ steps 3 8 ++
    -- one of them closes it
    steps 3 2 ++
    -- the other one takes the next file, and cannot flush it
    [.Step 2 true, .Step 2 false, .Step 2 true] ++
    -- the file that was closed is asked for again
    .Open 0 0 true :: steps 4 1

/-- The second file is returned in place of the first one. -/
theorem handle_of_another_file :
    let world := (start 2 [true, true]).after two_evictions
    (world.storages[0]?.bind fun storage => storage.cache.handles.lookup 0) = some ⟨⟨1, 0, 1, true⟩, true, 1⟩ ∧
      world.calls[4]? = some (.Open 0 0 true (.Returned ⟨1, 0, 1, true⟩)) := by
  decide +kernel

end World

end swarmotter.storage.handle_cache

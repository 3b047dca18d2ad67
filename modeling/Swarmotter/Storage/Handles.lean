import Mathlib.Data.Finset.Card
import Mathlib.Data.List.AList
import Mathlib.Data.List.MinMax
import Swarmotter.Bytes

namespace swarmotter.storage.handle_cache

/-! The writable payload files that torrents keep open, and the budget that they share. -/

def MAX_CACHED_WRITABLE_FILE_HANDLES : Nat := 64

/-- A file object behind its `Arc`. The objects are told apart by the tick at which they were opened. -/
structure BudgetedWritableFile where
  id : Nat
  /-- The torrent and the index of the file that was opened. -/
  torrent : Nat
  index : Nat
  budget : Bool
  deriving DecidableEq

structure CachedFileHandle where
  file : BudgetedWritableFile
  writable : Bool
  last_used : Nat
  deriving DecidableEq

structure RetiredWritableHandle where
  file : BudgetedWritableFile
  flush_pending : Bool
  deriving DecidableEq

/-- The retired handles of all files are in one list, each with the index it is filed under. -/
structure WritableHandleCache where
  handles : AList fun _ : Nat => CachedFileHandle
  retired : Vec (Nat × RetiredWritableHandle)

namespace WritableHandleCache

def empty : WritableHandleCache := ⟨∅, []⟩

/-- The index of the handle with the least `last_used`, among those that satisfy `p`. -/
def oldest (handles : AList fun _ : Nat => CachedFileHandle) (p : Nat → CachedFileHandle → Bool) : Option Nat :=
  ((handles.entries.filter fun entry => p entry.1 entry.2).argmin fun entry => entry.2.last_used).map (·.1)

/-- The candidate of `evict_one_lru`. -/
def candidate (self : WritableHandleCache) : Option Nat := oldest self.handles fun _ handle => handle.writable

def push_retired (self : WritableHandleCache) (index : Nat) (handle : RetiredWritableHandle) : WritableHandleCache :=
  { self with retired := self.retired ++ [(index, handle)] }

/-- A handle whose flush has failed goes back to the cache, or to the retired ones if its place is taken. -/
def put_back (self : WritableHandleCache) (index : Nat) (handle : CachedFileHandle) : WritableHandleCache :=
  if (self.handles.lookup index).isNone then { self with handles := self.handles.insert index handle }
  else self.push_retired index ⟨handle.file, true⟩

/-- Whether a retired handle is kept: its flush is pending, or it is in use. -/
def retained (strong_count : BudgetedWritableFile → Nat) (handle : RetiredWritableHandle) : Bool :=
  handle.flush_pending || strong_count handle.file > 1

def prune_released_retired (self : WritableHandleCache) (strong_count : BudgetedWritableFile → Nat) :
    WritableHandleCache :=
  { self with retired := self.retired.filter fun entry => retained strong_count entry.2 }

/-- The loop of `open_file_handle` that makes room. The handles are fuel enough. -/
def displace (index : Nat) : Nat → (AList fun _ : Nat => CachedFileHandle) →
    Vec (Nat × CachedFileHandle) × AList fun _ : Nat => CachedFileHandle
  | 0, handles => ([], handles)
  | fuel + 1, handles =>
    if handles.entries.length ≥ MAX_CACHED_WRITABLE_FILE_HANDLES then
      match oldest handles fun candidate _ => candidate ≠ index with
      | some evict_index =>
        match handles.lookup evict_index with
        | some handle =>
          let (evicted, handles) := displace index fuel (handles.erase evict_index)
          ((evict_index, handle) :: evicted, handles)
        | none => displace index fuel handles
      | none => ([], handles)
    else ([], handles)

/-- The retired handle of a file that has been flushed. -/
def mark_flushed (self : WritableHandleCache) (index : Nat) (file : BudgetedWritableFile) : WritableHandleCache :=
  { self with
    retired := self.retired.replaceF fun entry =>
      if entry.1 = index ∧ entry.2.file = file then some (entry.1, { entry.2 with flush_pending := false }) else none }

/-- The handles that a flush of some files, or of all of them, has to reach. -/
def collect_writable_handles (self : WritableHandleCache) (strong_count : BudgetedWritableFile → Nat)
    (indices : Option (Vec Nat)) : Vec BudgetedWritableFile :=
  let asked (index : Nat) : Bool := indices.elim true fun indices => index ∈ indices
  (self.handles.entries.filter fun entry => asked entry.1 && entry.2.writable).map (·.2.file) ++
    (self.retired.filter fun entry => asked entry.1 && retained strong_count entry.2).map (·.2.file)

def mark_retired_flushed (self : WritableHandleCache) (indices : Option (Vec Nat)) : WritableHandleCache :=
  { self with
    retired := self.retired.map fun entry =>
      if indices.elim true fun indices => entry.1 ∈ indices then (entry.1, { entry.2 with flush_pending := false })
      else entry }

/-- The references of a cache to file objects. -/
def refs (self : WritableHandleCache) : Vec BudgetedWritableFile :=
  self.handles.entries.map (·.2.file) ++ self.retired.map (·.2.file)

end WritableHandleCache

/-! Calls. A phase ends at the next lock or file operation that the call waits for. -/

/-- Where a call of `evict_one_lru` is. -/
inductive Eviction where
  | Pruning
  | Choosing
  /-- An index has been chosen, and the lock was given up. -/
  | Removing (index : Nat)
  | Flushing (index : Nat) (handle : CachedFileHandle)
  | PuttingBack (index : Nat) (handle : CachedFileHandle)
  /-- The handle is in use. -/
  | Retiring (index : Nat) (handle : CachedFileHandle)
  deriving DecidableEq

/-- The next step of an eviction, which is over if there is no phase left. -/
def Eviction.step (cache : WritableHandleCache) (strong_count : BudgetedWritableFile → Nat) (ok : Bool) :
    Eviction → WritableHandleCache × Option Eviction
  | .Pruning => (cache.prune_released_retired strong_count, some .Choosing)
  | .Choosing => (cache, cache.candidate.map .Removing)
  | .Removing index =>
    match cache.candidate with
    | some candidate =>
      match cache.handles.lookup candidate with
      | some handle => ({ cache with handles := cache.handles.erase candidate }, some (.Flushing index handle))
      | none => (cache, none)
    | none => (cache, none)
  | .Flushing index handle =>
    if ok then (cache, if strong_count handle.file > 1 then some (.Retiring index handle) else none)
    else (cache, some (.PuttingBack index handle))
  | .PuttingBack index handle => (cache.put_back index handle, none)
  | .Retiring index handle => (cache.push_retired index ⟨handle.file, false⟩, none)

def Eviction.refs : Eviction → Vec BudgetedWritableFile
  | .Flushing _ handle | .PuttingBack _ handle | .Retiring _ handle => [handle.file]
  | _ => []

/-- Where a call of `open_file_handle` is. -/
inductive OpenPhase where
  | Looking
  /-- About to look at the retired handles of the file. -/
  | Waiting
  | FlushingRetired (file : BudgetedWritableFile)
  | MarkingFlushed (file : BudgetedWritableFile)
  | Registering
  /-- About to count itself at the head of the loop of `acquire`. -/
  | Acquiring
  /-- Counted itself although there was no room, in the loop over the registered caches if some of these are left. -/
  | Overshot (rest : Option (Vec Nat))
  | Collecting
  | Evicting (torrent : Nat) (rest : Vec Nat) (eviction : Eviction)
  /-- About to count itself after an eviction. -/
  | Retrying (rest : Vec Nat)
  | Sleeping
  /-- The file is being opened, with a slot of the budget if there is one. -/
  | Opening
  | Inserting (handle : CachedFileHandle)
  /-- The first of the displaced handles is flushed. -/
  | Displacing (file : BudgetedWritableFile) (evicted : Nat × CachedFileHandle) (rest : Vec (Nat × CachedFileHandle))
  /-- Its flush has failed. -/
  | Restoring (file : BudgetedWritableFile) (evicted : Nat × CachedFileHandle) (rest : Vec (Nat × CachedFileHandle))
  /-- It is in use. -/
  | Retiring (file : BudgetedWritableFile) (evicted : Nat × CachedFileHandle) (rest : Vec (Nat × CachedFileHandle))
  /-- The caller has the file. -/
  | Returned (file : BudgetedWritableFile)
  deriving DecidableEq

namespace OpenPhase

/-- The loop over the registered caches. -/
def evict_from : Vec Nat → OpenPhase
  | [] => .Sleeping
  | torrent :: rest => .Evicting torrent rest .Pruning

/-- The loop over the displaced handles. -/
def displacing (file : BudgetedWritableFile) : Vec (Nat × CachedFileHandle) → OpenPhase
  | [] => .Returned file
  | evicted :: rest => .Displacing file evicted rest

def refs : OpenPhase → Vec BudgetedWritableFile
  | .FlushingRetired file | .MarkingFlushed file | .Returned file => [file]
  | .Evicting _ _ eviction => eviction.refs
  | .Inserting handle => [handle.file]
  | .Displacing file evicted rest | .Restoring file evicted rest | .Retiring file evicted rest =>
    file :: evicted.2.file :: rest.map (·.2.file)
  | _ => []

end OpenPhase

/-- Where a flush is: `flush_writable_file_slices` or `flush_all_writable_handles`. -/
inductive FlushPhase where
  | Gathering
  | Flushing (files : Vec BudgetedWritableFile)
  | Marking
  | Pruning
  deriving DecidableEq

inductive Call where
  | Open (torrent index : Nat) (create_if_missing : Bool) (phase : OpenPhase)
  | Flush (torrent : Nat) (indices : Option (Vec Nat)) (phase : FlushPhase)
  /-- Returned without a file, or the caller has dropped the file. -/
  | Ended
  deriving DecidableEq

def Call.refs : Call → Vec BudgetedWritableFile
  | .Open _ _ _ phase => phase.refs
  | .Flush _ _ (.Flushing files) => files
  | _ => []

/-- A slot of the budget is held for a file that does not exist yet. -/
def Call.reserves (has_budget : Nat → Bool) : Call → Bool
  | .Open torrent _ true .Opening => has_budget torrent
  | _ => false

/-- A slot of the budget is counted that will be given up at once. -/
def Call.overshoots : Call → Bool
  | .Open _ _ _ (.Overshot _) => true
  | _ => false

/-! The state of the daemon, as far as these files are concerned. -/

structure StorageHandleBudget where
  max_writable_handles : Nat
  live : Nat
  registered : Vec Nat

namespace StorageHandleBudget

def new (max_writable_handles : Nat) : StorageHandleBudget := ⟨max max_writable_handles 1, 0, []⟩

def register (self : StorageHandleBudget) (torrent : Nat) : StorageHandleBudget :=
  if torrent ∈ self.registered then self else { self with registered := self.registered ++ [torrent] }

/-- `fetch_add`, and whether there was room. -/
def fetch_add (self : StorageHandleBudget) : Bool × StorageHandleBudget :=
  (self.live < self.max_writable_handles, { self with live := self.live + 1 })

def release (self : StorageHandleBudget) : StorageHandleBudget := { self with live := self.live - 1 }

end StorageHandleBudget

/-- The storage of a torrent: whether it has the budget, and its cache. -/
structure TorrentStorage where
  handle_budget : Bool
  cache : WritableHandleCache

structure World where
  budget : StorageHandleBudget
  /-- `HANDLE_USE_TICK`. -/
  use_tick : Nat
  storages : Vec TorrentStorage
  calls : Vec Call

inductive Event where
  | Open (torrent index : Nat) (create_if_missing : Bool)
  | Flush (torrent : Nat) (indices : Option (Vec Nat))
  /-- A call goes on, and its file operation succeeds or fails. -/
  | Step (call : Nat) (ok : Bool)
  /-- The future of a call is dropped, or the file that it has returned. -/
  | Cancel (call : Nat)
  /-- `clear_file_handles`, or the storage is dropped. -/
  | Clear (torrent : Nat)
  deriving DecidableEq

namespace World

def start (max_writable_handles : Nat) (handle_budgets : Vec Bool) : World where
  budget := .new max_writable_handles
  use_tick := 0
  storages := handle_budgets.map fun handle_budget => ⟨handle_budget, .empty⟩
  calls := []

def has_budget (world : World) (torrent : Nat) : Bool := (world.storages[torrent]?).elim false (·.handle_budget)

/-- The references to file objects, in the caches and in the calls. -/
def refs (world : World) : Vec BudgetedWritableFile :=
  world.storages.flatMap (·.cache.refs) ++ world.calls.flatMap Call.refs

def strong_count (world : World) (file : BudgetedWritableFile) : Nat := world.refs.count file

/-- The budgeted files that exist. -/
def files (world : World) : Finset BudgetedWritableFile := world.refs.toFinset.filter (·.budget = true)

def set_call (world : World) (call : Nat) (next : Call) : World := { world with calls := world.calls.set call next }

def set_cache (world : World) (torrent : Nat) (cache : WritableHandleCache) : World :=
  { world with storages := world.storages.modify torrent fun storage => { storage with cache } }

/-- The path of the file is known, or not. -/
def resolved (storage : TorrentStorage) (torrent index : Nat) (create_if_missing ok : Bool) : Call :=
  if ok then .Open torrent index create_if_missing
    (if create_if_missing && storage.handle_budget then .Registering else .Opening)
  else .Ended

/-- A call counts itself, and goes on with a slot or without. -/
def count_in (world : World) (call torrent index : Nat) (create_if_missing : Bool) (rest : Option (Vec Nat)) : World :=
  let (room, budget) := world.budget.fetch_add
  { world with budget }.set_call call
    (.Open torrent index create_if_missing (if room then .Opening else .Overshot rest))

/-- The next step of `open_file_handle`, before files without references are dropped. -/
def step_open (world : World) (call torrent index : Nat) (create_if_missing ok : Bool) (storage : TorrentStorage)
    (phase : OpenPhase) : World :=
  let cache := storage.cache
  let goto (phase : OpenPhase) := world.set_call call (.Open torrent index create_if_missing phase)
  match phase with
  | .Looking =>
    let missed := if create_if_missing then goto .Waiting
      else world.set_call call (resolved storage torrent index create_if_missing ok)
    match cache.handles.lookup index with
    | some handle => if handle.writable || !create_if_missing then goto (.Returned handle.file) else missed
    | none => missed
  | .Waiting =>
    let retired := cache.retired.filter fun entry =>
      entry.1 ≠ index || WritableHandleCache.retained world.strong_count entry.2
    let world := world.set_cache torrent { cache with retired }
    match retired.find? fun entry => entry.1 = index with
    | none => world.set_call call (resolved storage torrent index create_if_missing ok)
    | some _ =>
      match retired.find? fun entry => entry.1 = index && entry.2.flush_pending with
      | some (_, handle) => world.set_call call (.Open torrent index create_if_missing (.FlushingRetired handle.file))
      | none => world
  | .FlushingRetired file => if ok then goto (.MarkingFlushed file) else world.set_call call .Ended
  | .MarkingFlushed file =>
    (world.set_cache torrent (cache.mark_flushed index file)).set_call call
      (.Open torrent index create_if_missing .Waiting)
  | .Registering =>
    { world with budget := world.budget.register torrent }.set_call call
      (.Open torrent index create_if_missing .Acquiring)
  | .Acquiring => world.count_in call torrent index create_if_missing none
  | .Overshot rest =>
    { world with budget := world.budget.release }.set_call call
      (.Open torrent index create_if_missing (rest.elim .Collecting .evict_from))
  | .Collecting => goto (.evict_from world.budget.registered)
  | .Evicting other rest eviction =>
    match world.storages[other]? with
    | some storage =>
      let (cache, next) := eviction.step storage.cache world.strong_count ok
      (world.set_cache other cache).set_call call
        (.Open torrent index create_if_missing (next.elim (.Retrying rest) (.Evicting other rest)))
    | none => goto (.Retrying rest)
  | .Retrying rest => world.count_in call torrent index create_if_missing (some rest)
  | .Sleeping => goto .Acquiring
  | .Opening =>
    let budget := create_if_missing && storage.handle_budget
    if ok then
      let file : BudgetedWritableFile := ⟨world.use_tick, torrent, index, budget⟩
      { world with use_tick := world.use_tick + 1 }.set_call call (.Open torrent index create_if_missing
        (if create_if_missing then .Inserting ⟨file, create_if_missing, world.use_tick⟩ else .Returned file))
    else { world with budget := if budget then world.budget.release else world.budget }.set_call call .Ended
  | .Inserting handle =>
    match (cache.handles.lookup index).filter (·.writable) with
    | some existing => goto (.Returned existing.file)
    | none =>
      let (evicted, handles) := WritableHandleCache.displace index cache.handles.entries.length cache.handles
      (world.set_cache torrent { cache with handles := handles.insert index handle }).set_call call
        (.Open torrent index create_if_missing (.displacing handle.file evicted))
  | .Displacing file evicted rest =>
    if ok then
      if world.strong_count evicted.2.file > 1 then goto (.Retiring file evicted rest)
      else goto (.displacing file rest)
    else goto (.Restoring file evicted rest)
  | .Restoring _ evicted _ => (world.set_cache torrent (cache.put_back evicted.1 evicted.2)).set_call call .Ended
  | .Retiring file evicted rest =>
    (world.set_cache torrent (cache.push_retired evicted.1 ⟨evicted.2.file, false⟩)).set_call call
      (.Open torrent index create_if_missing (.displacing file rest))
  | .Returned _ => world

def step_flush (world : World) (call torrent : Nat) (indices : Option (Vec Nat)) (ok : Bool)
    (storage : TorrentStorage) :
    FlushPhase → World
  | .Gathering =>
    world.set_call call
      (.Flush torrent indices (.Flushing (storage.cache.collect_writable_handles world.strong_count indices)))
  | .Flushing [] => world.set_call call (.Flush torrent indices .Marking)
  | .Flushing (_ :: files) => world.set_call call (if ok then .Flush torrent indices (.Flushing files) else .Ended)
  | .Marking =>
    (world.set_cache torrent (storage.cache.mark_retired_flushed indices)).set_call call
      (.Flush torrent indices .Pruning)
  | .Pruning =>
    (world.set_cache torrent (storage.cache.prune_released_retired world.strong_count)).set_call call .Ended

/-- What an event does before files without references are dropped. A call is dropped at any phase but between the two
operations on the counter. -/
def act (world : World) : Event → World
  | .Open torrent index create_if_missing =>
    { world with calls := world.calls ++ [.Open torrent index create_if_missing .Looking] }
  | .Flush torrent indices => { world with calls := world.calls ++ [.Flush torrent indices .Gathering] }
  | .Step call ok =>
    match world.calls[call]? with
    | some (.Open torrent index create_if_missing phase) =>
      match world.storages[torrent]? with
      | some storage => world.step_open call torrent index create_if_missing ok storage phase
      | none => world
    | some (.Flush torrent indices phase) =>
      match world.storages[torrent]? with
      | some storage => world.step_flush call torrent indices ok storage phase
      | none => world
    | _ => world
  | .Cancel call =>
    match world.calls[call]? with
    | some (.Open _ _ _ (.Overshot _)) => world
    | some _ => world.set_call call .Ended
    | none => world
  | .Clear torrent => world.set_cache torrent .empty

/-- The files that have lost their last reference are dropped, and give their slots back. -/
def step (world : World) (event : Event) : World :=
  let next := world.act event
  { next with budget := { next.budget with live := next.budget.live - (world.files \ next.files).card } }

def after (world : World) (events : List Event) : World := events.foldl step world

theorem getElem?_set_cache {world : World} {torrent other : Nat} {cache : WritableHandleCache} :
    (world.set_cache torrent cache).storages[other]? =
      if torrent = other then (world.storages[other]?).map fun storage => { storage with cache }
      else world.storages[other]? := by
  unfold set_cache
  rw [List.getElem?_modify]
  split <;> simp

end World

end swarmotter.storage.handle_cache

import Swarmotter.Storage.HandleFiles

namespace swarmotter.storage.handle_cache

/-! The counter of the budget: the files that exist, the slots of calls, and the slots that were lost. -/

/-- The files are among some given ones. -/
def within (among : BudgetedWritableFile → Prop) : Filing where
  handle _ _ handle := among handle.file
  file _ _ file := among file
  file_of_handle h := h

variable {phase : OpenPhase} {file : BudgetedWritableFile}

section
variable {among : BudgetedWritableFile → Prop}

theorem WritableHandleCache.filed_within_iff {torrent : Nat} {cache : WritableHandleCache} :
    cache.Filed (within among) torrent ↔ ∀ file ∈ cache.refs, among file := by
  constructor
  · intro h file hfile
    rcases List.mem_append.mp hfile with hmem | hmem
    · obtain ⟨entry, hentry, rfl⟩ := List.mem_map.mp hmem
      exact h.handles _ _ (AList.mem_lookup_iff.mpr hentry)
    · obtain ⟨entry, hentry, rfl⟩ := List.mem_map.mp hmem
      exact h.retired entry hentry
  · intro h
    refine ⟨fun index handle hlookup => ?_, fun entry hentry => ?_⟩
    · have hentry := AList.mem_lookup_iff.mp hlookup
      exact h _ (List.mem_append_left _ (List.mem_map_of_mem (f := fun entry => entry.2.file) hentry))
    · exact h _ (List.mem_append_right _ (List.mem_map_of_mem (f := fun entry => entry.2.file) hentry))

theorem OpenPhase.filed_within_iff {torrent index : Nat} :
    phase.Filed (within among) torrent index ↔ ∀ file ∈ phase.refs, among file := by
  cases phase with
  | Evicting other rest eviction => cases eviction <;> simp [Filed, Eviction.Filed, refs, Eviction.refs, within]
  | Displacing file evicted rest | Restoring file evicted rest | Retiring file evicted rest =>
    simp only [Filed, refs, within, List.forall_mem_cons, List.forall_mem_map]
  | _ => simp [Filed, refs, within]

theorem Call.Filed.of_mem_refs {call : Call} (h : call.Filed (within among)) : ∀ file ∈ call.refs, among file := by
  cases call with
  | Open torrent index create_if_missing phase => exact OpenPhase.filed_within_iff.mp h
  | Flush torrent indices phase =>
    cases phase with
    | Flushing files => exact fun file hfile => (h file hfile).elim fun _ hfiled => hfiled.2
    | _ => exact nofun
  | Ended => exact nofun

theorem Call.Filed.within {p : Filing} {call : Call} (h : call.Filed p) (hrefs : ∀ file ∈ call.refs, among file) :
    call.Filed (within among) := by
  cases call with
  | Open torrent index create_if_missing phase => exact OpenPhase.filed_within_iff.mpr hrefs
  | Flush torrent indices phase =>
    cases phase with
    | Flushing files =>
      exact fun file hfile => (h file hfile).elim fun index hfiled => ⟨index, hfiled.1, hrefs file hfile⟩
    | _ => trivial
  | Ended => trivial

namespace World

variable {p : Filing} {world : World}

theorem mem_refs_iff : file ∈ world.refs ↔
    (∃ storage ∈ world.storages, file ∈ storage.cache.refs) ∨ ∃ call ∈ world.calls, file ∈ call.refs := by
  rw [refs, List.mem_append, List.mem_flatMap, List.mem_flatMap]

theorem Filed.of_mem_refs (h : world.Filed (within among)) : ∀ file ∈ world.refs, among file := by
  intro file hfile
  rcases mem_refs_iff.mp hfile with ⟨storage, hstorage, hmem⟩ | ⟨call, hcall, hmem⟩
  · obtain ⟨torrent, hget⟩ := List.mem_iff_getElem?.mp hstorage
    exact WritableHandleCache.filed_within_iff.mp (h.storages torrent storage hget) file hmem
  · exact (h.calls call hcall).of_mem_refs file hmem

theorem Filed.within (h : world.Filed p) (hrefs : ∀ file ∈ world.refs, among file) : world.Filed (within among) := by
  refine ⟨fun torrent storage hget => ?_, fun call hcall => ?_⟩
  · exact WritableHandleCache.filed_within_iff.mpr fun file hfile =>
      hrefs file (mem_refs_iff.mpr (.inl ⟨storage, List.mem_of_getElem? hget, hfile⟩))
  · exact (h.calls call hcall).within fun file hfile => hrefs file (mem_refs_iff.mpr (.inr ⟨call, hcall, hfile⟩))

/-- The file that an event opens. -/
def opens (world : World) : Event → Option BudgetedWritableFile
  | .Step call true =>
    match world.calls[call]? with
    | some (.Open torrent index create_if_missing .Opening) =>
      (world.storages[torrent]?).map fun storage =>
        (world.opened torrent index create_if_missing storage.handle_budget).file
    | _ => none
  | _ => none

/-- Nothing is referred to that was not before, but for the file that is opened. -/
theorem filed_act (h : world.Filed p) (event : Event) :
    (world.act event).Filed (handle_cache.within fun file => file ∈ world.refs ∨ world.opens event = some file) := by
  have hbefore : world.Filed (handle_cache.within fun file => file ∈ world.refs ∨ world.opens event = some file) :=
    h.within fun file hfile => .inl hfile
  refine hbefore.act ?_
  cases event with
  | Step call ok =>
    intro torrent index create_if_missing phase storage hcall
    refine ⟨?_, ?_⟩
    · rintro rfl rfl hstorage
      cases create_if_missing <;> exact .inr (by simp [opens, hcall, hstorage])
    · rintro other rest eviction rfl -
      cases eviction with
      | Removing index => exact fun _ _ _ hhandle => hhandle
      | _ => trivial
  | _ => trivial

end World

end

/-! Slots. -/

/-- The phases from the registration with the budget on, until there is a slot. -/
def OpenPhase.acquires : OpenPhase → Bool
  | .Registering | .Acquiring | .Overshot _ | .Collecting | .Evicting .. | .Retrying _ | .Sleeping => true
  | _ => false

/-- The phases in which a call is not counted. -/
def OpenPhase.quiet : OpenPhase → Bool
  | .Opening | .Overshot _ => false
  | _ => true

/-- Only a call that is to create a file under the budget asks for a slot. -/
def Call.Entitled (has_budget : Nat → Bool) : Call → Prop
  | .Open torrent _ create_if_missing phase =>
    phase.acquires = true → create_if_missing = true ∧ has_budget torrent = true
  | _ => True

/-- The call is not counted. -/
def Call.Quiet (has_budget : Nat → Bool) (call : Call) : Prop :=
  call.reserves has_budget = false ∧ call.overshoots = false

namespace World

/-- The calls that hold a slot for a file that they are opening. -/
def reserved (world : World) : Nat := world.calls.countP (Call.reserves world.has_budget)

def overshot (world : World) : Nat := world.calls.countP Call.overshoots

/-- No call asks for a slot that it has no use for. -/
def Entitled (world : World) : Prop := ∀ call ∈ world.calls, call.Entitled world.has_budget

/-- What an event does to the counter: `made` of the slots become files, and `lost` of them are lost. -/
structure Balanced (world next : World) (made lost : Nat) : Prop where
  has_budget : next.has_budget = world.has_budget
  max : next.budget.max_writable_handles = world.budget.max_writable_handles
  live : next.budget.live + world.reserved + world.overshot =
    world.budget.live + next.reserved + next.overshot + made + lost
  bound : next.reserved + made + lost ≤ world.reserved ∨
    world.budget.live < world.budget.max_writable_handles ∧ next.reserved = world.reserved + 1 ∧ made = 0 ∧ lost = 0
  entitled : ∀ call ∈ next.calls, call.Entitled world.has_budget

/-- The calls and the limit are the same. -/
structure Same (world base : World) : Prop where
  calls : base.calls = world.calls
  has_budget : base.has_budget = world.has_budget
  max : base.budget.max_writable_handles = world.budget.max_writable_handles

section
variable {world base : World} {call torrent index : Nat} {create_if_missing ok : Bool} {storage : TorrentStorage}
  {old new : Call}

theorem Same.refl (world : World) : Same world world := ⟨rfl, rfl, rfl⟩

theorem has_budget_set_cache (world : World) (torrent : Nat) (cache : WritableHandleCache) :
    (world.set_cache torrent cache).has_budget = world.has_budget := by
  funext other
  rw [has_budget, has_budget, getElem?_set_cache]
  split
  · cases world.storages[other]? <;> rfl
  · rfl

theorem Same.set_cache (world : World) (torrent : Nat) (cache : WritableHandleCache) :
    Same world (world.set_cache torrent cache) :=
  ⟨rfl, has_budget_set_cache world torrent cache, rfl⟩

theorem countP_set {α : Type} {xs : List α} {i : Nat} {old : α} (hget : xs[i]? = some old) (p : α → Bool) (new : α) :
    (xs.set i new).countP p + (p old).toNat = xs.countP p + (p new).toNat := by
  obtain ⟨hi, rfl⟩ := List.getElem?_eq_some_iff.mp hget
  have hpos : p xs[i] = true → 0 < xs.countP p := fun hp => List.countP_pos_iff.mpr ⟨xs[i], List.getElem_mem hi, hp⟩
  rw [List.countP_set hi]
  cases hold : p xs[i] with
  | false => cases p new <;> simp
  | true =>
    have := hpos hold
    cases p new <;> simp <;> omega

/-- A call goes on. -/
theorem reserved_set_call (hsame : Same world base) (hcall : world.calls[call]? = some old) :
    (base.set_call call new).reserved + (old.reserves world.has_budget).toNat =
      world.reserved + (new.reserves world.has_budget).toNat := by
  have hcount := countP_set hcall (Call.reserves world.has_budget) new
  rw [← hsame.calls] at hcount
  have hbudget : (base.set_call call new).has_budget = world.has_budget := hsame.has_budget
  rw [reserved, reserved, hbudget, ← hsame.calls]
  exact hcount

theorem overshot_set_call (hsame : Same world base) (hcall : world.calls[call]? = some old) :
    (base.set_call call new).overshot + old.overshoots.toNat = world.overshot + new.overshoots.toNat := by
  have hcount := countP_set hcall Call.overshoots new
  rw [← hsame.calls] at hcount
  rw [overshot, overshot, ← hsame.calls]
  exact hcount

theorem entitled_set_call (hsame : Same world base) (hentitled : world.Entitled)
    (hnew : new.Entitled world.has_budget) :
    ∀ other ∈ (base.set_call call new).calls, other.Entitled world.has_budget := by
  intro other hother
  rcases List.mem_or_eq_of_mem_set hother with hmem | rfl
  · exact hentitled other (hsame.calls ▸ hmem)
  · exact hnew

theorem Balanced.of_call {made lost : Nat} (hsame : Same world base) (hcall : world.calls[call]? = some old)
    (hentitled : world.Entitled) (hnew : new.Entitled world.has_budget)
    (hlive : base.budget.live + (old.reserves world.has_budget).toNat + old.overshoots.toNat =
      world.budget.live + (new.reserves world.has_budget).toNat + new.overshoots.toNat + made + lost)
    (hbound : (new.reserves world.has_budget).toNat + made + lost ≤ (old.reserves world.has_budget).toNat ∨
      world.budget.live < world.budget.max_writable_handles ∧
        (new.reserves world.has_budget).toNat = (old.reserves world.has_budget).toNat + 1 ∧ made = 0 ∧ lost = 0) :
    Balanced world (base.set_call call new) made lost := by
  have hreserved := @reserved_set_call world base call old new hsame hcall
  have hovershot := @overshot_set_call world base call old new hsame hcall
  have hbudget : (base.set_call call new).budget.live = base.budget.live := rfl
  refine ⟨hsame.has_budget, hsame.max, ?_, ?_, entitled_set_call hsame hentitled hnew⟩
  · omega
  · omega

/-- A call that is not counted goes on, and is not counted then. -/
theorem Balanced.quiet (hentitled : world.Entitled) (hcall : world.calls[call]? = some old)
    (hold : old.Quiet world.has_budget) (hsame : Same world base) (hlive : base.budget.live = world.budget.live)
    (hnew : new.Quiet world.has_budget) (hnew_entitled : new.Entitled world.has_budget) :
    Balanced world (base.set_call call new) 0 0 := by
  apply Balanced.of_call hsame hcall hentitled hnew_entitled
  · rw [hold.1, hold.2, hnew.1, hnew.2, hlive]
    rfl
  · rw [hold.1, hnew.1]
    exact .inl (Nat.le_refl _)

theorem Balanced.same (hsame : Same world base) (hlive : base.budget.live = world.budget.live)
    (hentitled : world.Entitled) : Balanced world base 0 0 := by
  have hreserved : base.reserved = world.reserved := by rw [reserved, reserved, hsame.calls, hsame.has_budget]
  have hovershot : base.overshot = world.overshot := by rw [overshot, overshot, hsame.calls]
  refine ⟨hsame.has_budget, hsame.max, by omega, .inl (by omega), ?_⟩
  rw [hsame.calls]
  exact hentitled

theorem reserves_opening (has_budget : Nat → Bool) :
    (Call.Open torrent index create_if_missing .Opening).reserves has_budget =
      (create_if_missing && has_budget torrent) := by
  cases create_if_missing <;> rfl

theorem quiet_open (has_budget : Nat → Bool) (h : phase.quiet = true) :
    (Call.Open torrent index create_if_missing phase).Quiet has_budget := by
  cases phase with
  | Opening | Overshot rest => exact nomatch h
  | _ => exact ⟨by cases create_if_missing <;> rfl, rfl⟩

theorem has_budget_of_storage (hstorage : world.storages[torrent]? = some storage) :
    world.has_budget torrent = storage.handle_budget := by
  rw [has_budget, hstorage]
  rfl

theorem quiet_resolved (hstorage : world.storages[torrent]? = some storage) :
    (resolved storage torrent index create_if_missing ok).Quiet world.has_budget := by
  unfold resolved
  split
  · split
    · exact quiet_open _ rfl
    · rename_i hno
      refine ⟨?_, rfl⟩
      rw [reserves_opening, has_budget_of_storage hstorage]
      exact Bool.eq_false_iff.mpr hno
  · exact ⟨rfl, rfl⟩

theorem entitled_resolved (hstorage : world.storages[torrent]? = some storage) :
    (resolved storage torrent index create_if_missing ok).Entitled world.has_budget := by
  unfold resolved
  split
  · split
    · rename_i hyes
      intro _
      rw [has_budget_of_storage hstorage]
      exact Bool.and_eq_true_iff.mp hyes
    · exact nofun
  · trivial

theorem quiet_evict_from (rest : Vec Nat) : (OpenPhase.evict_from rest).quiet = true := by cases rest <;> rfl

theorem quiet_displacing (file : BudgetedWritableFile) (evicted : Vec (Nat × CachedFileHandle)) :
    (OpenPhase.displacing file evicted).quiet = true ∧ (OpenPhase.displacing file evicted).acquires = false := by
  cases evicted <;> exact ⟨rfl, rfl⟩

/-- A call counts itself. There is a slot for it if there was room. -/
theorem balanced_count_in (hentitled : world.Entitled)
    (hcall : world.calls[call]? = some old) (hold : old.Quiet world.has_budget)
    (hbudget : create_if_missing = true ∧ world.has_budget torrent = true) (rest : Option (Vec Nat)) :
    Balanced world (world.count_in call torrent index create_if_missing rest) 0 0 := by
  have hsame : Same world { world with budget := world.budget.fetch_add.2 } := ⟨rfl, rfl, rfl⟩
  obtain ⟨rfl, hbudget⟩ := hbudget
  dsimp only [count_in]
  by_cases hroom : world.budget.live < world.budget.max_writable_handles
  · have hyes : world.budget.fetch_add.1 = true := decide_eq_true hroom
    rw [hyes, if_pos rfl]
    refine .of_call hsame hcall hentitled nofun ?_ ?_
    · rw [hold.1, hold.2, reserves_opening, hbudget]
      rfl
    · rw [hold.1, reserves_opening, hbudget]
      exact .inr ⟨hroom, rfl, rfl, rfl⟩
  · have hno : world.budget.fetch_add.1 = false := decide_eq_false hroom
    rw [hno, if_neg (by decide)]
    refine .of_call hsame hcall hentitled (fun _ => ⟨rfl, hbudget⟩) ?_ ?_
    · rw [hold.1, hold.2]
      rfl
    · rw [hold.1]
      exact .inl (Nat.le_refl _)

/-- The counter after a step of `open_file_handle`. -/
theorem balanced_step_open (hentitled : world.Entitled) (hlive : world.reserved + world.overshot ≤ world.budget.live)
    (hcall : world.calls[call]? = some (.Open torrent index create_if_missing phase))
    (hstorage : world.storages[torrent]? = some storage) :
    Balanced world (world.step_open call torrent index create_if_missing ok storage phase)
      (if phase = .Opening ∧ ok = true then (create_if_missing && storage.handle_budget).toNat else 0) 0 := by
  have hentitled_call := hentitled _ (List.mem_of_getElem? hcall)
  have hbudget := has_budget_of_storage hstorage
  -- a phase that is not counted follows on another one, and asks for a slot only if that did
  have hgoto (hquiet : phase.quiet = true) {base : World} (hsame : Same world base)
      (hlive : base.budget.live = world.budget.live) {next : OpenPhase} (hnext : next.quiet = true)
      (hacquires : next.acquires = true → phase.acquires = true) :
      Balanced world (base.set_call call (.Open torrent index create_if_missing next)) 0 0 :=
    .quiet hentitled hcall (quiet_open _ hquiet) hsame hlive (quiet_open _ hnext) fun h => hentitled_call (hacquires h)
  have hresolved (hquiet : phase.quiet = true) {base : World} (hsame : Same world base)
      (hlive : base.budget.live = world.budget.live) :
      Balanced world (base.set_call call (resolved storage torrent index create_if_missing ok)) 0 0 :=
    .quiet hentitled hcall (quiet_open _ hquiet) hsame hlive (quiet_resolved hstorage) (entitled_resolved hstorage)
  have hended (hquiet : phase.quiet = true) {base : World} (hsame : Same world base)
      (hlive : base.budget.live = world.budget.live) : Balanced world (base.set_call call .Ended) 0 0 :=
    .quiet hentitled hcall (quiet_open _ hquiet) hsame hlive ⟨rfl, rfl⟩ trivial
  cases phase with
  | Looking =>
    change Balanced world _ 0 0
    dsimp only [World.step_open]
    repeat' split
    all_goals first
      | exact hgoto rfl (.refl world) rfl rfl nofun
      | exact hresolved rfl (.refl world) rfl
  | Waiting =>
    change Balanced world _ 0 0
    dsimp only [World.step_open]
    repeat' split
    · exact hresolved rfl (.set_cache world torrent _) rfl
    · exact hgoto rfl (.set_cache world torrent _) rfl rfl nofun
    · exact .same (.set_cache world torrent _) rfl hentitled
  | FlushingRetired file =>
    dsimp only [World.step_open]
    split
    · exact hgoto rfl (.refl world) rfl rfl nofun
    · exact hended rfl (.refl world) rfl
  | MarkingFlushed file => exact hgoto rfl (.set_cache world torrent _) rfl rfl nofun
  | Registering =>
    have hregister : (world.budget.register torrent).max_writable_handles = world.budget.max_writable_handles ∧
        (world.budget.register torrent).live = world.budget.live := by
      dsimp only [StorageHandleBudget.register]
      split <;> exact ⟨rfl, rfl⟩
    have hsame : Same world { world with budget := world.budget.register torrent } := ⟨rfl, rfl, hregister.1⟩
    exact hgoto rfl hsame hregister.2 rfl fun _ => rfl
  | Acquiring => exact balanced_count_in hentitled hcall (quiet_open _ rfl) (hentitled_call rfl) none
  | Overshot rest =>
    have hpos : 0 < world.overshot := List.countP_pos_iff.mpr ⟨_, List.mem_of_getElem? hcall, rfl⟩
    have hnew : (Call.Open torrent index create_if_missing
        (rest.elim .Collecting .evict_from)).Quiet world.has_budget := by
      cases rest with
      | none => exact quiet_open _ rfl
      | some rest => exact quiet_open _ (quiet_evict_from rest)
    have hold : (Call.Open torrent index create_if_missing (.Overshot rest)).reserves world.has_budget = false := by
      cases create_if_missing <;> rfl
    have hsame : Same world { world with budget := world.budget.release } := ⟨rfl, rfl, rfl⟩
    refine .of_call hsame hcall hentitled (fun _ => hentitled_call rfl) ?_ ?_
    · rw [hold, hnew.1, hnew.2]
      exact Nat.sub_add_cancel (by omega)
    · rw [hold, hnew.1]
      exact .inl le_rfl
  | Collecting => exact hgoto rfl (.refl world) rfl (quiet_evict_from _) fun _ => rfl
  | Evicting other rest eviction =>
    dsimp only [World.step_open]
    split
    · refine hgoto rfl (.set_cache world other _) rfl ?_ fun _ => rfl
      cases (eviction.step _ world.strong_count ok).2 <;> rfl
    · exact hgoto rfl (.refl world) rfl rfl fun _ => rfl
  | Retrying rest => exact balanced_count_in hentitled hcall (quiet_open _ rfl) (hentitled_call rfl) (some rest)
  | Sleeping => exact hgoto rfl (.refl world) rfl rfl fun _ => rfl
  | Opening =>
    have hold := @reserves_opening torrent index create_if_missing world.has_budget
    rw [hbudget] at hold
    cases ok with
    | true =>
      rw [if_pos ⟨rfl, rfl⟩]
      have hsame : Same world { world with use_tick := world.use_tick + 1 } := ⟨rfl, rfl, rfl⟩
      refine .of_call hsame hcall hentitled ?_ ?_ ?_
      all_goals cases create_if_missing
      all_goals simp [Call.Entitled, OpenPhase.acquires, Call.reserves, Call.overshoots, hbudget]
    | false =>
      rw [if_neg (by simp)]
      dsimp only [World.step_open]
      rw [if_neg (by simp)]
      cases hheld : create_if_missing && storage.handle_budget with
      | false =>
        rw [hheld] at hold
        exact .quiet hentitled hcall ⟨hold, rfl⟩ ⟨rfl, rfl, rfl⟩ rfl ⟨rfl, rfl⟩ trivial
      | true =>
        rw [hheld] at hold
        have hpos : 0 < world.reserved := List.countP_pos_iff.mpr ⟨_, List.mem_of_getElem? hcall, hold⟩
        refine .of_call ⟨rfl, rfl, rfl⟩ hcall hentitled trivial ?_ ?_
        · rw [hold]
          exact Nat.sub_add_cancel (by omega)
        · exact .inl (Nat.zero_le _)
  | Inserting handle =>
    dsimp only [World.step_open]
    split
    · exact hgoto rfl (.refl world) rfl rfl nofun
    · exact hgoto rfl (.set_cache world torrent _) rfl (quiet_displacing _ _).1 (by simp [quiet_displacing])
  | Displacing file evicted rest =>
    change Balanced world _ 0 0
    dsimp only [World.step_open]
    repeat' split
    · exact hgoto rfl (.refl world) rfl rfl nofun
    · exact hgoto rfl (.refl world) rfl (quiet_displacing _ _).1 (by simp [quiet_displacing])
    · exact hgoto rfl (.refl world) rfl rfl nofun
  | Restoring file evicted rest => exact hended rfl (.set_cache world torrent _) rfl
  | Retiring file evicted rest =>
    exact hgoto rfl (.set_cache world torrent _) rfl (quiet_displacing _ _).1 (by simp [quiet_displacing])
  | Returned file => exact .same (.refl world) rfl hentitled

theorem balanced_step_flush {indices : Option (Vec Nat)} {phase : FlushPhase} (hentitled : world.Entitled)
    (hcall : world.calls[call]? = some (.Flush torrent indices phase)) :
    Balanced world (world.step_flush call torrent indices ok storage phase) 0 0 := by
  have hquiet {phase : FlushPhase} : (Call.Flush torrent indices phase).Quiet world.has_budget := ⟨rfl, rfl⟩
  have hstays {base : World} {new : Call} := @Balanced.quiet world base call _ new hentitled hcall hquiet
  cases phase with
  | Gathering => exact hstays (.refl world) rfl hquiet trivial
  | Flushing files =>
    cases files with
    | nil => exact hstays (.refl world) rfl hquiet trivial
    | cons file files =>
      dsimp only [World.step_flush]
      split
      · exact hstays (.refl world) rfl hquiet trivial
      · exact hstays (.refl world) rfl ⟨rfl, rfl⟩ trivial
  | Marking => exact hstays (.set_cache world torrent _) rfl hquiet trivial
  | Pruning => exact hstays (.set_cache world torrent _) rfl ⟨rfl, rfl⟩ trivial

/-- A slot is lost when a call is dropped while it opens its file. -/
def loses (world : World) : Event → Bool
  | .Cancel call => (world.calls[call]?).any (Call.reserves world.has_budget)
  | _ => false

/-- The slots that are lost in the course of the events. -/
def lost : World → List Event → Nat
  | _, [] => 0
  | world, event :: events => (world.loses event).toNat + (world.step event).lost events

/-- The budgeted files that an event makes. -/
def made (world : World) (event : Event) : Nat := (world.opens event).elim 0 (·.budget.toNat)

theorem balanced_push (hentitled : world.Entitled)
    (hnew : new.Quiet world.has_budget) (hnew_entitled : new.Entitled world.has_budget) :
    Balanced world { world with calls := world.calls ++ [new] } 0 0 := by
  have hreserved : World.reserved { world with calls := world.calls ++ [new] } = world.reserved := by
    have hbudget : World.has_budget { world with calls := world.calls ++ [new] } = world.has_budget := rfl
    rw [reserved, hbudget, List.countP_append, List.countP_singleton, hnew.1]
    rfl
  have hovershot : World.overshot { world with calls := world.calls ++ [new] } = world.overshot := by
    rw [overshot, List.countP_append, List.countP_singleton, hnew.2]
    rfl
  refine ⟨rfl, rfl, by dsimp only; omega, .inl (by omega), ?_⟩
  exact List.forall_mem_append.mpr ⟨hentitled, List.forall_mem_singleton.mpr hnew_entitled⟩

/-- A call is dropped. -/
theorem balanced_cancel (hentitled : world.Entitled)
    (hcall : world.calls[call]? = some old) (hold : old.overshoots = false) :
    Balanced world (world.set_call call .Ended) 0 (old.reserves world.has_budget).toNat := by
  have hended : (Call.Ended.reserves world.has_budget).toNat = 0 := rfl
  refine .of_call (.refl world) hcall hentitled trivial ?_ ?_
  · rw [hold, hended]
    rfl
  · rw [hended]
    exact .inl (by omega)

theorem balanced_act (hentitled : world.Entitled)
    (hlive : world.reserved + world.overshot ≤ world.budget.live) (event : Event) :
    Balanced world (world.act event) (world.made event) (world.loses event).toNat := by
  cases event with
  | Open torrent index create_if_missing => exact balanced_push hentitled (quiet_open _ rfl) nofun
  | Flush torrent indices => exact balanced_push hentitled ⟨rfl, rfl⟩ trivial
  | Step call ok =>
    dsimp only [World.act, loses]
    cases hcall : world.calls[call]? with
    | none =>
      have hmade : world.made (.Step call ok) = 0 := by cases ok <;> simp [made, opens, hcall]
      rw [hmade]
      exact .same (.refl world) rfl hentitled
    | some running =>
      cases running with
      | Ended =>
        have hmade : world.made (.Step call ok) = 0 := by cases ok <;> simp [made, opens, hcall]
        rw [hmade]
        exact .same (.refl world) rfl hentitled
      | Flush torrent indices phase =>
        have hmade : world.made (.Step call ok) = 0 := by cases ok <;> simp [made, opens, hcall]
        rw [hmade]
        dsimp only
        split
        · exact balanced_step_flush hentitled hcall
        · exact .same (.refl world) rfl hentitled
      | Open torrent index create_if_missing phase =>
        dsimp only
        cases hstorage : world.storages[torrent]? with
        | none =>
          have hmade : world.made (.Step call ok) = 0 := by
            cases ok <;> cases phase <;> simp [made, opens, hcall, hstorage]
          rw [hmade]
          exact .same (.refl world) rfl hentitled
        | some storage =>
          have hmade : world.made (.Step call ok) =
              if phase = .Opening ∧ ok = true then (create_if_missing && storage.handle_budget).toNat else 0 := by
            cases ok <;> cases phase <;> simp [made, opens, hcall, hstorage, opened]
          rw [hmade]
          exact balanced_step_open hentitled hlive hcall hstorage
  | Cancel call =>
    dsimp only [World.act, loses, made, opens]
    cases hcall : world.calls[call]? with
    | none => exact .same (.refl world) rfl hentitled
    | some running =>
      dsimp only [Option.any_some]
      split
      · rename_i torrent index create_if_missing rest heq
        cases heq
        have hkept :
            (Call.Open torrent index create_if_missing (.Overshot rest)).reserves world.has_budget = false := by
          cases create_if_missing <;> rfl
        rw [hkept]
        exact .same (.refl world) rfl hentitled
      · rename_i other hother heq
        cases heq
        refine balanced_cancel hentitled hcall ?_
        unfold Call.overshoots
        split
        · rename_i torrent index create_if_missing rest
          exact absurd rfl (hother torrent index create_if_missing rest)
        · rfl
      · rename_i heq
        exact nomatch heq
  | Clear torrent => exact .same (.set_cache world torrent _) rfl hentitled

/-! Files. -/

theorem use_tick_step_open (phase : OpenPhase) :
    (world.step_open call torrent index create_if_missing ok storage phase).use_tick =
      world.use_tick + if phase = .Opening ∧ ok = true then 1 else 0 := by
  cases phase with
  | Opening => cases ok <;> rfl
  | Looking =>
    dsimp only [World.step_open]
    repeat' split
    all_goals first | rfl | simp_all
  | Waiting | FlushingRetired file | Evicting other rest eviction | Inserting handle | Displacing file evicted rest =>
    dsimp only [World.step_open]
    repeat' split
    all_goals first | rfl | simp_all
  | _ => rfl

theorem opens_eq_some {event : Event} (h : world.opens event = some file) :
    ∃ call torrent index create_if_missing storage, event = .Step call true ∧
      world.calls[call]? = some (.Open torrent index create_if_missing .Opening) ∧
      world.storages[torrent]? = some storage ∧
      file = (world.opened torrent index create_if_missing storage.handle_budget).file := by
  unfold opens at h
  split at h
  · split at h
    · rename_i call _ torrent index create_if_missing hcall
      obtain ⟨storage, hstorage, rfl⟩ := Option.map_eq_some_iff.mp h
      exact ⟨call, torrent, index, create_if_missing, storage, rfl, hcall, hstorage, rfl⟩
    · exact nomatch h
  · exact nomatch h

/-- The file that is opened is a new one, and the call has it. -/
theorem opens_new {event : Event} (h : world.opens event = some file) :
    file.id = world.use_tick ∧ file ∈ (world.act event).refs := by
  obtain ⟨call, torrent, index, create_if_missing, storage, rfl, hcall, hstorage, rfl⟩ := opens_eq_some h
  have hact : world.act (.Step call true) =
      world.step_open call torrent index create_if_missing true storage .Opening := by
    simp only [act, hcall, hstorage]
  refine ⟨rfl, mem_refs_iff.mpr (.inr ?_)⟩
  rw [hact]
  have hlt := (List.getElem?_eq_some_iff.mp hcall).1
  refine ⟨_, List.mem_set hlt _, ?_⟩
  cases create_if_missing <;> exact List.mem_singleton.mpr rfl

theorem use_tick_step_flush {indices : Option (Vec Nat)} (phase : FlushPhase) :
    (world.step_flush call torrent indices ok storage phase).use_tick = world.use_tick := by
  cases phase with
  | Flushing files => cases files <;> rfl
  | _ => rfl

/-- Every open takes a tick. -/
theorem use_tick_act (world : World) (event : Event) :
    (world.act event).use_tick = world.use_tick + (world.opens event).isSome.toNat := by
  cases event with
  | Step call ok =>
    dsimp only [World.act]
    cases hcall : world.calls[call]? with
    | none => cases ok <;> simp [opens, hcall]
    | some running =>
      cases running with
      | Ended => cases ok <;> simp [opens, hcall]
      | Flush torrent indices phase =>
        have hopens : world.opens (.Step call ok) = none := by cases ok <;> simp [opens, hcall]
        rw [hopens]
        dsimp only
        split
        · exact use_tick_step_flush phase
        · rfl
      | Open torrent index create_if_missing phase =>
        dsimp only
        cases hstorage : world.storages[torrent]? with
        | none => cases ok <;> cases phase <;> simp [opens, hcall, hstorage]
        | some storage =>
          dsimp only
          rw [use_tick_step_open]
          cases ok <;> cases phase <;> simp [opens, hcall, hstorage]
  | Cancel call =>
    dsimp only [World.act]
    split <;> rfl
  | _ => rfl

theorem mem_files_iff : file ∈ world.files ↔ file ∈ world.refs ∧ file.budget = true := by
  rw [files, Finset.mem_filter, List.mem_toFinset]

/-- The slots of all kinds add up to the counter, and those that are not given up at once are no more than the limit. -/
structure Counted (lost : Nat) (world : World) : Prop where
  live : world.budget.live = world.files.card + world.reserved + world.overshot + lost
  bound : world.files.card + world.reserved + lost ≤ world.budget.max_writable_handles
  entitled : ∀ call ∈ world.calls, call.Entitled world.has_budget
  filed : world.Filed (within fun file => file.id < world.use_tick)

/-- The files that are new after an event. -/
theorem card_new_files (h : world.Filed (within fun file => file.id < world.use_tick)) (event : Event) :
    ((world.act event).files \ world.files).card = world.made event := by
  have hnew {file : BudgetedWritableFile} (hfile : file ∈ (world.act event).files \ world.files) :
      world.opens event = some file ∧ file.budget = true := by
    obtain ⟨hafter, hbefore⟩ := Finset.mem_sdiff.mp hfile
    obtain ⟨hmem, hbudget⟩ := mem_files_iff.mp hafter
    refine ⟨((filed_act h event).of_mem_refs file hmem).resolve_left fun hold =>
      hbefore (mem_files_iff.mpr ⟨hold, hbudget⟩), hbudget⟩
  unfold made
  cases hopens : world.opens event with
  | none =>
    rw [Option.elim_none, Finset.card_eq_zero, Finset.eq_empty_iff_forall_notMem]
    intro file hfile
    have := (hnew hfile).1
    rw [hopens] at this
    exact nomatch this
  | some file =>
    obtain ⟨hid, hmem⟩ := opens_new hopens
    rw [Option.elim_some]
    cases hbudget : file.budget with
    | false =>
      refine Finset.card_eq_zero.mpr (Finset.eq_empty_iff_forall_notMem.mpr fun other hother => ?_)
      obtain ⟨hother, htrue⟩ := hnew hother
      rw [hopens] at hother
      cases hother
      rw [hbudget] at htrue
      exact nomatch htrue
    | true =>
      refine Finset.card_eq_one.mpr ⟨file, Finset.ext fun other => ?_⟩
      rw [Finset.mem_singleton]
      constructor
      · intro hother
        have := (hnew hother).1
        rw [hopens] at this
        exact (Option.some.inj this).symm
      · rintro rfl
        refine Finset.mem_sdiff.mpr ⟨mem_files_iff.mpr ⟨hmem, hbudget⟩, fun hbefore => ?_⟩
        have hlt : other.id < world.use_tick := h.of_mem_refs other (mem_files_iff.mp hbefore).1
        omega

theorem Counted.step {lost : Nat} (h : world.Counted lost) (event : Event) :
    (world.step event).Counted (lost + (world.loses event).toNat) := by
  have hlive := h.live
  have hbound := h.bound
  have hbalanced := balanced_act h.entitled (by omega) event
  have hnew := card_new_files h.filed event
  have hafter := Finset.card_sdiff_add_card_inter (world.act event).files world.files
  have hbefore := Finset.card_sdiff_add_card_inter world.files (world.act event).files
  rw [Finset.inter_comm] at hbefore
  have hact_live := hbalanced.live
  have hfresh : (world.act event).Filed (within fun file => file.id < (world.act event).use_tick) := by
    have hfiled := filed_act h.filed event
    refine hfiled.within fun file hfile => ?_
    rcases hfiled.of_mem_refs file hfile with hold | hopens
    · rw [use_tick_act]
      exact Nat.lt_add_right _ (h.filed.of_mem_refs file hold)
    · rw [use_tick_act, hopens, (opens_new hopens).1]
      exact Nat.lt_succ_self _
  refine ⟨?_, ?_, ?_, hfresh.with_budget _⟩
  · change (world.act event).budget.live - (world.files \ (world.act event).files).card =
      (world.act event).files.card + (world.act event).reserved + (world.act event).overshot + _
    omega
  · change (world.act event).files.card + (world.act event).reserved + _ ≤
      (world.act event).budget.max_writable_handles
    rw [hbalanced.max]
    rcases hbalanced.bound with hless | hroom <;> omega
  · change ∀ call ∈ (world.act event).calls, call.Entitled (world.act event).has_budget
    rw [hbalanced.has_budget]
    exact hbalanced.entitled

theorem Counted.after {lost : Nat} (h : world.Counted lost) (events : List Event) :
    (world.after events).Counted (lost + world.lost events) := by
  induction events generalizing world lost with
  | nil => exact h
  | cons event events ih =>
    have hrest := ih (h.step event)
    rw [World.lost, ← Nat.add_assoc]
    exact hrest

theorem refs_start (max_writable_handles : Nat) (handle_budgets : Vec Bool) :
    (start max_writable_handles handle_budgets).refs = [] := by
  have hcaches : (start max_writable_handles handle_budgets).storages.flatMap (·.cache.refs) = [] := by
    rw [List.flatMap_eq_nil_iff]
    intro storage hstorage
    obtain ⟨handle_budget, -, rfl⟩ := List.mem_map.mp hstorage
    rfl
  rw [refs, hcaches]
  rfl

theorem Counted.start (max_writable_handles : Nat) (handle_budgets : Vec Bool) :
    (start max_writable_handles handle_budgets).Counted 0 := by
  have hfiles : (World.start max_writable_handles handle_budgets).files = ∅ := by
    rw [files, refs_start]
    rfl
  refine ⟨?_, ?_, nofun, .start _ _ _⟩
  · rw [hfiles]
    rfl
  · rw [hfiles]
    exact Nat.zero_le _

theorem max_writable_handles_after (events : List Event) (h : ∃ lost, world.Counted lost) :
    (world.after events).budget.max_writable_handles = world.budget.max_writable_handles := by
  induction events generalizing world with
  | nil => rfl
  | cons event events ih =>
    obtain ⟨lost, hcounted⟩ := h
    have hlive := hcounted.live
    have hbalanced := balanced_act hcounted.entitled (by omega) event
    exact (ih ⟨_, hcounted.step event⟩).trans hbalanced.max

/-- No slot is lost if no call is dropped while it opens its file. -/
theorem lost_eq_zero_iff {events : List Event} : world.lost events = 0 ↔
    ∀ before event rest, events = before ++ event :: rest → (world.after before).loses event = false := by
  induction events generalizing world with
  | nil =>
    refine ⟨fun _ before event rest h => ?_, fun _ => rfl⟩
    cases before <;> exact nomatch h
  | cons event events ih =>
    rw [lost, Nat.add_eq_zero_iff, ih, Bool.toNat_eq_zero]
    constructor
    · rintro ⟨hevent, hevents⟩ before other rest heq
      cases before with
      | nil =>
        cases heq
        exact hevent
      | cons first before =>
        cases heq
        exact hevents before other rest rfl
    · intro h
      exact ⟨h [] event events rfl, fun before other rest heq => h (event :: before) other rest (by rw [heq]; rfl)⟩

theorem reserved_of_ended (h : ∀ call ∈ world.calls, call = .Ended) : world.reserved = 0 ∧ world.overshot = 0 := by
  refine ⟨List.countP_eq_zero.mpr fun call hcall => ?_, List.countP_eq_zero.mpr fun call hcall => ?_⟩
  · rw [h call hcall]
    exact nofun
  · rw [h call hcall]
    exact nofun

end

/-- There are never more budgeted files than the limit. When all of them have been dropped and no call is running, the
counter is back at zero exactly if no call was ever dropped while it opened its file. -/
theorem live_returns_iff (max_writable_handles : Nat) (handle_budgets : Vec Bool) (events : List Event) :
    let world := (start max_writable_handles handle_budgets).after events
    world.files.card ≤ max max_writable_handles 1 ∧
      (world.files = ∅ → (∀ call ∈ world.calls, call = .Ended) →
        (world.budget.live = 0 ↔ ∀ before event rest, events = before ++ event :: rest →
          ((start max_writable_handles handle_budgets).after before).loses event = false)) := by
  intro world
  have hstart := Counted.start max_writable_handles handle_budgets
  have hcounted : world.Counted _ := hstart.after events
  have hbound := hcounted.bound
  have hmax : world.budget.max_writable_handles = max max_writable_handles 1 :=
    max_writable_handles_after events ⟨0, hstart⟩
  refine ⟨by omega, fun hfiles hcalls => ?_⟩
  obtain ⟨hreserved, hovershot⟩ := reserved_of_ended hcalls
  have hlive := hcounted.live
  rw [hfiles, hreserved, hovershot, Finset.card_empty] at hlive
  rw [← lost_eq_zero_iff, hlive]
  omega

/-- A file is opened and dropped again. -/
theorem live_returns_iff_one_file :
    let events : List Event := .Open 0 0 true :: steps 0 6 ++ [.Cancel 0, .Clear 0]
    ((start 1 [true]).after events).budget.live = 0 := by
  intro events
  refine ((live_returns_iff 1 [true] events).2 (by decide +kernel) (by decide +kernel)).mpr (lost_eq_zero_iff.mp ?_)
  decide +kernel

/-- A call is dropped while it opens the file: its slot is lost. -/
theorem slot_lost :
    let world := (start 1 [true]).after (.Open 0 0 true :: steps 0 4 ++ [.Cancel 0])
    world.files = ∅ ∧ world.calls = [.Ended] ∧ world.budget.live = 1 ∧ world.budget.max_writable_handles = 1 := by
  decide +kernel

end World

end swarmotter.storage.handle_cache

import Swarmotter.Lib.Journal
import Swarmotter.Storage.Move

open swarmotter.meta trial journal

namespace swarmotter.storage

/-- The file lies under the other path, and nowhere else. -/
def Moved (source destination : Path) (before after : Entries) : Prop :=
  ∃ content, before (normalize_lexical_path source) = some (.File content) ∧
    before (normalize_lexical_path destination) = none ∧
    after = put (put before source none) destination (some (.File content))

section
variable {env : Environment} {phase : Phase} {before : Entries} {source destination path : Path} {can : Prop}
  {content : Bytes}

/-- A file can be moved: it is there, its place is free, and the calls of the phase work. -/
structure CanMove (env : Environment) (phase : Phase) (before : Entries) (source destination : Path) : Prop where
  works : env.Works phase
  file : ∃ content, before (normalize_lexical_path source) = some (.File content)
  free : before (normalize_lexical_path destination) = none

/-- A file and a free place have different paths. -/
theorem normalize_ne_of_free (hsource : before (normalize_lexical_path source) = some (.File content))
    (hfree : before (normalize_lexical_path destination) = none) :
    normalize_lexical_path source ≠ normalize_lexical_path destination := by
  intro hsame
  rw [hsame, hfree] at hsource
  cases hsource

/-- A new file that is removed again leaves nothing. -/
theorem remove_new_file_tries (hundo : env.Works .Undo) (hfree : before (normalize_lexical_path destination) = none) :
    Tries (Fs.Holds (put before destination (some (.File content)))) (remove_file env .Undo destination)
      (fun _ => Fs.Holds before) fun _ => False := by
  refine (remove_file_tries fun _ => ⟨hundo, content, put_self _ _ _⟩).weaken (fun _ fs hfs => ?_)
    fun _ hfs => hfs.2 trivial
  rw [Fs.Holds, hfs, put_put, put_eq_self hfree]

/-- Whatever of the copy fails, the new file is all that has changed. -/
theorem copy_content_tries (hcan : can → env.Works phase) :
    Tries (Fs.Holds before) (copy_content env phase destination content)
      (fun _ => Fs.Holds (put before destination (some (.File content))))
      (fun fs => (∃ part, fs.Holds (put before destination (some (.File part)))) ∧ ¬can) := by
  have hsignal (operation : Operation) (hneeded : operation.has_fallback = false) :
      Tries (Fs.Holds (put before destination (some (.File content))))
        (map_err IoError.core (signal env phase operation))
        (fun _ => Fs.Holds (put before destination (some (.File content))))
        (fun fs => (∃ part, fs.Holds (put before destination (some (.File part)))) ∧ ¬can) :=
    (signal_core_tries hneeded hcan).weaken (fun _ _ hfs => hfs) fun _ hfs => ⟨⟨content, hfs.1⟩, hfs.2⟩
  refine (write_all_tries hcan _ _).map_err.bind fun _ => ?_
  exact (hsignal _ rfl).bind fun _ => (hsignal _ rfl).bind fun _ => hsignal _ rfl

theorem remove_moved_source_tries (hundo : env.Works .Undo) (hcan : can → env.Works phase)
    (hsource : before (normalize_lexical_path source) = some (.File content))
    (hfree : before (normalize_lexical_path destination) = none) (message : IoError → Except IoError Unit → CoreError) :
    Tries (Fs.Holds (put before destination (some (.File content))))
      (remove_moved_source env phase source destination message)
      (fun _ fs => Moved source destination before fs.entries) (Fs.Kept before can) := by
  have hne := normalize_ne_of_free hsource hfree
  refine (remove_file_tries fun hyes => ⟨hcan hyes, content, (put_of_ne hne).trans hsource⟩).attempt_bind ?_ ?_
  · intro _
    refine .pure fun fs hfs => ⟨content, hsource, hfree, ?_⟩
    rw [hfs, put_comm hne.symm]
  · intro error
    refine .of_forall fun fs hkept => ((remove_new_file_tries hundo hfree).start hkept.1).attempt_bind ?_
      fun _ => .of_forall nofun
    exact fun _ => .lift_error fun _ hfs => ⟨hfs, hkept.2⟩

theorem copy_file_exclusive_tries (hundo : env.Works .Undo) (hcan : can → CanMove env phase before source destination)
    (link_error : IoError) :
    Tries (Fs.Holds before) (copy_file_exclusive env phase source destination link_error)
      (fun _ fs => Moved source destination before fs.entries) (Fs.Kept before can) := by
  have hworks (hyes : can) : env.Works phase := (hcan hyes).works
  refine (read_tries fun hyes => ⟨hworks hyes, (hcan hyes).file⟩).map_err.bind fun content => ?_
  refine .of_forall fun _ ⟨hfile, hopened⟩ => ((signal_core_tries rfl hworks).start hopened).bind fun _ => ?_
  refine (create_new_tries fun hyes => ⟨hworks hyes, (hcan hyes).free⟩).attempt_bind (fun _ => ?_)
    fun _ => .lift_error fun _ hkept => hkept
  refine .of_forall fun _ ⟨hfree, hcreated⟩ => ((copy_content_tries hworks).start hcreated).attempt_bind ?_ ?_
  · intro _
    rw [put_put]
    exact remove_moved_source_tries hundo hworks hfile hfree _
  · -- What was copied is thrown away.
    refine fun error => .of_forall fun _ ⟨⟨part, hcopied⟩, hnot⟩ => ?_
    rw [put_put] at hcopied
    refine ((remove_new_file_tries hundo hfree).start hcopied).attempt_bind ?_ fun _ => .of_forall nofun
    exact fun _ => .lift_error fun _ hfs => ⟨hfs, hnot⟩

/-- A move happens as a whole or not at all. -/
theorem move_file_exclusive_tries (hundo : env.Works .Undo) (hcan : can → CanMove env phase before source destination) :
    Tries (Fs.Holds before) (move_file_exclusive env phase source destination)
      (fun _ fs => Moved source destination before fs.entries) (Fs.Kept before can) := by
  have hworks (hyes : can) : env.Works phase := (hcan hyes).works
  refine (path_lexists_tries hworks destination).bind fun taken => .of_forall fun fs ⟨hfs, htaken⟩ => ?_
  cases taken with
  | true => exact .lift_error fun _ heq => ⟨heq ▸ hfs, fun hyes => nomatch htaken.mpr (hcan hyes).free⟩
  | false =>
    refine ((hard_link_tries source destination).start hfs).attempt_bind ?_ ?_
    · refine fun _ => .of_forall fun _ ⟨content, hfile, hfree, hlinked⟩ => ?_
      exact (remove_moved_source_tries hundo hworks hfile hfree _).start hlinked
    · exact fun error => .of_forall fun _ hkept => (copy_file_exclusive_tries hundo hcan error).start hkept.1

/-! Calls that do not change what files there are. -/

theorem ensure_move_path_absent_tries
    (hcan : can → env.Works .Forward ∧ before (normalize_lexical_path path) = none) (role : String) :
    Tries (Fs.Holds before) (ensure_move_path_absent env path role)
      (fun _ fs => before (normalize_lexical_path path) = none ∧ fs.Holds before) (Fs.Kept before can) := by
  refine (path_lexists_tries (fun hyes => (hcan hyes).1) path).bind fun taken => .of_forall fun fs ⟨hfs, htaken⟩ => ?_
  cases taken with
  | true => exact .lift_error fun _ heq => ⟨heq ▸ hfs, fun hyes => nomatch htaken.mpr (hcan hyes).2⟩
  | false => exact .pure fun _ heq => ⟨htaken.mp rfl, heq ▸ hfs⟩

theorem sync_move_entry_parents_tries (hcan : can → env.Works phase) (entry : MovePlanEntry) :
    Leaves before can (sync_move_entry_parents env phase entry) := by
  unfold sync_move_entry_parents
  cases entry.kind with
  | Existing =>
    refine (sync_parent_directory_tries hcan _).bind fun _ => ?_
    split
    · exact sync_parent_directory_tries hcan _
    · exact .pure fun _ hfs => hfs
  | CreateEmpty => exact sync_parent_directory_tries hcan _
  | Absent => exact .pure fun _ hfs => hfs

/-- Cleaning up does not fail. -/
theorem cleanup_empty_parents_tries (directory : Option Path) (stop_at : Path) :
    Tries (Fs.Holds before) (cleanup_empty_parents env phase directory stop_at) (fun _ => Fs.Holds before)
      fun _ => False := by
  have hloop (fuel : Nat) (current : Path) : Tries (Fs.Holds before)
      (remove_empty_directories env phase stop_at fuel current) (fun _ => Fs.Holds before) fun _ => False := by
    induction fuel generalizing current with
    | zero => exact .pure fun _ hfs => hfs
    | succ fuel ih =>
      rw [remove_empty_directories]
      split
      · exact .pure fun _ hfs => hfs
      · refine (signal_tries False.elim).attempt_bind (fun _ => ?_) fun _ => .pure fun _ hkept => hkept.1
        dsimp only
        split
        · exact .pure fun _ hfs => hfs
        · exact ih _
  cases directory with
  | none => exact .pure fun _ hfs => hfs
  | some current => exact hloop _ current

end

/-! Plans, and what is done of them. -/

/-- What one entry of a plan changes. -/
def MovePlanEntry.Placed (entry : MovePlanEntry) (before after : Entries) : Prop :=
  match entry.kind with
  | .Existing => Moved entry.source entry.destination before after
  | .CreateEmpty => before (normalize_lexical_path entry.destination) = none ∧
      after = put before entry.destination (some (.File []))
  | .Absent => False

/-- What the plan relies on: every place is free, and what is to be moved is there. -/
structure MovePlanEntry.Planned (base : Entries) (entry : MovePlanEntry) : Prop where
  free : base (normalize_lexical_path entry.destination) = none
  file : entry.kind = .Existing → ∃ content, base (normalize_lexical_path entry.source) = some (.File content)

/-- What lets an entry be placed. -/
structure MovePlanEntry.CanPlace (env : Environment) (base : Entries) (entry : MovePlanEntry) : Prop where
  works : env.Works .Forward
  planned : entry.Planned base
  missing : entry.kind ≠ .Existing → base (normalize_lexical_path entry.source) = none

section
variable (env : Environment)

/-- What is done for an empty file before its sync. -/
def prepare_new_file (entry : MovePlanEntry) : FsM Unit := do
  ensure_move_path_absent env entry.source "source"
  create_parent_directory env .Forward entry.destination
  map_err IoError.core (create_new env .Forward entry.destination)

/-- Whether the empty file of an entry is made, and its sync fails. -/
def new_file_unsynced (entry : MovePlanEntry) (fs : Fs) : Bool :=
  match entry.kind with
  | .CreateEmpty =>
    match prepare_new_file env entry fs with
    | (.ok _, created) => (env.fault created.clock .Forward (.SyncFile entry.destination)).isSome
    | (.error _, _) => false
  | _ => false

end

variable {completed : Vec MovePlanEntry}

section
variable {env : Environment} {fs fs' : Fs} {base before after : Entries} {entry : MovePlanEntry}

theorem MovePlanEntry.Placed.cases (h : entry.Placed before after) :
    (entry.kind = .Existing ∧ Moved entry.source entry.destination before after) ∨
    (entry.kind = .CreateEmpty ∧ before (normalize_lexical_path entry.destination) = none ∧
      after = put before entry.destination (some (.File []))) := by
  unfold MovePlanEntry.Placed at h
  cases hkind : entry.kind with
  | Absent =>
    rw [hkind] at h
    exact h.elim
  | CreateEmpty =>
    rw [hkind] at h
    exact Or.inr ⟨rfl, h⟩
  | Existing =>
    rw [hkind] at h
    exact Or.inl ⟨rfl, h⟩

theorem MovePlanEntry.Placed.free (h : entry.Placed before after) :
    before (normalize_lexical_path entry.destination) = none := by
  obtain ⟨-, _, -, hfree, -⟩ | ⟨-, hfree, -⟩ := h.cases <;> exact hfree

theorem MovePlanEntry.Placed.entry_eq {path : Path} (h : entry.Placed before after)
    (hsource : entry.kind = .Existing → path ≠ normalize_lexical_path entry.source)
    (hdestination : path ≠ normalize_lexical_path entry.destination) : after path = before path := by
  obtain ⟨hkind, _, -, -, rfl⟩ | ⟨-, -, rfl⟩ := h.cases
  · rw [put_of_ne hdestination, put_of_ne (hsource hkind)]
  · exact put_of_ne hdestination

theorem prepare_new_file_tries (hkind : entry.kind = .CreateEmpty) :
    Tries (Fs.Holds before) (prepare_new_file env entry)
      (fun _ fs => before (normalize_lexical_path entry.source) = none ∧
        before (normalize_lexical_path entry.destination) = none ∧
        fs.Holds (put before entry.destination (some (.File [])))) (Fs.Kept before (entry.CanPlace env before)) := by
  have hmissing (hyes : entry.CanPlace env before) := hyes.missing (by rw [hkind]; decide)
  refine (ensure_move_path_absent_tries (fun hyes => ⟨hyes.works, hmissing hyes⟩) _).bind fun _ => ?_
  refine .of_forall fun _ ⟨hsource, hfs⟩ => ?_
  refine ((create_parent_directory_tries (fun hyes => hyes.works) _).start hfs).bind fun _ => ?_
  exact (create_new_tries fun hyes => ⟨hyes.works, hyes.planned.free⟩).map_err.weaken (fun _ _ hnew => ⟨hsource, hnew⟩)
    fun _ hkept => hkept

/-- An entry that cannot be placed leaves the empty file if its sync has failed, and nothing otherwise. -/
theorem place_entry_tries (hundo : env.Works .Undo) (entry : MovePlanEntry) (fs : Fs) :
    Tries (fun other => other = fs) (place_entry env entry)
      (fun _ after => (entry.kind ≠ .Existing → fs.entry entry.source = none) ∧
        if entry.kind = .Absent then after.entries = fs.entries else entry.Placed fs.entries after.entries)
      (fun after => ¬entry.CanPlace env fs.entries ∧ if new_file_unsynced env entry fs = true then
          fs.entry entry.destination = none ∧ after.entries = put fs.entries entry.destination (some (.File []))
        else after.entries = fs.entries) := by
  unfold place_entry MovePlanEntry.Placed new_file_unsynced
  cases hkind : entry.kind with
  | Absent =>
    have hmissing (hyes : entry.CanPlace env fs.entries) := hyes.missing (by rw [hkind]; decide)
    refine (((ensure_move_path_absent_tries (fun hyes => ⟨hyes.works, hmissing hyes⟩) _).weaken (fun _ _ hfs => hfs)
      fun _ => And.symm).start rfl).bind fun _ => .of_forall fun _ ⟨hsource, hfs⟩ => ?_
    exact ((ensure_move_path_absent_tries (fun hyes => ⟨hyes.works, hyes.planned.free⟩) _).start hfs).weaken
      (fun _ _ hafter => ⟨fun _ => hsource, hafter.2⟩) fun _ => And.symm
  | CreateEmpty =>
    have hsplit : (do
        ensure_move_path_absent env entry.source "source"
        create_parent_directory env .Forward entry.destination
        create_empty_file_exclusive env entry.destination) =
        prepare_new_file env entry >>= fun _ => map_err IoError.core (sync_file env .Forward entry.destination) := by
      simp only [prepare_new_file, create_empty_file_exclusive, bind_assoc]
    dsimp only
    rw [hsplit]
    have hprepared := @prepare_new_file_tries env fs.entries entry hkind
    rcases hprepare : prepare_new_file env entry fs with ⟨failure | _, created⟩
    · obtain ⟨hkept, hnot⟩ := hprepared.error _ _ _ rfl hprepare
      constructor <;> rintro _ _ _ rfl h <;> cases (bind_of_error hprepare).symm.trans h
      exact ⟨hnot, hkept⟩
    · obtain ⟨hsource, hfree, hcreated⟩ := hprepared.ok _ _ _ rfl hprepare
      refine .of_eq (?_ : Tries (fun other => other = created) _ _ _) rfl (bind_of_ok hprepare)
      unfold sync_file
      constructor <;> rintro _ _ _ rfl h <;> rw [signal_core_eq] at h <;> split at h <;> cases h
      · exact ⟨fun _ => hsource, hfree, hcreated⟩
      · rename_i text hfault
        refine ⟨fun hyes => (nomatch (hyes.works _ _ rfl).symm.trans hfault), ?_⟩
        exact (if_pos (congrArg Option.isSome hfault)).mpr ⟨hfree, hcreated⟩
  | Existing =>
    refine (((create_parent_directory_tries (fun hyes : entry.CanPlace env fs.entries => hyes.works) _).bind fun _ =>
      move_file_exclusive_tries hundo fun hyes =>
        ⟨hyes.works, hyes.planned.file hkind, hyes.planned.free⟩).start rfl).weaken ?_ ?_
    · exact fun _ after hmoved => ⟨fun hne => absurd rfl hne, hmoved⟩
    · exact fun after hkept => ⟨hkept.2, hkept.1⟩

/-- A placed entry is taken back. -/
theorem rollback_entry_tries (hundo : env.Works .Undo) (hplaced : entry.Placed before after) :
    Tries (Fs.Holds after) (rollback_entry env entry >>= fun _ => sync_move_entry_parents env .Undo entry)
      (fun _ => Fs.Holds before) fun _ => False := by
  refine Tries.bind ?_ fun _ => tries_of_true (sync_move_entry_parents_tries (fun _ => hundo) entry)
  unfold rollback_entry
  obtain ⟨hkind, content, hfile, hfree, rfl⟩ | ⟨hkind, hfree, rfl⟩ := hplaced.cases
  · rw [hkind]
    have hne := normalize_ne_of_free hfile hfree
    have hback : put before entry.source none (normalize_lexical_path entry.destination) = none := by
      rw [put_of_ne hne.symm, hfree]
    refine (tries_of_true (move_file_exclusive_tries hundo fun _ => ⟨hundo, ⟨content, put_self _ _ _⟩, ?_⟩)).weaken
      (fun _ fs hmoved => ?_) fun _ => id
    · rw [put_of_ne hne, put_self]
    · obtain ⟨found, hfound, -, hfs⟩ := hmoved
      rw [put_self] at hfound
      cases hfound
      rw [Fs.Holds, hfs, put_put, put_eq_self hback, put_put, put_eq_self hfile]
  · rw [hkind]
    exact (remove_new_file_tries hundo hfree).attempt_bind (fun _ => .pure fun _ hfs => hfs)
      fun _ => .of_forall nofun

/-- What was placed in order is taken back in the reverse order. -/
theorem rollback_entries_tries (hundo : env.Works .Undo) (target_root : Path)
    (hdone : Done MovePlanEntry.Placed base completed after) :
    Tries (Fs.Holds after) (rollback_entries env target_root completed.reverse)
      (fun failures fs => failures = [] ∧ fs.Holds base) fun _ => False := by
  induction hdone with
  | nil => exact .pure fun _ hfs => ⟨rfl, hfs⟩
  | @push completed entry middle after _ hplaced ih =>
    rw [List.reverse_append, List.reverse_singleton, List.singleton_append, rollback_entries]
    refine (rollback_entry_tries hundo hplaced).attempt_bind (fun _ => ?_) fun _ => .of_forall nofun
    refine (cleanup_empty_parents_tries _ _).bind fun _ => ih.bind fun failures => ?_
    exact .pure fun _ hfs => hfs

theorem rollback_move_plan_restores (hundo : env.Works .Undo) (target_root : Path) {original error : CoreError}
    (hdone : Done MovePlanEntry.Placed base completed fs.entries)
    (h : rollback_move_plan env completed target_root original fs = (.error error, fs')) :
    error = original ∧ fs'.entries = base := by
  obtain ⟨_, restored, hrest, rfl, hbase⟩ := (rollback_entries_tries hundo target_root hdone).succeeds rfl fun _ => id
  rw [rollback_move_plan, bind_of_ok hrest] at h
  cases h
  exact ⟨rfl, hbase⟩

/-- Entries that are placed do not notice a file under another path. -/
theorem MovePlanEntry.Placed.put {path : Path} {content : Option Entry} (h : entry.Placed before after)
    (hsource : entry.kind = .Existing → normalize_lexical_path entry.source ≠ normalize_lexical_path path)
    (hdestination : normalize_lexical_path entry.destination ≠ normalize_lexical_path path) :
    entry.Placed (put before path content) (put after path content) := by
  obtain ⟨hkind, found, hfile, hfree, rfl⟩ | ⟨hkind, hfree, rfl⟩ := h.cases
  · rw [MovePlanEntry.Placed, hkind]
    refine ⟨found, (put_of_ne (hsource hkind)).trans hfile, (put_of_ne hdestination).trans hfree, ?_⟩
    rw [put_comm hdestination, put_comm (hsource hkind)]
  · rw [MovePlanEntry.Placed, hkind]
    exact ⟨(put_of_ne hdestination).trans hfree, put_comm hdestination⟩

/-- The places of completed entries are taken. -/
theorem destination_taken (hdone : Done MovePlanEntry.Placed base completed after)
    (hplanned : ∀ entry ∈ completed, entry.Planned base) :
    ∀ entry ∈ completed, after (normalize_lexical_path entry.destination) ≠ none := by
  apply hdone.forall_mem fun entry entries => entries (normalize_lexical_path entry.destination) ≠ none
  · intro entry _ s t hplaced
    obtain ⟨-, _, -, -, rfl⟩ | ⟨-, -, rfl⟩ := hplaced.cases <;> rw [put_self] <;> exact nofun
  · intro entry hentry s t hplaced earlier hearlier htaken
    rw [hplaced.entry_eq (fun hkind => ?_) fun hsame => htaken ((congrArg s hsame).trans hplaced.free)]
    · exact htaken
    · -- The file that is moved was there before the plan, when the earlier place was free.
      obtain ⟨found, hfound⟩ := (hplanned entry hentry).file hkind
      exact (normalize_ne_of_free hfound (hplanned earlier hearlier).free).symm

end

section
variable (env : Environment)

/-- Whether the entry at which a plan stops leaves something under the path. -/
def left_behind (path : Path) : Vec MovePlanEntry → Fs → Bool
  | [], _ => false
  | entry :: rest, fs =>
    match place_entry env entry fs with
    | (.error _, failed) => failed.entry path ≠ fs.entry path
    | (.ok _, placed) =>
      if entry.kind = .Absent then left_behind path rest placed
      else
        match sync_move_entry_parents env .Forward entry placed with
        | (.error _, _) => false
        | (.ok _, synced) => left_behind path rest synced

end

section
variable {env : Environment} {fs fs' : Fs} {base : Entries}

/-- Only the places of a plan can be left with something. -/
theorem exists_of_left_behind (hundo : env.Works .Undo) {path : Path} {plan : Vec MovePlanEntry}
    (h : left_behind env path plan fs = true) :
    ∃ entry ∈ plan, normalize_lexical_path entry.destination = normalize_lexical_path path := by
  induction plan generalizing fs with
  | nil => cases h
  | cons entry rest ih =>
    rw [left_behind] at h
    rcases hplace : place_entry env entry fs with ⟨error | _, placed⟩
    · simp only [hplace, ne_eq, decide_eq_true_eq] at h
      obtain ⟨-, hleft⟩ := (place_entry_tries hundo entry fs).error _ _ _ rfl hplace
      split at hleft
      · refine ⟨entry, List.mem_cons_self, ?_⟩
        by_contra hne
        apply h
        rw [Fs.entry, hleft.2, put_of_ne (Ne.symm hne), Fs.entry]
      · exact absurd (by rw [Fs.entry, hleft, Fs.entry]) h
    · simp only [hplace] at h
      have hrest : ∀ fs, left_behind env path rest fs = true →
          ∃ entry' ∈ entry :: rest, normalize_lexical_path entry'.destination = normalize_lexical_path path := by
        intro fs hfs
        obtain ⟨found, hfound, hpath⟩ := ih hfs
        exact ⟨found, List.mem_cons_of_mem _ hfound, hpath⟩
      split at h
      · exact hrest _ h
      · split at h
        · cases h
        · exact hrest _ h

/-- What the loop does for one entry. -/
theorem execute_entries_cases (hundo : env.Works .Undo) {target_root : Path} {entry : MovePlanEntry}
    {rest : Vec MovePlanEntry} (hdone : Done MovePlanEntry.Placed base completed fs.entries)
    {result : Result Unit} (h : execute_entries env target_root completed (entry :: rest) fs = (result, fs')) :
    (∃ error failed, place_entry env entry fs = (.error error, failed) ∧
      rollback_move_plan env completed target_root error failed = (result, fs')) ∨
    ∃ placed, place_entry env entry fs = (.ok (), placed) ∧
      if entry.kind = .Absent then Done MovePlanEntry.Placed base completed placed.entries ∧
        execute_entries env target_root completed rest placed = (result, fs')
      else ∃ outcome synced, sync_move_entry_parents env .Forward entry placed = (outcome, synced) ∧
        Done MovePlanEntry.Placed base (completed ++ [entry]) synced.entries ∧
        match outcome with
        | .error error => rollback_move_plan env (completed ++ [entry]) target_root error synced = (result, fs')
        | .ok _ => execute_entries env target_root (completed ++ [entry]) rest synced = (result, fs') := by
  rw [execute_entries] at h
  rcases hplace : place_entry env entry fs with ⟨error | _, placed⟩
  · rw [attempt_bind hplace] at h
    exact Or.inl ⟨error, placed, rfl, h⟩
  · rw [attempt_bind hplace] at h
    obtain ⟨-, hplaced⟩ := (place_entry_tries hundo entry fs).ok _ _ _ rfl hplace
    refine Or.inr ⟨placed, rfl, ?_⟩
    dsimp only at h
    split at h
    · rename_i hkind
      rw [if_pos hkind] at hplaced ⊢
      exact ⟨hplaced ▸ hdone, h⟩
    · rename_i hkind
      rw [if_neg hkind] at hplaced ⊢
      rcases hsync : sync_move_entry_parents env .Forward entry placed with ⟨outcome, synced⟩
      have hsynced : synced.entries = placed.entries :=
        (keeps_of_tries (sync_move_entry_parents_tries False.elim entry)).of_eq rfl hsync
      rw [attempt_bind hsync] at h
      refine ⟨outcome, synced, rfl, hsynced ▸ hdone.push hplaced, ?_⟩
      cases outcome <;> exact h

/-- A plan that fails and is rolled back leaves the files as they were, but for what the entry at which it stops
    leaves behind. -/
theorem execute_entries_failed (hundo : env.Works .Undo) {target_root : Path} {plan : Vec MovePlanEntry}
    {error : CoreError} (hdone : Done MovePlanEntry.Placed base completed fs.entries)
    (hplanned : ∀ entry ∈ completed ++ plan, entry.Planned base)
    (h : execute_entries env target_root completed plan fs = (.error error, fs')) (path : Path) :
    fs'.entry path = base (normalize_lexical_path path) ↔ left_behind env path plan fs = false := by
  induction plan generalizing completed fs with
  | nil => cases h
  | cons entry rest ih =>
    rw [left_behind]
    have hmember : entry ∈ completed ++ entry :: rest := List.mem_append_right _ List.mem_cons_self
    obtain ⟨failure, failed, hplace, h⟩ | ⟨placed, hplace, h⟩ := execute_entries_cases hundo hdone h
    · rw [hplace]
      dsimp only
      obtain ⟨-, hleft⟩ := (place_entry_tries hundo entry fs).error _ _ _ rfl hplace
      split at hleft
      · -- The empty file stays while the entries before it are taken back.
        obtain ⟨hfree, hput⟩ := hleft
        have hbefore : ∀ earlier ∈ completed, earlier.Planned base :=
          fun earlier hearlier => hplanned earlier (List.mem_append_left _ hearlier)
        have hframed := hdone.map (f := fun entries => put entries entry.destination (some (.File [])))
          fun earlier hearlier s t hstep => by
            refine hstep.put ?_ ?_
            · intro hkind
              obtain ⟨content, hfile⟩ := (hbefore earlier hearlier).file hkind
              exact normalize_ne_of_free hfile (hplanned entry hmember).free
            · intro hsame
              apply destination_taken hdone hbefore earlier hearlier
              rw [hsame]
              exact hfree
        rw [← hput] at hframed
        obtain ⟨-, hbase⟩ := rollback_move_plan_restores hundo target_root hframed h
        by_cases hpath : normalize_lexical_path path = normalize_lexical_path entry.destination
        · have hnone := (hplanned entry hmember).free
          rw [Fs.entry] at hfree
          simp [Fs.entry, hbase, hput, hpath, hnone, hfree]
        · simp [Fs.entry, hbase, hput, put_of_ne hpath]
      · rw [← hleft] at hdone
        obtain ⟨-, hbase⟩ := rollback_move_plan_restores hundo target_root hdone h
        simp [Fs.entry, hbase, hleft]
    · rw [hplace]
      dsimp only
      split at h
      · rename_i hkind
        rw [if_pos hkind]
        have hsublist := (List.sublist_cons_self entry rest).append_left completed
        exact ih h.1 (fun other hother => hplanned other (hsublist.subset hother)) h.2
      · rename_i hkind
        obtain ⟨failure | _, synced, hsync, hpushed, h⟩ := h
        · obtain ⟨-, hbase⟩ := rollback_move_plan_restores hundo target_root hpushed h
          simp [hkind, hsync, Fs.entry, hbase]
        · rw [if_neg hkind, hsync]
          apply ih hpushed _ h
          rwa [List.append_assoc, List.singleton_append]

end

end swarmotter.storage

import Swarmotter.Storage.MovePlan

open swarmotter.meta journal

namespace swarmotter.storage

/-! What a plan does as a whole. -/

section
variable (env : Environment)

/-- Whether a plan stops at the sync of an empty file that it has made. -/
def stops_at_new_file : Vec MovePlanEntry → Fs → Bool
  | [], _ => false
  | entry :: rest, fs =>
    match place_entry env entry fs with
    | (.error _, _) => new_file_unsynced env entry fs
    | (.ok _, placed) =>
      if entry.kind = .Absent then stops_at_new_file rest placed
      else
        match sync_move_entry_parents env .Forward entry placed with
        | (.error _, _) => false
        | (.ok _, synced) => stops_at_new_file rest synced

end

/-- No file that is missing has its old path where an entry before it puts its file. -/
def InOrder (plan : Vec MovePlanEntry) : Prop :=
  plan.Pairwise fun earlier later => earlier.kind ≠ .Absent → later.kind ≠ .Existing →
    normalize_lexical_path earlier.destination ≠ normalize_lexical_path later.source

instance (plan : Vec MovePlanEntry) : Decidable (InOrder plan) := inferInstanceAs (Decidable (List.Pairwise _ _))

/-- Every file of the plan has reached its place, and nothing else has changed. -/
structure Carried (plan : Vec MovePlanEntry) (before after : Fs) : Prop where
  moved : ∀ entry ∈ plan, entry.kind = .Existing → ∃ content, before.entry entry.source = some (.File content) ∧
    after.entry entry.destination = some (.File content) ∧ after.entry entry.source = none
  created : ∀ entry ∈ plan, entry.kind = .CreateEmpty → after.entry entry.destination = some (.File [])
  unchanged : ∀ path,
    (∀ entry ∈ plan, (entry.kind = .Existing → normalize_lexical_path path ≠ normalize_lexical_path entry.source) ∧
      (entry.kind ≠ .Absent → normalize_lexical_path path ≠ normalize_lexical_path entry.destination)) →
    after.entry path = before.entry path

/-- A plan that fails changes no file, one that does not is carried out, and it does not fail if no call does. -/
structure AllOrNothing (env : Environment) (plan : Vec MovePlanEntry) (before : Fs) (outcome : Result Unit × Fs) :
    Prop where
  nothing : ∀ error, outcome.1 = .error error → ∀ path, outcome.2.entry path = before.entry path
  all : outcome.1 = .ok () → Carried plan before outcome.2
  succeeds : env.Works .Forward → outcome.1 = .ok ()

/-! The files after some entries. -/

section
variable {base after : Entries} {completed : Vec MovePlanEntry} {path : Path}

/-- Paths that the entries do not name hold what they did. -/
theorem entry_eq_of_done (hdone : Done MovePlanEntry.Placed base completed after)
    (hpath : ∀ entry ∈ completed, (entry.kind = .Existing → path ≠ normalize_lexical_path entry.source) ∧
      path ≠ normalize_lexical_path entry.destination) : after path = base path := by
  induction hdone with
  | nil => rfl
  | @push completed entry middle after _ hplaced ih =>
    obtain ⟨hsource, hdestination⟩ := hpath entry (List.mem_append_right _ List.mem_cons_self)
    rw [hplaced.entry_eq hsource hdestination]
    exact ih fun earlier hearlier => hpath earlier (List.mem_append_left _ hearlier)

/-- A path where no entry puts its file stays free. -/
theorem free_of_done (hdone : Done MovePlanEntry.Placed base completed after) (hfree : base path = none)
    (hpath : ∀ entry ∈ completed, path ≠ normalize_lexical_path entry.destination) : after path = none := by
  induction hdone with
  | nil => exact hfree
  | @push completed entry middle after _ hplaced ih =>
    have hmiddle := ih fun earlier hearlier => hpath earlier (List.mem_append_left _ hearlier)
    have hdestination := hpath entry (List.mem_append_right _ List.mem_cons_self)
    rw [hplaced.entry_eq ?_ hdestination, hmiddle]
    intro hkind hsource
    obtain ⟨-, content, hfile, -⟩ | ⟨hempty, -⟩ := hplaced.cases
    · rw [← hsource, hmiddle] at hfile
      exact nomatch hfile
    · exact nomatch hkind.symm.trans hempty

/-- The path of a file that is planned to be moved, or of its place, is not that of another entry. -/
theorem MovePlanEntry.Placed.keeps {entry other : MovePlanEntry} {before : Entries} (h : entry.Placed before after)
    (hplanned : entry.Planned base) (hother : other.Planned base) (hapart : other.Apart entry) :
    after (normalize_lexical_path other.destination) = before (normalize_lexical_path other.destination) ∧
      (other.kind = .Existing →
        after (normalize_lexical_path other.source) = before (normalize_lexical_path other.source)) := by
  constructor
  · refine h.entry_eq (fun hkind => ?_) hapart.destination
    obtain ⟨content, hfile⟩ := hplanned.file hkind
    exact (normalize_ne_of_free hfile hother.free).symm
  · intro hkind
    obtain ⟨content, hfile⟩ := hother.file hkind
    exact h.entry_eq (fun _ => hapart.source) (normalize_ne_of_free hfile hplanned.free)

/-- Each entry that was placed has its file in its place. -/
theorem placed_of_done (hdone : Done MovePlanEntry.Placed base completed after)
    (hplanned : ∀ entry ∈ completed, entry.Planned base) (hapart : completed.Pairwise MovePlanEntry.Apart) :
    ∀ entry ∈ completed,
      (entry.kind = .Existing → ∃ content, base (normalize_lexical_path entry.source) = some (.File content) ∧
        after (normalize_lexical_path entry.destination) = some (.File content) ∧
        after (normalize_lexical_path entry.source) = none) ∧
      (entry.kind = .CreateEmpty → after (normalize_lexical_path entry.destination) = some (.File [])) := by
  induction hdone with
  | nil => exact nofun
  | @push completed last middle after hdone hplaced ih =>
    obtain ⟨hearlier, -, hlast⟩ := List.pairwise_append.mp hapart
    have hbefore : ∀ entry ∈ completed, entry.Planned base :=
      fun entry hmem => hplanned entry (List.mem_append_left _ hmem)
    have hlast_planned := hplanned last (List.mem_append_right _ List.mem_cons_self)
    have haparts : ∀ entry ∈ completed, entry.Apart last := fun entry hmem => hlast entry hmem last List.mem_cons_self
    intro entry hmem
    rcases List.mem_append.mp hmem with hmem | hmem
    · obtain ⟨hmoved, hcreated⟩ := ih hbefore hearlier entry hmem
      obtain ⟨hplace, hsource⟩ := hplaced.keeps hlast_planned (hbefore entry hmem) (haparts entry hmem)
      refine ⟨fun hkind => ?_, fun hkind => hplace.trans (hcreated hkind)⟩
      obtain ⟨content, hfile, hthere, hgone⟩ := hmoved hkind
      exact ⟨content, hfile, hplace.trans hthere, (hsource hkind).trans hgone⟩
    · obtain rfl := List.mem_singleton.mp hmem
      obtain ⟨hkind, content, hfile, hfree, rfl⟩ | ⟨hkind, -, rfl⟩ := hplaced.cases
      · -- the file is the one from before the plan
        have hsame : middle (normalize_lexical_path entry.source) = base (normalize_lexical_path entry.source) := by
          refine entry_eq_of_done hdone fun other hother => ⟨fun _ => (haparts other hother).source.symm, ?_⟩
          obtain ⟨found, hfound⟩ := hlast_planned.file hkind
          exact normalize_ne_of_free hfound (hbefore other hother).free
        refine ⟨fun _ => ⟨content, hsame ▸ hfile, put_self _ _ _, ?_⟩, fun hempty => nomatch hkind.symm.trans hempty⟩
        rw [put_of_ne (normalize_ne_of_free hfile hfree), put_self]
      · exact ⟨fun hexisting => (nomatch hkind.symm.trans hexisting), fun _ => put_self _ _ _⟩

end

/-- The entries of a plan for which something is done. -/
def effective (plan : Vec MovePlanEntry) : Vec MovePlanEntry := plan.filter fun entry => entry.kind ≠ .Absent

variable {plan : Vec MovePlanEntry}

theorem carried_of_done {before after : Fs}
    (hdone : Done MovePlanEntry.Placed before.entries (effective plan) after.entries)
    (hplanned : ∀ entry ∈ plan, entry.Planned before.entries) (hapart : plan.Pairwise MovePlanEntry.Apart) :
    Carried plan before after := by
  have hmem {entry : MovePlanEntry} (hentry : entry ∈ plan) (hkind : entry.kind ≠ .Absent) : entry ∈ effective plan :=
    List.mem_filter.mpr ⟨hentry, decide_eq_true hkind⟩
  have hplaced := placed_of_done hdone (fun entry hentry => hplanned entry (List.mem_of_mem_filter hentry))
    (hapart.filter _)
  constructor
  · intro entry hentry hkind
    exact (hplaced entry (hmem hentry (by rw [hkind]; decide))).1 hkind
  · intro entry hentry hkind
    exact (hplaced entry (hmem hentry (by rw [hkind]; decide))).2 hkind
  · intro path hpath
    unfold Fs.entry
    refine entry_eq_of_done hdone fun entry hentry => ?_
    obtain ⟨hentry, hkind⟩ := List.mem_filter.mp hentry
    exact ⟨(hpath entry hentry).1, (hpath entry hentry).2 (of_decide_eq_true hkind)⟩

/-! Plans that fail. -/

section
variable {env : Environment} {fs fs' : Fs} {entry : MovePlanEntry}

/-- A plan leaves something behind exactly if it stops at the sync of a new file. -/
theorem left_behind_iff (hundo : env.Works .Undo) :
    (∀ path, left_behind env path plan fs = false) ↔ stops_at_new_file env plan fs = false := by
  induction plan generalizing fs with
  | nil => exact iff_of_true (fun _ => rfl) rfl
  | cons entry rest ih =>
    rw [stops_at_new_file]
    simp only [left_behind]
    rcases hplace : place_entry env entry fs with ⟨error | _, placed⟩
    · obtain ⟨-, hleft⟩ := (place_entry_tries hundo entry fs).error _ _ _ rfl hplace
      dsimp only
      split at hleft
      · rename_i hunsynced
        refine iff_of_false (fun hall => ?_) (by rw [hunsynced]; decide)
        have hsame := of_decide_eq_false (hall entry.destination)
        rw [Fs.entry, hleft.2, put_self, hleft.1] at hsame
        exact hsame (by simp)
      · rename_i hsynced
        refine iff_of_true (fun path => ?_) (Bool.eq_false_of_not_eq_true hsynced)
        exact decide_eq_false (not_not.mpr (by rw [Fs.entry, hleft, Fs.entry]))
    · dsimp only
      by_cases hkind : entry.kind = .Absent
      · simp only [if_pos hkind]
        exact ih
      · simp only [if_neg hkind]
        rcases sync_move_entry_parents env .Forward entry placed with ⟨error | _, synced⟩
        · exact iff_of_true (fun _ => rfl) rfl
        · exact ih

end

/-! Plans that do not fail. -/

variable {path : Path}

section
variable {env : Environment} {fs fs' : Fs} {entry : MovePlanEntry} {base : Entries}

variable {completed : Vec MovePlanEntry}

theorem rollback_move_plan_ne_ok {target_root : Path} {original : CoreError} :
    rollback_move_plan env completed target_root original fs ≠ (.ok (), fs') := by
  intro h
  obtain ⟨failures, restored, -, h⟩ := trial.bind_eq_ok_iff.mp h
  exact nomatch h

theorem effective_cons (plan : Vec MovePlanEntry) :
    effective (entry :: plan) = if entry.kind = .Absent then effective plan else entry :: effective plan := by
  unfold effective
  by_cases hkind : entry.kind = .Absent <;> simp [hkind]

/-- What a plan that is carried out has done, and that its entries were in order. -/
theorem execute_entries_eq_ok (hundo : env.Works .Undo) {target_root : Path}
    (hdone : Done MovePlanEntry.Placed base completed fs.entries)
    (hplanned : ∀ entry ∈ completed ++ plan, entry.Planned base)
    (h : execute_entries env target_root completed plan fs = (.ok (), fs')) :
    Done MovePlanEntry.Placed base (completed ++ effective plan) fs'.entries ∧
      stops_at_new_file env plan fs = false ∧ InOrder plan ∧
      ∀ earlier ∈ completed, ∀ later ∈ plan, later.kind ≠ .Existing →
        normalize_lexical_path earlier.destination ≠ normalize_lexical_path later.source := by
  induction plan generalizing completed fs with
  | nil =>
    cases h
    refine ⟨?_, rfl, List.Pairwise.nil, nofun⟩
    rwa [effective, List.filter_nil, List.append_nil]
  | cons entry rest ih =>
    rw [stops_at_new_file]
    have htaken := destination_taken hdone fun earlier hearlier => hplanned earlier (List.mem_append_left _ hearlier)
    obtain ⟨_, _, -, h⟩ | ⟨placed, hplace, h⟩ := execute_entries_cases hundo hdone h
    · exact absurd h rollback_move_plan_ne_ok
    rw [hplace]
    dsimp only
    -- a place that is taken is not where a file is missing
    have hpassed : ∀ earlier ∈ completed, entry.kind ≠ .Existing →
        normalize_lexical_path earlier.destination ≠ normalize_lexical_path entry.source := by
      intro earlier hearlier hkind hsame
      apply htaken earlier hearlier
      rw [hsame]
      exact ((place_entry_tries hundo entry fs).ok _ _ _ rfl hplace).1 hkind
    by_cases hkind : entry.kind = .Absent
    · rw [if_pos hkind] at h ⊢
      have hsublist := (List.sublist_cons_self entry rest).append_left completed
      obtain ⟨hall, hstops, horder, hapart⟩ :=
        ih h.1 (fun other hother => hplanned other (hsublist.subset hother)) h.2
      rw [effective_cons, if_pos hkind]
      refine ⟨hall, hstops, List.Pairwise.cons (fun _ _ hne => absurd hkind hne) horder, ?_⟩
      intro earlier hearlier
      exact List.forall_mem_cons.mpr ⟨hpassed earlier hearlier, hapart earlier hearlier⟩
    · rw [if_neg hkind] at h ⊢
      obtain ⟨_ | _, synced, hsync, hpushed, h⟩ := h
      · exact absurd h rollback_move_plan_ne_ok
      rw [hsync]
      obtain ⟨hall, hstops, horder, hapart⟩ := ih hpushed (by rwa [List.append_assoc, List.singleton_append]) h
      rw [effective_cons, if_neg hkind]
      rw [List.append_assoc, List.singleton_append] at hall
      refine ⟨hall, hstops, List.Pairwise.cons (fun later hlater _ => ?_) horder, fun earlier hearlier => ?_⟩
      · exact hapart entry (List.mem_append_right _ List.mem_cons_self) later hlater
      · exact List.forall_mem_cons.mpr ⟨hpassed earlier hearlier, hapart earlier (List.mem_append_left _ hearlier)⟩

/-- What is still to be done of a plan can be done. -/
structure Pending (base : Entries) (completed plan : Vec MovePlanEntry) : Prop where
  planned : ∀ entry ∈ completed ++ plan, entry.Planned base
  missing : ∀ entry ∈ plan, entry.kind ≠ .Existing → base (normalize_lexical_path entry.source) = none
  apart : (completed ++ plan).Pairwise MovePlanEntry.Apart
  order : InOrder plan
  passed : ∀ earlier ∈ completed, ∀ later ∈ plan, later.kind ≠ .Existing →
    normalize_lexical_path earlier.destination ≠ normalize_lexical_path later.source

theorem Pending.place (h : Pending base completed (entry :: plan)) (hundo : env.Works .Undo)
    (hforward : env.Works .Forward) (hdone : Done MovePlanEntry.Placed base completed fs.entries) :
    (place_entry env entry fs).1 = .ok () := by
  have hentry := h.planned entry (List.mem_append_right _ List.mem_cons_self)
  have hapart : ∀ earlier ∈ completed, earlier.Apart entry :=
    fun earlier hearlier => (List.pairwise_append.mp h.apart).2.2 earlier hearlier entry List.mem_cons_self
  rcases hplace : place_entry env entry fs with ⟨error | _, placed⟩
  · refine absurd ⟨hforward, ⟨?_, fun hkind => ?_⟩, fun hkind => ?_⟩
      ((place_entry_tries hundo entry fs).error _ _ _ rfl hplace).1
    · exact free_of_done hdone hentry.free fun earlier hearlier => (hapart earlier hearlier).destination.symm
    · obtain ⟨content, hfile⟩ := hentry.file hkind
      refine ⟨content, hfile ▸ ?_⟩
      refine entry_eq_of_done hdone fun earlier hearlier => ⟨fun _ => (hapart earlier hearlier).source.symm, ?_⟩
      exact normalize_ne_of_free hfile (h.planned earlier (List.mem_append_left _ hearlier)).free
    · refine free_of_done hdone (h.missing entry List.mem_cons_self hkind) fun earlier hearlier => ?_
      exact (h.passed earlier hearlier entry List.mem_cons_self hkind).symm
  · rfl

theorem Pending.skip (h : Pending base completed (entry :: plan)) : Pending base completed plan := by
  have hsublist : (completed ++ plan).Sublist (completed ++ entry :: plan) :=
    (List.sublist_cons_self entry plan).append_left completed
  exact ⟨fun other hother => h.planned other (hsublist.subset hother),
    fun other hother => h.missing other (List.mem_cons_of_mem _ hother), h.apart.sublist hsublist,
    (List.pairwise_cons.mp h.order).2,
    fun earlier hearlier later hlater => h.passed earlier hearlier later (List.mem_cons_of_mem _ hlater)⟩

theorem Pending.push (h : Pending base completed (entry :: plan)) (hkind : entry.kind ≠ .Absent) :
    Pending base (completed ++ [entry]) plan := by
  refine ⟨?_, h.skip.missing, ?_, h.skip.order, ?_⟩
  · rw [List.append_assoc, List.singleton_append]
    exact h.planned
  · rw [List.append_assoc, List.singleton_append]
    exact h.apart
  · intro earlier hearlier later hlater
    rcases List.mem_append.mp hearlier with hearlier | hearlier
    · exact h.passed earlier hearlier later (List.mem_cons_of_mem _ hlater)
    · obtain rfl := List.mem_singleton.mp hearlier
      exact (List.pairwise_cons.mp h.order).1 later hlater hkind

theorem execute_entries_ok (hundo : env.Works .Undo) (hforward : env.Works .Forward) (target_root : Path)
    (h : Pending base completed plan) (hdone : Done MovePlanEntry.Placed base completed fs.entries) :
    (execute_entries env target_root completed plan fs).1 = .ok () := by
  induction plan generalizing completed fs with
  | nil => rfl
  | cons entry rest ih =>
    rcases hrun : execute_entries env target_root completed (entry :: rest) fs with ⟨outcome, after⟩
    obtain ⟨_, _, hplace, -⟩ | ⟨placed, -, hrest⟩ := execute_entries_cases hundo hdone hrun
    · exact nomatch (congrArg Prod.fst hplace).symm.trans (h.place hundo hforward hdone)
    · split at hrest
      · exact (congrArg Prod.fst hrest.2).symm.trans (ih h.skip hrest.1)
      · rename_i hkind
        obtain ⟨_ | _, synced, hsync, hpushed, hrest⟩ := hrest
        · exact (((sync_move_entry_parents_tries (fun _ => hforward) entry).error _ _ _ rfl hsync).2 trivial).elim
        · exact (congrArg Prod.fst hrest).symm.trans (ih (h.push hkind) hpushed)

end

/-! Plans that were made for the files of a torrent. -/

section
variable {env : Environment} {self destination : StorageHandle} {fs fs' : Fs}

theorem pending_of_build (h : self.build_move_plan env destination fs = (.ok plan, fs')) (horder : InOrder plan) :
    Pending fs'.entries [] plan := by
  obtain ⟨hsame, hplanned, hapart, -⟩ := (build_move_plan_tries self destination).ok _ _ _ rfl h
  rw [← hsame] at hplanned
  refine ⟨fun entry hentry => ?_, fun entry hentry hkind => ?_, hapart, horder, nofun⟩
  · obtain ⟨_, _, hat⟩ := hplanned entry hentry
    exact hat.planned
  · obtain ⟨_, _, hat⟩ := hplanned entry hentry
    exact hat.missing hkind

/-- If the calls that take something back work, a plan is carried out as a whole or not at all, and succeeds if no call
fails, exactly if it does not stop at the sync of an empty file that it has made, and no missing file has its old path
where an entry before it puts its file. -/
theorem move_plan_all_or_nothing_iff {plan : Vec MovePlanEntry} (hundo : env.Works .Undo)
    (hplan : self.build_move_plan env destination fs = (.ok plan, fs')) :
    AllOrNothing env plan fs' (execute_move_plan env plan destination.download_dir fs') ↔
      stops_at_new_file env plan fs' = false ∧ (env.Works .Forward → InOrder plan) := by
  obtain ⟨hsame, -, hapart, hprepared⟩ := (build_move_plan_tries self destination).ok _ _ _ rfl hplan
  rw [← hsame] at hprepared
  have hgood := hprepared.planned
  rcases hrun : execute_move_plan env plan destination.download_dir fs' with ⟨error | _, after⟩
  · have hfailed := execute_move_plan_failed hundo hgood hrun
    constructor
    · intro h
      refine ⟨(left_behind_iff hundo).mp fun path => (hfailed path).mp (h.nothing error rfl path), fun hforward => ?_⟩
      exact nomatch h.succeeds hforward
    · rintro ⟨hstops, horder⟩
      refine ⟨fun _ _ path => (hfailed path).mpr ((left_behind_iff hundo).mpr hstops path), nofun, fun hforward => ?_⟩
      have hok := execute_entries_ok hundo hforward destination.download_dir
        (pending_of_build hplan (horder hforward)) .nil
      rw [← hok]
      exact congrArg Prod.fst hrun.symm
  · obtain ⟨hdone, hstops, horder, -⟩ := execute_entries_eq_ok hundo .nil hgood hrun
    refine iff_of_true ⟨nofun, fun _ => carried_of_done hdone hgood hapart, fun _ => rfl⟩ ⟨hstops, fun _ => horder⟩

end

/-! Runs. -/

section
variable {env : Environment} {self destination : StorageHandle}

/-- Whether the torrent owns its paths, for which they need not be sorted. -/
def owns_paths (self : StorageHandle) : Bool :=
  match validate_path_component self.torrent.name,
      self.collect_payload_paths [] (List.range self.torrent.files.length) with
  | .ok _, .ok payload_paths =>
    payload_paths.all fun path => !paths_overlap path (normalize_lexical_path self.resume_path)
  | _, _ => false

theorem path_ownership_ok (h : owns_paths self = true) : ∃ ownership, self.path_ownership = .ok ownership := by
  unfold owns_paths at h
  split at h
  · rename_i hname hpaths
    unfold StorageHandle.path_ownership
    rw [hname, bind_ok, hpaths, bind_ok]
    dsimp only
    split
    · rename_i path hfound
      have hoverlaps := List.find?_some hfound
      have hapart := List.all_eq_true.mp h path (List.mem_mergeSort.mp (List.mem_of_find?_eq_some hfound))
      rw [hoverlaps] at hapart
      exact nomatch hapart
    · exact ⟨_, rfl⟩
  · exact nomatch h

/-- What is left of `build_move_plan` if the paths are good and the resume file stays. -/
theorem build_move_plan_eq (hsource : ∃ ownership, self.path_ownership = .ok ownership)
    (hdestination : ∃ ownership, destination.path_ownership = .ok ownership)
    (hresume : destination.resume_path = self.resume_path) (fs : Fs) :
    self.build_move_plan env destination fs = self.plan_entries env destination 0 self.torrent.files fs := by
  have hchecked {handle : StorageHandle} (h : ∃ ownership, handle.path_ownership = .ok ownership) :
      handle.checked_resume_path = .ok handle.resume_path := by
    obtain ⟨_, h⟩ := h
    obtain ⟨_, hname, -⟩ := bind_eq_ok_iff.mp h
    rw [StorageHandle.checked_resume_path, hname, bind_ok]
    rfl
  have hfirst := hchecked hsource
  have hsecond := hchecked hdestination
  obtain ⟨_, hsource⟩ := hsource
  obtain ⟨_, hdestination⟩ := hdestination
  unfold StorageHandle.build_move_plan
  rw [hsource, trial.lift_ok_bind, hdestination, trial.lift_ok_bind, hsecond, trial.lift_ok_bind, hfirst,
    trial.lift_ok_bind, StorageHandle.check_destination_resume, if_pos (by rw [hresume])]
  rfl

end

/-- The handle of a torrent of two bytes in the given files, under a root and with a suffix. -/
def handle_of (files : Vec MetaFile) (root : String) (suffix : Option String) : StorageHandle where
  torrent := { one_piece with files, is_multi_file := true }
  download_dir := [root]
  partial_file_suffix := suffix
  torrent_key := .V1 InfoHash.ZERO
  resume_dir := some ["res"]

def fs_of (files : List (Path × Bytes)) : Fs where
  entries := files.foldl (fun entries file => put entries file.1 (some (.File file.2))) fun _ => none
  clock := 0
  temp_file_sequence := 0

/-- Only the given calls fail, when something is done. -/
def failing (operations : Vec Operation) : Environment where
  fault _ phase operation :=
    if phase = .Forward && operations.contains operation then some "Input/output error (os error 5)" else none
  written _ := 0
  process_id := 1

theorem failing_works_undo (operations : Vec Operation) : (failing operations).Works .Undo := fun _ _ _ => rfl

theorem failing_nil_works (phase : Phase) : (failing []).Works phase := fun _ _ _ => by cases phase <;> rfl

/-- A torrent with an empty file. -/
def with_empty : Vec MetaFile := [⟨["t", "e"], 0, none⟩, ⟨["t", "x"], 2, none⟩]

/-- A file whose name is that of the other one with the suffix. -/
def chained : Vec MetaFile := [⟨["t", "x.part"], 1, none⟩, ⟨["t", "x"], 1, none⟩]

/-- The sync of an empty file fails. The file stays where it was made, and the next attempt fails because of it. In the
second run no call fails: a file is moved to the old path of a missing one, which is taken for a change from outside. -/
theorem move_plan_not_all_or_nothing :
    (let env := failing [.SyncFile ["dst", "t", "e"]]
    let self := handle_of with_empty "srv" none
    let destination := handle_of with_empty "dst" none
    ∃ plan fs, self.build_move_plan env destination (fs_of []) = (.ok plan, fs) ∧
      let outcome := execute_move_plan env plan ["dst"] fs
      ¬AllOrNothing env plan fs outcome ∧ (self.build_move_plan (failing []) destination outcome.2).1.isOk = false) ∧
    (let self := handle_of chained "srv" (some ".part")
    let destination := handle_of chained "srv" none
    ∃ plan fs, self.build_move_plan (failing []) destination (fs_of [(["srv", "t", "x.part.part"], [7])]) =
      (.ok plan, fs) ∧
      ¬AllOrNothing (failing []) plan fs (execute_move_plan (failing []) plan ["srv"] fs)) := by
  constructor
  · intro env self destination
    have hself := @path_ownership_ok self (by decide +kernel)
    have hdestination := @path_ownership_ok destination (by decide +kernel)
    have hplan : (self.plan_entries env destination 0 with_empty (fs_of [])).1 =
        .ok [⟨["srv", "t", "e"], ["dst", "t", "e"], .CreateEmpty⟩,
          ⟨["srv", "t", "x"], ["dst", "t", "x"], .Absent⟩] := by
      decide +kernel
    refine ⟨_, _, (build_move_plan_eq hself hdestination rfl _).trans (trial.eq_of_outcome hplan), fun h => ?_, ?_⟩
    · have hfailed : (execute_move_plan env [⟨["srv", "t", "e"], ["dst", "t", "e"], .CreateEmpty⟩,
          ⟨["srv", "t", "x"], ["dst", "t", "x"], .Absent⟩] ["dst"]
          (self.plan_entries env destination 0 with_empty (fs_of [])).2).1 =
            .error (.Io "Input/output error (os error 5)") := by
        decide +kernel
      exact absurd (h.nothing _ hfailed ["dst", "t", "e"]) (by decide +kernel)
    · rw [build_move_plan_eq hself hdestination rfl]
      decide +kernel
  · intro self destination
    have hself := @path_ownership_ok self (by decide +kernel)
    have hdestination := @path_ownership_ok destination (by decide +kernel)
    have hplan : (self.plan_entries (failing []) destination 0 chained (fs_of [(["srv", "t", "x.part.part"], [7])])).1 =
        .ok [⟨["srv", "t", "x.part.part"], ["srv", "t", "x.part"], .Existing⟩,
          ⟨["srv", "t", "x.part"], ["srv", "t", "x"], .Absent⟩] := by
      decide +kernel
    refine ⟨_, _, (build_move_plan_eq hself hdestination rfl _).trans (trial.eq_of_outcome hplan), fun h => ?_⟩
    exact absurd (h.succeeds (failing_nil_works .Forward)) (by decide +kernel)

/-- Two files. -/
def two_named : Vec MetaFile := [⟨["t", "a"], 1, none⟩, ⟨["t", "b"], 1, none⟩]

/-- The second file cannot be moved, and the first one is moved back. -/
theorem move_plan_all_or_nothing_iff_second_file :
    let env := failing [.HardLink ["srv", "t", "b"] ["dst", "t", "b"], .CreateNew ["dst", "t", "b"]]
    let self := handle_of two_named "srv" none
    let destination := handle_of two_named "dst" none
    ∃ plan fs, self.build_move_plan env destination (fs_of [(["srv", "t", "a"], [7]), (["srv", "t", "b"], [8])]) =
        (.ok plan, fs) ∧
      AllOrNothing env plan fs (execute_move_plan env plan ["dst"] fs) ∧
      (execute_move_plan env plan ["dst"] fs).1.isOk = false := by
  intro env self destination
  have hself := @path_ownership_ok self (by decide +kernel)
  have hdestination := @path_ownership_ok destination (by decide +kernel)
  have hplan : (self.plan_entries env destination 0 two_named
      (fs_of [(["srv", "t", "a"], [7]), (["srv", "t", "b"], [8])])).1 =
      .ok [⟨["srv", "t", "a"], ["dst", "t", "a"], .Existing⟩, ⟨["srv", "t", "b"], ["dst", "t", "b"], .Existing⟩] := by
    decide +kernel
  have hrun := (build_move_plan_eq hself hdestination rfl _).trans (trial.eq_of_outcome hplan)
  refine ⟨_, _, hrun, ?_, by decide +kernel⟩
  exact (move_plan_all_or_nothing_iff (failing_works_undo _) hrun).mpr ⟨by decide +kernel, fun _ => by decide⟩

end swarmotter.storage

import Swarmotter.Storage.Rollback

open swarmotter.meta trial

namespace swarmotter.storage

variable {plan : Vec MovePlanEntry}

section
variable {env : Environment} {self destination : StorageHandle} {fs fs' : Fs} {path : Path}

theorem normalize_push {left right : Path} (h : normalize_lexical_path left = normalize_lexical_path right)
    (s : String) : normalize_lexical_path (push left s) = normalize_lexical_path (push right s) := by
  unfold push
  split
  · rfl
  · unfold normalize_lexical_path at h ⊢
    rw [List.foldl_append, List.foldl_append, h]

/-- Handles with one root have one resume file. -/
theorem normalize_resume_path_relocated {destination_dir : Path} {suffix : Option String}
    (h : self.shares_storage_root_with (self.relocated destination_dir suffix) = true) :
    normalize_lexical_path (self.relocated destination_dir suffix).resume_path =
      normalize_lexical_path self.resume_path := by
  have hroot : normalize_lexical_path self.download_dir = normalize_lexical_path destination_dir := of_decide_eq_true h
  apply normalize_push
  cases hdir : self.resume_dir with
  | some directory => simp [StorageHandle.relocated, hdir]
  | none => simpa [StorageHandle.relocated, hdir] using hroot.symm

theorem ne_of_not_overlap {left right : Path} (h : paths_overlap left right = false) : left ≠ right := by
  rintro rfl
  simp [paths_overlap] at h

/-- The collected paths are those before and those of the files, which overlap neither those before nor each other. -/
theorem collect_payload_paths_eq_ok {before payload_paths : Vec Path} {indices : Vec Nat}
    (h : self.collect_payload_paths before indices = .ok payload_paths) :
    before ⊆ payload_paths ∧
    (∀ index ∈ indices, ∀ path, self.file_path index = .ok path → normalize_lexical_path path ∈ payload_paths ∧
      ∀ existing ∈ before, paths_overlap existing (normalize_lexical_path path) = false) ∧
    indices.Pairwise fun left right => ∀ path other, self.file_path left = .ok path → self.file_path right = .ok other →
      normalize_lexical_path path ≠ normalize_lexical_path other := by
  induction indices generalizing before with
  | nil =>
    cases h
    exact ⟨List.Subset.refl _, nofun, .nil⟩
  | cons index rest ih =>
    rw [StorageHandle.collect_payload_paths, bind_eq_ok_iff] at h
    obtain ⟨found, hfound, h⟩ := h
    dsimp only at h
    split at h
    · exact nomatch h
    · rename_i hnone
      obtain ⟨hbefore, hrest, hpairwise⟩ := ih h
      obtain ⟨hbefore, hown⟩ := List.append_subset.mp hbefore
      refine ⟨hbefore, fun other hother path hpath => ?_, .cons (fun other hother path another hpath hanother => ?_)
        hpairwise⟩
      · rcases List.mem_cons.mp hother with rfl | hother
        · cases hfound.symm.trans hpath
          exact ⟨hown List.mem_cons_self, fun existing hexisting =>
            Bool.eq_false_of_not_eq_true (List.find?_eq_none.mp hnone existing hexisting)⟩
        · obtain ⟨hmem, hapart⟩ := hrest other hother path hpath
          exact ⟨hmem, fun existing hexisting => hapart existing (List.mem_append_left _ hexisting)⟩
      · cases hfound.symm.trans hpath
        exact ne_of_not_overlap ((hrest other hother another hanother).2 _ (List.mem_append_right _ List.mem_cons_self))

variable {index : Nat}

theorem lt_length_of_file_path (h : self.file_path index = .ok path) : index < self.torrent.files.length := by
  simp only [StorageIo.file_path, eq_ok_iff] at h
  obtain ⟨file, hfile, -⟩ := h
  exact (List.getElem?_eq_some_iff.mp hfile).1

/-- The files of a torrent that owns its paths lie under different ones. -/
theorem file_path_apart {ownership : StoragePathOwnership} (h : self.path_ownership = .ok ownership) {i j : Nat}
    (hlt : i < j) {path other : Path} (hpath : self.file_path i = .ok path) (hother : self.file_path j = .ok other) :
    normalize_lexical_path path ≠ normalize_lexical_path other := by
  simp only [StorageHandle.path_ownership, bind_eq_ok_iff] at h
  obtain ⟨-, -, payload_paths, hcollected, -⟩ := h
  have hj := lt_length_of_file_path hother
  have hpair := List.pairwise_iff_getElem.mp (collect_payload_paths_eq_ok hcollected).2.2 i j
    (by rw [List.length_range]; omega) (by rw [List.length_range]; omega) hlt
  rw [List.getElem_range, List.getElem_range] at hpair
  exact hpair path other hpath hother

/-- No payload file lies where the resume file does. -/
theorem payload_ne_resume {ownership : StoragePathOwnership} (h : self.path_ownership = .ok ownership)
    (hpath : self.file_path index = .ok path) :
    normalize_lexical_path path ≠ normalize_lexical_path self.resume_path := by
  have hindex : index ∈ List.range self.torrent.files.length := List.mem_range.mpr (lt_length_of_file_path hpath)
  simp only [StorageHandle.path_ownership, bind_eq_ok_iff] at h
  obtain ⟨-, -, payload_paths, hcollected, h⟩ := h
  split at h
  · cases h
  · rename_i hnone
    intro hsame
    have hmem := ((collect_payload_paths_eq_ok hcollected).2.1 index hindex path hpath).1
    have hapart := List.find?_eq_none.mp hnone _ (List.mem_mergeSort.mpr hmem)
    simp [paths_overlap, hsame] at hapart

variable {before : Entries} {can : Prop}

theorem check_destination_resume_tries (left right : Path) :
    Tries (Fs.Holds before) (StorageHandle.check_destination_resume env left right) (fun _ => Fs.Holds before)
      (Fs.Holds before) := by
  unfold StorageHandle.check_destination_resume
  split
  · exact .pure fun _ hfs => hfs
  · refine Tries.bind ((path_lexists_tries False.elim _).weaken (fun _ _ h => h.1) fun _ h => h.1) ?_
    rintro (_ | _)
    · exact .pure fun _ hfs => hfs
    · exact .lift_error fun _ hfs => hfs

/-- The entry of one file. -/
structure PlannedAt (handle destination : StorageHandle) (base : Entries) (index : Nat) (expected : MetaFile)
    (entry : MovePlanEntry) : Prop where
  source : handle.file_path index = .ok entry.source
  destination : destination.file_path index = .ok entry.destination
  ne : normalize_lexical_path entry.source ≠ normalize_lexical_path entry.destination
  free : base (normalize_lexical_path entry.destination) = none
  file : entry.kind = .Existing → ∃ content, base (normalize_lexical_path entry.source) = some (.File content) ∧
    content.length ≤ expected.length
  missing : entry.kind ≠ .Existing → base (normalize_lexical_path entry.source) = none

theorem PlannedAt.planned {base : Entries} {expected : MetaFile} {entry : MovePlanEntry}
    (h : PlannedAt self destination base index expected entry) : entry.Planned base := by
  refine ⟨h.free, fun hkind => ?_⟩
  obtain ⟨content, hfile, -⟩ := h.file hkind
  exact ⟨content, hfile⟩

/-- A file that is there and can be moved to its new path. -/
structure Movable (handle destination : StorageHandle) (base : Entries) (index : Nat) (expected : MetaFile)
    (source target : Path) (content : Bytes) : Prop where
  source_eq : handle.file_path index = .ok source
  target_eq : destination.file_path index = .ok target
  free : base (normalize_lexical_path target) = none
  file : base (normalize_lexical_path source) = some (.File content)
  fits : content.length ≤ expected.length

/-- The file of an entry, which is not moved if its path stays. -/
def Stays (handle destination : StorageHandle) (index : Nat) : Prop :=
  ∃ source target, handle.file_path index = .ok source ∧ destination.file_path index = .ok target ∧
    normalize_lexical_path source = normalize_lexical_path target

theorem plan_entry_tries {expected : MetaFile} (hcan : can → env.Works .Forward ∧
      ∃ source target content, Movable self destination before index expected source target content) :
    Tries (Fs.Holds before) (self.plan_entry env destination index expected)
      (fun found fs => fs.Holds before ∧ match found with
        | none => Stays self destination index
        | some entry => PlannedAt self destination before index expected entry) (Fs.Kept before can) := by
  have hyes_of (source target : Path) (hsource : self.file_path index = .ok source)
      (htarget : destination.file_path index = .ok target) (hyes : can) :
      before (normalize_lexical_path target) = none ∧ ∃ content,
        before (normalize_lexical_path source) = some (.File content) ∧ content.length ≤ expected.length := by
    obtain ⟨-, _, _, content, hmovable⟩ := hcan hyes
    cases hsource.symm.trans hmovable.source_eq
    cases htarget.symm.trans hmovable.target_eq
    exact ⟨hmovable.free, content, hmovable.file, hmovable.fits⟩
  refine .lift_bind (fun source hsource => .lift_bind (fun target htarget => ?_) ?_) ?_
  · have hcan' := hyes_of source target hsource htarget
    split
    · rename_i hstays
      exact .pure fun _ hfs => ⟨hfs, source, target, hsource, htarget, hstays⟩
    rename_i hne
    refine (path_lexists_tries (fun hyes => (hcan hyes).1) target).bind fun taken =>
      .of_forall fun fs ⟨hfs, htaken⟩ => ?_
    cases taken with
    | true => exact .lift_error fun _ heq => ⟨heq ▸ hfs, fun hyes => nomatch htaken.mpr (hcan' hyes).1⟩
    | false =>
      have hfree := htaken.mp rfl
      rcases hmetadata : symlink_metadata env .Forward source fs with ⟨result, looked⟩
      obtain ⟨hentries, hresult⟩ := symlink_metadata_cases hmetadata
      have hlooked : looked.Holds before := hentries.trans hfs
      refine .of_eq (?_ : Tries (fun other => other = looked) _ _ _) rfl (attempt_bind hmetadata)
      unfold Fs.entry at hresult
      rw [hfs] at hresult
      rcases result with (_ | text) | (content | _) <;> dsimp only at hresult ⊢
      · split <;> exact .pure fun _ heq => ⟨heq ▸ hlooked, hsource, htarget, hne, hfree, nofun, fun _ => hresult⟩
      · exact .lift_error fun _ heq => ⟨heq ▸ hlooked, fun hyes => hresult ((hcan hyes).1 _ _ rfl)⟩
      · split
        · rename_i hfits
          exact .pure fun _ heq => ⟨heq ▸ hlooked, hsource, htarget, hne, hfree, fun _ => ⟨content, hresult, hfits⟩,
            fun hkind => absurd rfl hkind⟩
        · rename_i hlong
          refine .lift_error fun _ heq => ⟨heq ▸ hlooked, fun hyes => ?_⟩
          obtain ⟨-, found, hfound, hfits⟩ := hcan' hyes
          cases hfound.symm.trans hresult
          exact hlong hfits
      · refine .lift_error fun _ heq => ⟨heq ▸ hlooked, fun hyes => ?_⟩
        obtain ⟨-, found, hfound, -⟩ := hcan' hyes
        exact nomatch hfound.symm.trans hresult
  all_goals
    intro error herror fs hfs
    refine ⟨hfs, fun hyes => ?_⟩
    obtain ⟨-, _, _, _, hmovable⟩ := hcan hyes
  · exact nomatch herror.symm.trans hmovable.target_eq
  · exact nomatch herror.symm.trans hmovable.source_eq

/-- The entries of a plan come from different files, in their order, and from every file whose path changes. -/
theorem plan_entries_tries {files : Vec MetaFile}
    (hcan : can → env.Works .Forward ∧ ∀ k expected, files[k]? = some expected → ∃ source target content, Movable self
      destination before (index + k) expected source target content) :
    Tries (Fs.Holds before) (self.plan_entries env destination index files)
      (fun plan fs => fs.Holds before ∧
        (∀ entry ∈ plan, ∃ i expected, index ≤ i ∧ PlannedAt self destination before i expected entry) ∧
        (plan.Pairwise fun left right => ∃ i j, i < j ∧ self.file_path i = .ok left.source ∧
          self.file_path j = .ok right.source ∧ destination.file_path i = .ok left.destination ∧
          destination.file_path j = .ok right.destination) ∧
        ∀ k expected, files[k]? = some expected → Stays self destination (index + k) ∨
          ∃ entry ∈ plan, PlannedAt self destination before (index + k) expected entry) (Fs.Kept before can) := by
  induction files generalizing index with
  | nil => exact .pure fun _ hfs => ⟨hfs, nofun, .nil, nofun⟩
  | cons expected files ih =>
    rw [StorageHandle.plan_entries]
    refine (plan_entry_tries fun hyes => ⟨(hcan hyes).1, (hcan hyes).2 0 expected rfl⟩).bind fun found =>
      .of_forall fun fs ⟨hfs, hfound⟩ => ?_
    refine ((@ih (index + 1) fun hyes => ⟨(hcan hyes).1, fun k other hk => ?_⟩).start hfs).bind fun rest =>
      .of_forall fun fs ⟨hfs, hlater, hordered, hlooked⟩ => ?_
    · rw [Nat.add_assoc, Nat.add_comm 1]
      exact (hcan hyes).2 (k + 1) other hk
    refine .pure fun _ heq => ⟨heq ▸ hfs, ?_⟩
    have hafter : ∀ entry ∈ rest, ∃ i expected, index ≤ i ∧ PlannedAt self destination before i expected entry := by
      intro entry hentry
      obtain ⟨i, other, hi, hat⟩ := hlater entry hentry
      exact ⟨i, other, Nat.le_of_succ_le hi, hat⟩
    have hlast (k : Nat) (other : MetaFile) (hk : files[k]? = some other) :
        Stays self destination (index + (k + 1)) ∨
          ∃ entry ∈ rest, PlannedAt self destination before (index + (k + 1)) other entry := by
      rw [Nat.add_comm k, ← Nat.add_assoc]
      exact hlooked k other hk
    cases found with
    | none =>
      refine ⟨hafter, hordered, fun k other hk => ?_⟩
      cases k with
      | zero => exact .inl hfound
      | succ k => exact hlast k other hk
    | some first =>
      refine ⟨List.forall_mem_cons.mpr ⟨⟨index, expected, Nat.le_refl _, hfound⟩, hafter⟩,
        .cons (fun entry hentry => ?_) hordered, fun k other hk => ?_⟩
      · obtain ⟨i, other, hi, hat⟩ := hlater entry hentry
        exact ⟨index, i, hi, hfound.source, hat.source, hfound.destination, hat.destination⟩
      · cases k with
        | zero =>
          cases hk
          exact .inr ⟨first, List.mem_cons_self, hfound⟩
        | succ k =>
          exact (hlast k other hk).imp_right fun ⟨entry, hentry, hat⟩ => ⟨entry, List.mem_cons_of_mem _ hentry, hat⟩

/-- The paths of two entries differ. -/
structure MovePlanEntry.Apart (left right : MovePlanEntry) : Prop where
  source : normalize_lexical_path left.source ≠ normalize_lexical_path right.source
  destination : normalize_lexical_path left.destination ≠ normalize_lexical_path right.destination

/-- A plan is only made for a torrent whose files do not collide with its resume file. -/
structure Prepared (handle destination : StorageHandle) (base : Entries) (plan : Vec MovePlanEntry) : Prop where
  resume_path : handle.checked_resume_path = .ok handle.resume_path
  source_ne : ∀ entry ∈ plan, normalize_lexical_path entry.source ≠ normalize_lexical_path handle.resume_path
  destination_ne : ∀ entry ∈ plan,
    normalize_lexical_path entry.destination ≠ normalize_lexical_path destination.resume_path
  planned : ∀ entry ∈ plan, entry.Planned base

/-- A plan that is made looks at the files and changes none of them. -/
theorem build_move_plan_tries (self destination : StorageHandle) :
    Tries (Fs.Holds before) (self.build_move_plan env destination)
      (fun plan fs => fs.Holds before ∧
        (∀ entry ∈ plan, ∃ i expected, PlannedAt self destination before i expected entry) ∧
        plan.Pairwise MovePlanEntry.Apart ∧ Prepared self destination before plan) (Fs.Holds before) := by
  refine .lift_bind (fun ownership hownership => ?_) fun _ _ _ hfs => hfs
  refine .lift_bind (fun ownership' hownership' => ?_) fun _ _ _ hfs => hfs
  refine .lift_bind (fun _ _ => ?_) fun _ _ _ hfs => hfs
  refine .lift_bind (fun _ hresume => ?_) fun _ _ _ hfs => hfs
  refine (check_destination_resume_tries _ _).bind fun _ => ?_
  refine (plan_entries_tries False.elim).weaken (fun plan fs ⟨hfs, hentries, hordered, _⟩ => ?_) fun _ hkept => hkept.1
  have hplanned : ∀ entry ∈ plan, ∃ i expected, PlannedAt self destination before i expected entry := by
    intro entry hentry
    obtain ⟨i, expected, -, hat⟩ := hentries entry hentry
    exact ⟨i, expected, hat⟩
  have hpath : self.checked_resume_path = .ok self.resume_path := by
    rw [StorageHandle.checked_resume_path, bind_eq_ok_iff] at hresume
    obtain ⟨_, hname, -⟩ := hresume
    rw [StorageHandle.checked_resume_path, hname]
    rfl
  refine ⟨hfs, hplanned, hordered.imp ?_, hpath, fun entry hentry => ?_, fun entry hentry => ?_, fun entry hentry => ?_⟩
  · rintro left right ⟨i, j, hlt, hleft, hright, hleft', hright'⟩
    exact ⟨file_path_apart hownership hlt hleft hright, file_path_apart hownership' hlt hleft' hright'⟩
  all_goals obtain ⟨_, _, hat⟩ := hplanned entry hentry
  · exact payload_ne_resume hownership hat.source
  · exact payload_ne_resume hownership' hat.destination
  · exact hat.planned

theorem prepare_move_tries (self destination : StorageHandle) :
    Tries (Fs.Holds before) (self.prepare_move env destination)
      (fun plan fs => fs.Holds before ∧ Prepared self destination before plan) (Fs.Holds before) := by
  have hflush : Tries (Fs.Holds before) (map_err IoError.core (signal env .Forward .Flush))
      (fun _ => Fs.Holds before) (Fs.Holds before) :=
    (signal_core_tries rfl False.elim).weaken (fun _ _ hfs => hfs) fun _ hkept => hkept.1
  exact hflush.bind fun _ => hflush.bind fun _ =>
    (build_move_plan_tries self destination).weaken (fun _ _ hplan => ⟨hplan.1, hplan.2.2.2⟩) fun _ hfs => hfs

end

namespace StorageHandle

/-- When a planned move that fails leaves the resume file alone: the file cannot be removed, or there is none and
    the plan leaves nothing in its place. -/
def LeavesResume (env : Environment) (self : StorageHandle) (plan : Vec MovePlanEntry) (planned : Fs) : Prop :=
  env.fault planned.clock .Forward (.Remove self.resume_path) ≠ none ∨
    match planned.entry self.resume_path with
    | some (.File _) => False
    | some .Other => True
    | none => left_behind env self.resume_path plan (remove_file env .Forward self.resume_path planned).2 = false

/-- When a failed move leaves the resume file alone: it stays under its root, or there is no plan, or the plan
    does not touch it. -/
def KeepsResume (env : Environment) (self destination : StorageHandle) (fs : Fs) : Prop :=
  self.shares_storage_root_with destination = true ∨
    ∀ plan planned, self.prepare_move env destination fs = (.ok plan, planned) → self.LeavesResume env plan planned

end StorageHandle

section
variable {env : Environment} {self destination : StorageHandle} {fs fs' : Fs} {path : Path}

theorem cleanup_sources_tries {before : Entries} (plan : Vec MovePlanEntry) :
    Tries (Fs.Holds before) (self.cleanup_sources env plan) (fun _ => Fs.Holds before) fun _ => False := by
  refine .for_each fun entry _ => ?_
  split
  · exact cleanup_empty_parents_tries _ _
  · exact .pure fun _ hfs => hfs

variable {error : CoreError}

/-- After the plan is carried out nothing can fail. -/
theorem execute_failed_of_failed (h : (do
      execute_move_plan env plan destination.download_dir
      self.cleanup_sources env plan
      pure destination : FsM StorageHandle) fs = (.error error, fs')) :
    execute_move_plan env plan destination.download_dir fs = (.error error, fs') := by
  obtain h | ⟨_, executed, -, h⟩ := bind_eq_error_iff.mp h
  · exact h
  · obtain ⟨_, _, hclean, -⟩ := (@cleanup_sources_tries env self _ plan).succeeds (rfl : executed.Holds _) fun _ => id
    rw [bind_of_ok hclean] at h
    cases h

theorem execute_move_plan_failed (hundo : env.Works .Undo) {target_root : Path}
    (hplanned : ∀ entry ∈ plan, entry.Planned fs.entries)
    (h : execute_move_plan env plan target_root fs = (.error error, fs')) (path : Path) :
    fs'.entry path = fs.entry path ↔ left_behind env path plan fs = false :=
  execute_entries_failed hundo .nil hplanned h path

/-- A plan that fails leaves alone what lies under a path that is no place of it. -/
theorem execute_move_plan_keeps_path (hundo : env.Works .Undo) {target_root : Path}
    (hplanned : ∀ entry ∈ plan, entry.Planned fs.entries)
    (h : execute_move_plan env plan target_root fs = (.error error, fs'))
    (hne : ∀ entry ∈ plan, normalize_lexical_path entry.destination ≠ normalize_lexical_path path) :
    fs'.entry path = fs.entry path := by
  apply (execute_move_plan_failed hundo hplanned h path).mpr
  rw [← Bool.not_eq_true]
  intro hleft
  obtain ⟨entry, hentry, hpath⟩ := exists_of_left_behind hundo hleft
  exact hne entry hentry hpath

/-- A move under one root never touches the resume file, whether it works or not. -/
theorem rewrite_partial_file_suffix_failed (hundo : env.Works .Undo)
    (hresume : normalize_lexical_path destination.resume_path = normalize_lexical_path self.resume_path)
    (h : self.rewrite_partial_file_suffix env destination fs = (.error error, fs')) :
    fs'.entry self.resume_path = fs.entry self.resume_path := by
  obtain hprepare | ⟨plan, planned, hprepare, h⟩ := bind_eq_error_iff.mp h
  · have hsame : fs'.entries = fs.entries := (prepare_move_tries self destination).error _ _ _ rfl hprepare
    rw [Fs.entry, hsame, Fs.entry]
  · obtain ⟨hsame, hprepared⟩ := (prepare_move_tries self destination).ok _ _ _ rfl hprepare
    rw [← hsame] at hprepared
    have hkept : fs'.entry self.resume_path = planned.entry self.resume_path :=
      execute_move_plan_keeps_path hundo hprepared.planned (execute_failed_of_failed h) fun entry hentry hpath =>
        hprepared.destination_ne entry hentry (hpath.trans hresume.symm)
    rw [hkept, Fs.entry, hsame, Fs.entry]

/-- A plan stays good when the resume file is removed. -/
theorem Prepared.put_resume {base : Entries} (h : Prepared self destination base plan) :
    ∀ entry ∈ plan, entry.Planned (put base self.resume_path none) := by
  intro entry hentry
  have hplanned := h.planned entry hentry
  constructor
  · by_cases hsame : normalize_lexical_path entry.destination = normalize_lexical_path self.resume_path
    · rw [hsame, put_self]
    · rw [put_of_ne hsame]
      exact hplanned.free
  · intro hkind
    rw [put_of_ne (h.source_ne entry hentry)]
    exact hplanned.file hkind

/-- What happens to the resume file once there is a plan. -/
theorem carry_out_move_failed (hundo : env.Works .Undo) {planned : Fs}
    (hprepared : Prepared self destination planned.entries plan)
    (h : self.carry_out_move env destination plan planned = (.error error, fs')) :
    fs'.entry self.resume_path = planned.entry self.resume_path ↔ self.LeavesResume env plan planned := by
  unfold StorageHandle.LeavesResume
  rw [StorageHandle.carry_out_move, StorageHandle.remove_resume, hprepared.resume_path, bind_assoc,
    lift_ok_bind, bind_assoc] at h
  rcases hremove : remove_file env .Forward self.resume_path planned with ⟨outcome, removed⟩
  rw [attempt_bind hremove] at h
  have hrun := hremove
  unfold remove_file call at hrun
  cases hfault : env.fault planned.clock .Forward (.Remove self.resume_path) with
  | some text =>
    -- The removal fails and ends the move.
    rw [hfault] at hrun
    cases hrun
    cases h
    exact iff_of_true rfl (Or.inl nofun)
  | none =>
    rw [hfault] at hrun
    rcases hentry : planned.entries (normalize_lexical_path self.resume_path) with _ | content | _ <;>
      simp only [hentry] at hrun <;> obtain ⟨rfl, hremoved⟩ := Prod.mk.inj hrun <;>
      have hremoved := (congrArg Fs.entries hremoved).symm <;> dsimp only at h hremoved
    · -- There was no file, so only the plan can have put something there.
      have hkept := execute_move_plan_failed hundo (hremoved ▸ hprepared.planned) (execute_failed_of_failed h)
        self.resume_path
      simp only [Fs.entry, hremoved, hentry] at hkept ⊢
      simp [hkept]
    · -- The file was there and is gone. The plan cannot bring it back.
      have hlost : fs'.entry self.resume_path = none := by
        obtain hsync | ⟨_, synced, hsync, h⟩ := bind_eq_error_iff.mp h
        · rw [Fs.entry, ((sync_parent_directory_tries False.elim _).error _ _ _ rfl hsync).1, hremoved, put_self]
        · have hsynced := (sync_parent_directory_tries False.elim _).ok _ _ _ hremoved hsync
          have hkept : fs'.entry self.resume_path = synced.entry self.resume_path := by
            apply execute_move_plan_keeps_path hundo (hsynced.symm ▸ hprepared.put_resume) (execute_failed_of_failed h)
            intro entry hmem hpath
            rw [← hpath, (hprepared.planned entry hmem).free] at hentry
            cases hentry
          rw [hkept, Fs.entry, hsynced, put_self]
      rw [hlost, Fs.entry, hentry]
      simp
    · cases h
      exact iff_of_true (by rw [Fs.entry, hremoved, Fs.entry]) (Or.inr (by rw [Fs.entry, hentry]; trivial))

/-- A failed move whose rollback works leaves the resume file as it was in exactly these cases. -/
theorem failed_move_keeps_resume_iff (env : Environment) (hundo : env.Works .Undo) (self : StorageHandle)
    (destination_dir : Path) (partial_file_suffix : Option String) (fs fs' : Fs) (error : CoreError)
    (h : self.move_to_with_partial_file_suffix env destination_dir partial_file_suffix fs = (.error error, fs')) :
    fs'.entry self.resume_path = fs.entry self.resume_path ↔
      self.KeepsResume env (self.relocated destination_dir partial_file_suffix) fs := by
  unfold StorageHandle.move_to_with_partial_file_suffix at h
  by_cases hroot : self.shares_storage_root_with (self.relocated destination_dir partial_file_suffix) = true
  · rw [if_pos hroot] at h
    refine iff_of_true ?_ (Or.inl hroot)
    split at h
    · exact rewrite_partial_file_suffix_failed hundo (normalize_resume_path_relocated hroot) h
    · cases h
  rw [if_neg hroot] at h
  rw [StorageHandle.KeepsResume, or_iff_right hroot]
  obtain hprepare | ⟨plan, planned, hprepare, h⟩ := bind_eq_error_iff.mp h
  · have hsame : fs'.entries = fs.entries := (prepare_move_tries _ _).error _ _ _ rfl hprepare
    refine iff_of_true (by rw [Fs.entry, hsame, Fs.entry]) fun plan planned hok => ?_
    rw [hprepare] at hok
    cases hok
  · obtain ⟨hsame, hprepared⟩ := (prepare_move_tries _ _).ok _ _ _ rfl hprepare
    rw [← hsame] at hprepared
    have hbefore : fs.entry self.resume_path = planned.entry self.resume_path := by rw [Fs.entry, ← hsame, Fs.entry]
    rw [hbefore, carry_out_move_failed hundo hprepared h]
    constructor
    · intro hleaves plan' planned' hprepare'
      rw [hprepare] at hprepare'
      cases hprepare'
      exact hleaves
    · exact fun hall => hall plan planned hprepare

/-- A torrent with its file in place. -/
def payload_fs : Fs where
  entries := put (fun _ => none) ["srv", "t"] (some (.File [1, 2]))
  clock := 0
  temp_file_sequence := 0

/-- The directory of a moved file cannot be synced. -/
def unsynced : Environment where
  fault _ phase operation :=
    if phase = .Forward ∧ operation = .SyncDirectory ["dst"] then some "Input/output error (os error 5)" else none
  written _ := 0
  process_id := 1

/-- The file is moved and moved back, and there is no resume file before and after. -/
theorem failed_move_keeps_resume_iff_rolled_back :
    let handle := StorageHandle.new one_piece ["srv"]
    let outcome := handle.move_to unsynced ["dst"] payload_fs
    outcome.1.isOk = false ∧ outcome.2.entry ["srv", "t"] = some (.File [1, 2]) ∧
      outcome.2.entry handle.resume_path = payload_fs.entry handle.resume_path := by
  intro handle outcome
  let prepared := handle.prepare_move unsynced (handle.relocated ["dst"] none) payload_fs
  have hundo : unsynced.Works .Undo := fun _ _ _ => by simp [unsynced]
  have hrolled : outcome.1.isOk = false ∧ outcome.2.entry ["srv", "t"] = some (.File [1, 2]) ∧
      prepared.1 = .ok [⟨["srv", "t"], ["dst", "t"], .Existing⟩] ∧ prepared.2.entry handle.resume_path = none ∧
      left_behind unsynced handle.resume_path [⟨["srv", "t"], ["dst", "t"], .Existing⟩]
        (remove_file unsynced .Forward handle.resume_path prepared.2).2 = false := by
    decide +kernel
  obtain ⟨hfailed, hback, hplan, hnone, hleft⟩ := hrolled
  refine ⟨hfailed, hback, ?_⟩
  rcases hrun : outcome with ⟨error | moved, after⟩
  · refine (failed_move_keeps_resume_iff unsynced hundo handle ["dst"] none payload_fs after error hrun).mpr ?_
    refine Or.inr fun plan planned hprepare => Or.inr ?_
    have hprepared : prepared = (.ok plan, planned) := hprepare
    rw [hprepared] at hplan hnone hleft
    cases hplan
    rw [hnone]
    exact hleft
  · rw [hrun] at hfailed
    cases hfailed

/-- The same torrent with its resume file. -/
def downloaded_fs : Fs :=
  { payload_fs with
    entries := put payload_fs.entries (StorageHandle.new one_piece ["srv"]).resume_path
      (some (.File (as_bytes (one_piece_json 0x80)))) }

/-- Another file system without room for the file. -/
def full_disk : Environment where
  fault _ phase operation :=
    match phase, operation with
    | .Forward, .HardLink _ _ => some "Invalid cross-device link (os error 18)"
    | .Forward, .CreateNew _ => some "No space left on device (os error 28)"
    | _, _ => none
  written _ := 0
  process_id := 1

/-- The file stays where it was, the resume file does not. -/
theorem failed_move_loses_resume :
    let handle := StorageHandle.new one_piece ["srv"]
    let outcome := handle.move_to full_disk ["dst"] downloaded_fs
    full_disk.Works .Undo ∧ (∃ error, outcome.1 = .error error) ∧
      outcome.2.entry ["srv", "t"] = downloaded_fs.entry ["srv", "t"] ∧
      downloaded_fs.entry handle.resume_path = some (.File (as_bytes (one_piece_json 0x80))) ∧
      outcome.2.entry handle.resume_path = none := by
  intro handle outcome
  refine ⟨fun _ operation _ => by cases operation <;> rfl, ?_, by decide +kernel⟩
  have hfailed : outcome.1.isOk = false := by decide +kernel
  cases hrun : outcome.1 with
  | ok moved =>
    rw [hrun] at hfailed
    cases hfailed
  | error error => exact ⟨error, rfl⟩

end

end swarmotter.storage

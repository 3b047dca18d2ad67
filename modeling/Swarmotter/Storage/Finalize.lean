import Swarmotter.Storage.Atomic

open swarmotter.meta

namespace swarmotter.storage

theorem normalize_concat (path : Path) (component : String) :
    normalize_lexical_path (path ++ [component]) =
      if component = ".." then (normalize_lexical_path path).dropLast
      else normalize_lexical_path path ++ [component] := by
  unfold normalize_lexical_path
  rw [List.foldl_append]
  rfl

section
variable {sha : Sha} {self : StorageHandle} {suffix : String} {index : Nat} {path active : Path}

/-- A file has different paths with and without the suffix. -/
theorem canonical_ne_active (hvalid : Valid sha self.torrent) (hsuffix : self.partial_file_suffix = some suffix)
    (hactive : self.file_path index = .ok active)
    (hpath : (self.relocated self.download_dir none).file_path index = .ok path) :
    normalize_lexical_path active ≠ normalize_lexical_path path := by
  obtain ⟨file, hfile, hvalidated, rfl⟩ := (file_path_eq_ok_iff hvalid).mp hactive
  have hvalid' : Valid sha (self.relocated self.download_dir none).torrent := hvalid
  obtain ⟨other, hother, -, rfl⟩ := (file_path_eq_ok_iff hvalid').mp hpath
  cases hfile.symm.trans hother
  have hmem := List.mem_of_getElem? hfile
  have hne := hvalid.files.path_ne_nil file hmem
  have hlast := hvalid.files.plain file hmem _ (List.getLast_mem hne)
  have hnonempty : suffix ≠ "" := by
    rintro rfl
    have hchecked := hvalidated "" hsuffix
    exact absurd hchecked (by decide)
  -- the two paths end in the same directory with different names
  have hcanonical : normalize_lexical_path (self.download_dir ++ file.path) =
      normalize_lexical_path (self.download_dir ++ file.path.dropLast) ++ [file.path.getLast hne] := by
    conv_lhs => rw [← List.dropLast_append_getLast hne]
    rw [← List.append_assoc, normalize_concat, if_neg hlast.ne_dotdot]
  rw [hsuffix]
  dsimp only [StorageHandle.relocated, suffixed]
  rw [hcanonical, ← List.append_assoc, normalize_concat, List.getLastD_eq_getLast?, List.getLast?_eq_some_getLast hne,
    Option.getD_some]
  split
  · intro hsame
    have hlength := congrArg List.length hsame
    rw [List.length_dropLast, List.length_append, List.length_singleton] at hlength
    omega
  · intro hsame
    have hname := List.singleton_inj.mp (List.append_cancel_left hsame)
    exact hnonempty (by simpa using hname)

end

/-! The whole change of names. -/

section
variable {env : Environment} {self destination : StorageHandle}

/-- A plan that only moves files is in order. -/
theorem inOrder_of_existing {plan : Vec MovePlanEntry} (h : ∀ entry ∈ plan, entry.kind = .Existing) : InOrder plan :=
  List.pairwise_of_forall_mem_list fun _ _ later hlater _ hkind => absurd (h later hlater) hkind

/-- Two flushes and the plan. -/
theorem prepare_move_ok (hforward : env.Works .Forward) (fs : Fs) :
    ∃ flushed, flushed.entries = fs.entries ∧
      self.prepare_move env destination fs = self.build_move_plan env destination flushed := by
  have hflush (fs : Fs) : ∃ flushed, trial.map_err IoError.core (signal env .Forward .Flush) fs = (.ok (), flushed) ∧
      flushed.Holds fs.entries := by
    obtain ⟨_, flushed, hflushed⟩ := (tries_of_true (@signal_core_tries env .Forward .Flush fs.entries True rfl
      fun _ => hforward)).succeeds rfl fun _ => id
    exact ⟨flushed, hflushed⟩
  obtain ⟨first, hfirst, hsame⟩ := hflush fs
  obtain ⟨second, hsecond, hsame'⟩ := hflush first
  refine ⟨second, hsame'.trans hsame, ?_⟩
  unfold StorageHandle.prepare_move
  rw [trial.bind_of_ok hfirst, trial.bind_of_ok hsecond]

end

namespace StorageHandle

/-- The storage of the same files under their canonical names. -/
def canonical (self : StorageHandle) : StorageHandle := self.relocated self.download_dir none

/-- No file is larger than the torrent has it. -/
def Fits (self : StorageHandle) (fs : Fs) : Prop :=
  ∀ index file active content, self.torrent.files[index]? = some file → self.file_path index = .ok active →
    fs.entry active = some (.File content) → content.length ≤ file.length

/-- No file has as its canonical path the path of another one with the suffix. -/
def NamesApart (self : StorageHandle) : Prop :=
  ∀ i j path active, i ≠ j → self.canonical.file_path i = .ok path → self.file_path j = .ok active →
    normalize_lexical_path path ≠ normalize_lexical_path active

/-- Each file gets its canonical name, and keeps its content. -/
def Finalizes (self : StorageHandle) (env : Environment) (fs : Fs) : Prop :=
  ∃ fs', self.finalize_partial_file_suffix env fs = (.ok self.canonical, fs') ∧
    ∀ index active path, self.file_path index = .ok active → self.canonical.file_path index = .ok path →
      fs'.entry path = fs.entry active

end StorageHandle

/-- All files are there under their names with the suffix, and nothing else is in the way. -/
structure AllActive (handle : StorageHandle) (fs : Fs) : Prop where
  there : ∀ index active, handle.file_path index = .ok active → ∃ content, fs.entry active = some (.File content)
  free : ∀ index path, handle.canonical.file_path index = .ok path → fs.entry path = none ∨
    ∃ other active, handle.file_path other = .ok active ∧ normalize_lexical_path active = normalize_lexical_path path

section
variable {sha : Sha} {env : Environment} {self : StorageHandle} {fs fs' : Fs} {suffix : String}

theorem file_path_ok (hvalid : Valid sha self.torrent)
    (hsuffix : ∀ suffix, self.partial_file_suffix = some suffix → validate_partial_file_suffix suffix = .ok ())
    {index : Nat}
    (hindex : index < self.torrent.files.length) : ∃ path, self.file_path index = .ok path :=
  ⟨_, (file_path_eq_ok_iff hvalid).mpr ⟨_, List.getElem?_eq_getElem hindex, hsuffix, rfl⟩⟩

theorem movable_of_fits (hvalid : Valid sha self.torrent) (hsuffix : self.partial_file_suffix = some suffix)
    (hchecked : validate_partial_file_suffix suffix = .ok ()) (hall : AllActive self fs) (hfits : self.Fits fs)
    (happart : self.NamesApart) {index : Nat} {expected : MetaFile}
    (hfile : self.torrent.files[index]? = some expected) :
    ∃ source target content, Movable self self.canonical fs.entries index expected source target content := by
  have hindex := (List.getElem?_eq_some_iff.mp hfile).1
  obtain ⟨active, hactive⟩ := file_path_ok hvalid (fun other hother => by
    cases hsuffix.symm.trans hother
    exact hchecked) hindex
  have hvalid' : Valid sha self.canonical.torrent := hvalid
  obtain ⟨path, hpath⟩ := file_path_ok hvalid' (fun _ hother => nomatch hother) hindex
  obtain ⟨content, hcontent⟩ := hall.there index active hactive
  refine ⟨active, path, content, hactive, hpath, ?_, hcontent,
    hfits index expected active content hfile hactive hcontent⟩
  rcases hall.free index path hpath with hfree | ⟨other, name, hname, hsame⟩
  · exact hfree
  · by_cases heq : index = other
    · subst heq
      cases hactive.symm.trans hname
      exact absurd hsame (canonical_ne_active hvalid hsuffix hactive hpath)
    · exact absurd hsame.symm (happart index other path name heq hpath hname)

/-- The path of every file changes. -/
theorem not_stays (hvalid : Valid sha self.torrent) (hsuffix : self.partial_file_suffix = some suffix) (index : Nat) :
    ¬Stays self self.canonical index := by
  rintro ⟨active, path, hactive, hpath, hsame⟩
  exact canonical_ne_active hvalid hsuffix hactive hpath hsame

theorem finalize_eq (hsuffix : self.partial_file_suffix = some suffix) :
    self.finalize_partial_file_suffix env = self.rewrite_partial_file_suffix env self.canonical :=
  if_neg (by rw [hsuffix]; exact nofun)

/-- What a plan that moves all files does. -/
theorem finalizes_of_plan (hsuffix : self.partial_file_suffix = some suffix) (hworks : ∀ phase, env.Works phase)
    {flushed built : Fs} (hflushed : flushed.entries = fs.entries) {plan : Vec MovePlanEntry}
    (hprepare : self.prepare_move env self.canonical fs = (.ok plan, built))
    (hbuild : self.build_move_plan env self.canonical flushed = (.ok plan, built))
    (hkinds : ∀ entry ∈ plan, entry.kind = .Existing)
    (hfound : ∀ index < self.torrent.files.length, ∃ entry ∈ plan, self.file_path index = .ok entry.source ∧
      self.canonical.file_path index = .ok entry.destination) : self.Finalizes env fs := by
  obtain ⟨hsame, -, hapart, hprepared⟩ := (build_move_plan_tries self self.canonical).ok _ _ _ rfl hbuild
  have hgood := hprepared.planned
  rw [← hsame] at hgood
  have hexecute := trial.eq_of_outcome (execute_entries_ok (hworks .Undo) (hworks .Forward) self.download_dir
    (pending_of_build hbuild (inOrder_of_existing hkinds)) .nil)
  obtain ⟨hdone, -⟩ := execute_entries_eq_ok (hworks .Undo) .nil hgood hexecute
  have hcarried := carried_of_done hdone hgood hapart
  obtain ⟨_, cleaned, hclean, hcleaned⟩ := (@cleanup_sources_tries env self _ plan).succeeds
    (rfl : (execute_entries env self.download_dir [] plan built).2.Holds _) fun _ => id
  refine ⟨cleaned, ?_, fun index active path hactive hpath => ?_⟩
  · rw [finalize_eq hsuffix, StorageHandle.rewrite_partial_file_suffix, trial.bind_of_ok hprepare]
    dsimp only [execute_move_plan]
    refine (trial.bind_of_ok hexecute).trans ?_
    rw [trial.bind_of_ok hclean]
    rfl
  · obtain ⟨entry, hentry, hsource, hdestination⟩ := hfound index (lt_length_of_file_path hactive)
    cases hactive.symm.trans hsource
    cases hpath.symm.trans hdestination
    obtain ⟨content, hfile, hthere, -⟩ := hcarried.moved entry hentry (hkinds entry hentry)
    rw [Fs.entry, hsame, hflushed] at hfile
    rw [Fs.entry, hcleaned]
    exact hthere.trans hfile.symm

/-- For a torrent that owns its paths with the suffix and without it, and whose files are all there, the suffix is taken
off exactly if no file is too large and no canonical path is the path of another file with the suffix. -/
theorem finalizes_iff {bytes : Bytes} (hparse : parse_torrent sha bytes = .ok self.torrent)
    (hsuffix : self.partial_file_suffix = some suffix) (hchecked : validate_partial_file_suffix suffix = .ok ())
    (hactive : ∃ ownership, self.path_ownership = .ok ownership)
    (hcanonical : ∃ ownership, self.canonical.path_ownership = .ok ownership) (hworks : ∀ phase, env.Works phase)
    (hall : AllActive self fs) : self.Finalizes env fs ↔ self.Fits fs ∧ self.NamesApart := by
  have hvalid := parse_torrent_valid hparse
  obtain ⟨flushed, hflushed, hprepare⟩ := @prepare_move_ok env self self.canonical (hworks .Forward) fs
  constructor
  · rintro ⟨fs', hrun, -⟩
    rw [finalize_eq hsuffix] at hrun
    obtain ⟨plan, built, hbuild, -⟩ := trial.bind_eq_ok_iff.mp hrun
    rw [hprepare] at hbuild
    rw [build_move_plan_eq hactive hcanonical rfl] at hbuild
    obtain ⟨-, -, -, hlooked⟩ := (plan_entries_tries False.elim).ok _ _ _ hflushed hbuild
    have hplanned {index : Nat} {file : MetaFile} (hfile : self.torrent.files[index]? = some file) :
        ∃ entry, PlannedAt self self.canonical fs.entries index file entry := by
      obtain ⟨entry, -, hat⟩ := (hlooked index file hfile).resolve_left (not_stays hvalid hsuffix _)
      exact ⟨entry, Nat.zero_add index ▸ hat⟩
    constructor
    · intro index file active content hfile hpath hcontent
      obtain ⟨entry, hat⟩ := hplanned hfile
      cases hpath.symm.trans hat.source
      by_cases hkind : entry.kind = .Existing
      · obtain ⟨found, hfound, hlength⟩ := hat.file hkind
        cases hcontent.symm.trans hfound
        exact hlength
      · exact nomatch (hat.missing hkind).symm.trans hcontent
    · intro i j path active _ hpath hname hsame
      have hindex : i < self.canonical.torrent.files.length := lt_length_of_file_path hpath
      obtain ⟨entry, hat⟩ := hplanned (List.getElem?_eq_getElem hindex)
      cases hpath.symm.trans hat.destination
      obtain ⟨content, hcontent⟩ := hall.there j active hname
      rw [Fs.entry, ← hsame, hat.free] at hcontent
      exact nomatch hcontent
  · rintro ⟨hfits, hapart⟩
    have hmovable {index : Nat} {file : MetaFile} (hfile : self.torrent.files[index]? = some file) :=
      movable_of_fits hvalid hsuffix hchecked hall hfits hapart hfile
    obtain ⟨plan, built, hplan, -, hentries, -, hlooked⟩ :=
      (tries_of_true (@plan_entries_tries env self self.canonical 0
      fs.entries True self.torrent.files fun _ => ⟨hworks .Forward, fun k expected hk => by
        rw [Nat.zero_add]
        exact hmovable hk⟩)).succeeds hflushed fun _ => id
    rw [← build_move_plan_eq hactive hcanonical rfl] at hplan
    refine finalizes_of_plan hsuffix hworks hflushed (hprepare.trans hplan) hplan (fun entry hentry => ?_)
      fun index hindex => ?_
    · obtain ⟨i, expected, -, hat⟩ := hentries entry hentry
      obtain ⟨_, _, content, hthere⟩ := hmovable (List.getElem?_eq_getElem (lt_length_of_file_path hat.source))
      cases hat.source.symm.trans hthere.source_eq
      by_contra hkind
      exact nomatch (hat.missing hkind).symm.trans hthere.file
    · obtain ⟨entry, hentry, hat⟩ := (hlooked index _ (List.getElem?_eq_getElem hindex)).resolve_left
        (not_stays hvalid hsuffix _)
      rw [Nat.zero_add] at hat
      exact ⟨entry, hentry, hat.source, hat.destination⟩

/-- The paths of two files. -/
theorem file_path_of_two (hlength : self.torrent.files.length = 2) {first second : Path}
    (hfirst : self.file_path 0 = .ok first) (hsecond : self.file_path 1 = .ok second) {index : Nat} {path : Path}
    (h : self.file_path index = .ok path) : index = 0 ∧ path = first ∨ index = 1 ∧ path = second := by
  have hindex := lt_length_of_file_path h
  rw [hlength] at hindex
  match index, hindex with
  | 0, _ => exact .inl ⟨rfl, Except.ok.inj (h.symm.trans hfirst)⟩
  | 1, _ => exact .inr ⟨rfl, Except.ok.inj (h.symm.trans hsecond)⟩

end

/-- The storage of what is parsed from an info dictionary with these files, with the suffix `.part`. -/
def suffixed_handle (info : String) (files : Vec MetaFile) : StorageHandle :=
  let hash : InfoHash := ⟨Sha.leading.sha1 (as_bytes info)⟩
  { handle_of files "srv" (some ".part") with
    torrent := { one_piece with
      info_hash := hash
      identity := .V1 hash
      pieces := [Vector.replicate 20 97]
      files
      is_multi_file := true
      raw_info := some (as_bytes info) } }

def chained_info : String :=
  "d5:filesld6:lengthi1e4:pathl6:x.parteed6:lengthi1e4:pathl1:xeee4:name1:t" ++
    "12:piece lengthi2e6:pieces20:aaaaaaaaaaaaaaaaaaaae"

def named_info : String :=
  "d5:filesld6:lengthi1e4:pathl1:aeed6:lengthi1e4:pathl1:beee4:name1:t" ++
    "12:piece lengthi2e6:pieces20:aaaaaaaaaaaaaaaaaaaae"

/-- The second file has with its suffix the name of the first one, which is taken for an occupied place. -/
theorem suffix_not_taken_off :
    let self := suffixed_handle chained_info chained
    let fs := fs_of [(["srv", "t", "x.part.part"], [7]), (["srv", "t", "x.part"], [8])]
    parse_torrent Sha.leading (as_bytes ("d4:info" ++ chained_info ++ "e")) = .ok self.torrent ∧
      validate_partial_file_suffix ".part" = .ok () ∧
      (∃ ownership, self.path_ownership = .ok ownership) ∧
      (∃ ownership, self.canonical.path_ownership = .ok ownership) ∧ (∀ phase, (failing []).Works phase) ∧
      AllActive self fs ∧ (self.finalize_partial_file_suffix (failing []) fs).1 =
        .error (.Storage "destination file already exists while moving torrent data: /srv/t/x.part") := by
  intro self fs
  have hlength : self.torrent.files.length = 2 := by decide +kernel
  have hfirst : self.file_path 0 = .ok ["srv", "t", "x.part.part"] := by decide +kernel
  have hsecond : self.file_path 1 = .ok ["srv", "t", "x.part"] := by decide +kernel
  have hactive := @path_ownership_ok self (by decide +kernel)
  have hcanonical := @path_ownership_ok self.canonical (by decide +kernel)
  refine ⟨by decide +kernel, by decide, hactive, hcanonical, failing_nil_works, ⟨?_, ?_⟩, ?_⟩
  · intro index active h
    obtain ⟨-, rfl⟩ | ⟨-, rfl⟩ := file_path_of_two hlength hfirst hsecond h
    · exact ⟨[7], by decide +kernel⟩
    · exact ⟨[8], by decide +kernel⟩
  · intro index path h
    obtain ⟨-, rfl⟩ | ⟨-, rfl⟩ := @file_path_of_two self.canonical hlength ["srv", "t", "x.part"] ["srv", "t", "x"]
      (by decide +kernel) (by decide +kernel) index path h
    · exact .inr ⟨1, _, hsecond, rfl⟩
    · exact .inl (by decide +kernel)
  · have hplan : self.build_move_plan (failing []) (self.relocated self.download_dir none) =
        self.plan_entries (failing []) (self.relocated self.download_dir none) 0 self.torrent.files :=
      funext fun fs => build_move_plan_eq hactive hcanonical rfl fs
    unfold StorageHandle.finalize_partial_file_suffix StorageHandle.rewrite_partial_file_suffix
      StorageHandle.prepare_move
    rw [hplan]
    decide +kernel

/-- Two files lose their suffix. -/
theorem finalizes_iff_two_files :
    (suffixed_handle named_info two_named).Finalizes (failing [])
      (fs_of [(["srv", "t", "a.part"], [7]), (["srv", "t", "b.part"], [8])]) := by
  let self := suffixed_handle named_info two_named
  have hlength : self.torrent.files.length = 2 := by decide +kernel
  have hlengths : self.torrent.files.map MetaFile.length = [1, 1] := by decide +kernel
  have hfirst : self.file_path 0 = .ok ["srv", "t", "a.part"] := by decide +kernel
  have hsecond : self.file_path 1 = .ok ["srv", "t", "b.part"] := by decide +kernel
  have hcanonical {index : Nat} {path : Path} (h : self.canonical.file_path index = .ok path) :
      index = 0 ∧ path = ["srv", "t", "a"] ∨ index = 1 ∧ path = ["srv", "t", "b"] :=
    @file_path_of_two self.canonical hlength _ _ (by decide +kernel) (by decide +kernel) index path h
  have hparse : parse_torrent Sha.leading (as_bytes ("d4:info" ++ named_info ++ "e")) = .ok self.torrent := by
    decide +kernel
  refine (finalizes_iff hparse rfl (by decide) (path_ownership_ok (by decide +kernel))
    (path_ownership_ok (by decide +kernel)) failing_nil_works ⟨?_, ?_⟩).mpr ⟨?_, ?_⟩
  · intro index active h
    obtain ⟨-, rfl⟩ | ⟨-, rfl⟩ := file_path_of_two hlength hfirst hsecond h
    · exact ⟨[7], by decide +kernel⟩
    · exact ⟨[8], by decide +kernel⟩
  · intro index path h
    obtain ⟨-, rfl⟩ | ⟨-, rfl⟩ := hcanonical h
    · exact .inl (by decide +kernel)
    · exact .inl (by decide +kernel)
  · intro index file active content hfile h hcontent
    have hone : file.length = 1 := by
      have hmem := List.mem_map_of_mem (f := MetaFile.length) (List.mem_of_getElem? hfile)
      rw [hlengths] at hmem
      simpa using hmem
    obtain ⟨-, rfl⟩ | ⟨-, rfl⟩ := file_path_of_two hlength hfirst hsecond h
    · cases hcontent.symm.trans (show _ = some (.File [7]) by decide +kernel)
      exact Nat.le_of_eq hone.symm
    · cases hcontent.symm.trans (show _ = some (.File [8]) by decide +kernel)
      exact Nat.le_of_eq hone.symm
  · intro i j path active _ hpath h
    obtain ⟨-, rfl⟩ | ⟨-, rfl⟩ := file_path_of_two hlength hfirst hsecond h <;>
      obtain ⟨-, rfl⟩ | ⟨-, rfl⟩ := hcanonical hpath <;> decide +kernel

end swarmotter.storage

import Swarmotter.Lib.Trial
import Swarmotter.Storage.Disk

open trial

namespace swarmotter.storage

/-- An error of the operating system. The code only looks at whether something was not found. -/
inductive IoError where
  | NotFound
  | Other (text : String)
  deriving DecidableEq, Repr

def IoError.to_string : IoError → String
  | .NotFound => "No such file or directory (os error 2)"
  | .Other text => text

instance : ToString IoError := ⟨IoError.to_string⟩

/-- `CoreError::from`. -/
def IoError.core (error : IoError) : CoreError := .Io error.to_string

/-- What lies under a path: a regular file, or a directory or special file. -/
inductive Entry where
  | File (content : Bytes)
  | Other
  deriving DecidableEq, Repr

abbrev Entries := Path → Option Entry

/-- The calls of the operating system. -/
inductive Operation where
  | Flush
  | Metadata (path : Path)
  | CreateDirAll (path : Path)
  | RemoveDir (path : Path)
  | HardLink (source destination : Path)
  | Remove (path : Path)
  | Rename (source destination : Path)
  | Open (path : Path)
  | CreateNew (path : Path)
  | Write (path : Path)
  | SetPermissions (path : Path)
  | SyncFile (path : Path)
  | SyncDirectory (path : Path)
  deriving DecidableEq

/-- Whether a call does the work of a function, or takes back what the function did before. -/
inductive Phase where
  | Forward
  | Undo
  deriving DecidableEq

/-- What the operating system decides: which calls fail and with what text, told by their number, and how
    much a failed write has written. A call that misses a directory is one that fails. -/
structure Environment where
  fault : Nat → Phase → Operation → Option String
  written : Nat → Nat
  process_id : Nat

/-- The file system under its normalized paths, which no symbolic link aliases. Directories that are made or
    removed on the way are not followed. -/
structure Fs where
  entries : Entries
  clock : Nat
  temp_file_sequence : Nat

abbrev FsM (α : Type) := Trial Fs CoreError α

/-- A call of the operating system. -/
abbrev IoM (α : Type) := Trial Fs IoError α

/-- An absolute path has a root, so a `..` there is dropped. -/
def normalize_lexical_path (path : Path) : Path :=
  path.foldl (fun normalized component =>
    if component = ".." then normalized.dropLast else normalized ++ [component]) []

/-- `Path::parent`. -/
def parent (path : Path) : Option Path := if path = [] then none else some path.dropLast

/-- `Path::display`. -/
def display (path : Path) : String := "/" ++ "/".intercalate path

def Fs.entry (fs : Fs) (path : Path) : Option Entry := fs.entries (normalize_lexical_path path)

/-- The file system with something else, or nothing, under one path. -/
def put (entries : Entries) (path : Path) (entry : Option Entry) : Entries :=
  Function.update entries (normalize_lexical_path path) entry

section
variable (env : Environment) (phase : Phase)

/-- A call that fails as the environment wants it to, and otherwise acts on the entries. -/
def call {α : Type} (operation : Operation) (act : Entries → Except IoError (α × Entries)) : IoM α := fun fs =>
  match env.fault fs.clock phase operation with
  | some text => (.error (.Other text), { fs with clock := fs.clock + 1 })
  | none =>
    match act fs.entries with
    | .ok (value, entries) => (.ok value, { fs with entries := entries, clock := fs.clock + 1 })
    | .error error => (.error error, { fs with clock := fs.clock + 1 })

/-- A call that does not change what files there are. -/
def signal (operation : Operation) : IoM Unit := call env phase operation fun entries => .ok ((), entries)

def symlink_metadata (path : Path) : IoM Entry :=
  call env phase (.Metadata path) fun entries =>
    match entries (normalize_lexical_path path) with
    | some entry => .ok (entry, entries)
    | none => .error .NotFound

def create_dir_all (path : Path) : IoM Unit := signal env phase (.CreateDirAll path)

def remove_dir (path : Path) : IoM Unit := signal env phase (.RemoveDir path)

def hard_link (source destination : Path) : IoM Unit :=
  call env phase (.HardLink source destination) fun entries =>
    match entries (normalize_lexical_path source), entries (normalize_lexical_path destination) with
    | none, _ => .error .NotFound
    | some .Other, _ => .error (.Other "Operation not permitted (os error 1)")
    | some (.File _), some _ => .error (.Other "File exists (os error 17)")
    | some (.File content), none => .ok ((), put entries destination (some (.File content)))

def remove_file (path : Path) : IoM Unit :=
  call env phase (.Remove path) fun entries =>
    match entries (normalize_lexical_path path) with
    | none => .error .NotFound
    | some .Other => .error (.Other "Is a directory (os error 21)")
    | some (.File _) => .ok ((), put entries path none)

/-- `fs::rename` replaces a file that is there. -/
def rename (source destination : Path) : IoM Unit :=
  call env phase (.Rename source destination) fun entries =>
    match entries (normalize_lexical_path source), entries (normalize_lexical_path destination) with
    | none, _ => .error .NotFound
    | some .Other, _ => .error (.Other "Operation not permitted (os error 1)")
    | some (.File _), some .Other => .error (.Other "Is a directory (os error 21)")
    | some (.File content), _ => .ok ((), put (put entries source none) destination (some (.File content)))

/-- `File::open` with all that is read from the file, also `fs::read`. -/
def read (path : Path) : IoM Bytes :=
  call env phase (.Open path) fun entries =>
    match entries (normalize_lexical_path path) with
    | none => .error .NotFound
    | some .Other => .error (.Other "Is a directory (os error 21)")
    | some (.File content) => .ok (content, entries)

/-- `OpenOptions::create_new`. -/
def create_new (path : Path) : IoM Unit :=
  call env phase (.CreateNew path) fun entries =>
    match entries (normalize_lexical_path path) with
    | some _ => .error (.Other "File exists (os error 17)")
    | none => .ok ((), put entries path (some (.File [])))

/-- Write all bytes to a new file. A failed write leaves some of them. -/
def write_all (path : Path) (data : Bytes) : IoM Unit := fun fs =>
  match env.fault fs.clock phase (.Write path) with
  | some text => (.error (.Other text), { fs with
      entries := put fs.entries path (some (.File (data.take (env.written fs.clock))))
      clock := fs.clock + 1 })
  | none => (.ok (), { fs with entries := put fs.entries path (some (.File data)), clock := fs.clock + 1 })

def set_permissions (path : Path) : IoM Unit := signal env phase (.SetPermissions path)

def sync_file (path : Path) : IoM Unit := signal env phase (.SyncFile path)

/-- Sync the directory that a path lies in. -/
def sync_parent_directory (path : Path) : FsM Unit :=
  match parent path with
  | none => pure ()
  | some parent => map_err IoError.core (signal env phase (.SyncDirectory parent))

/-- Make the directory that a path lies in. -/
def create_parent_directory (path : Path) : FsM Unit :=
  match parent path with
  | none => pure ()
  | some parent => map_err IoError.core (create_dir_all env phase parent)

def path_lexists (path : Path) : FsM Bool := do
  match ← attempt (symlink_metadata env phase path) with
  | .ok _ => pure true
  | .error .NotFound => pure false
  | .error error => lift (.error error.core)

end

/-- A name for a new file beside another one. -/
def temporary_sibling_path (env : Environment) (path : Path) (kind : String) : FsM Path := do
  let name ← lift (ok_or (file_name path) (.Storage s!"path has no file name: {display path}"))
  let sequence ← get Fs.temp_file_sequence
  modify fun fs => { fs with temp_file_sequence := fs.temp_file_sequence + 1 }
  pure (set_file_name path (name ++ s!".{kind}-{env.process_id}-{sequence}"))

section
variable {env : Environment} {phase : Phase} {fs fs' : Fs} {α : Type}

@[simp] theorem put_self (entries : Entries) (path : Path) (entry : Option Entry) :
    put entries path entry (normalize_lexical_path path) = entry :=
  Function.update_self _ _ _

variable {entries : Entries} {path : Path} {entry : Option Entry}

theorem put_of_ne {other : Path} (h : other ≠ normalize_lexical_path path) :
    put entries path entry other = entries other :=
  Function.update_of_ne h _ _

theorem put_put (entries : Entries) (path : Path) (first second : Option Entry) :
    put (put entries path first) path second = put entries path second :=
  Function.update_idem _ _ _

theorem put_eq_self (h : entries (normalize_lexical_path path) = entry) : put entries path entry = entries := by
  rw [put, ← h, Function.update_eq_self]

theorem put_comm {other : Path} {entry' : Option Entry}
    (h : normalize_lexical_path path ≠ normalize_lexical_path other) :
    put (put entries path entry) other entry' = put (put entries other entry') path entry :=
  Function.update_comm h _ _ _

/-! What the calls do. Of a failure it is only said that it changes nothing, and when it does not happen. -/

/-- Calls whose failure the code gets over: a link is replaced by a copy, and a directory may stay. -/
def Operation.has_fallback : Operation → Bool
  | .HardLink _ _ | .RemoveDir _ => true
  | _ => false

/-- Every call of a phase that needs to work does. -/
def Environment.Works (env : Environment) (phase : Phase) : Prop :=
  ∀ clock operation, operation.has_fallback = false → env.fault clock phase operation = none

/-- The files are the given ones. -/
def Fs.Holds (before : Entries) (fs : Fs) : Prop := fs.entries = before

/-- They still are, since something could not be done. -/
def Fs.Kept (before : Entries) (can : Prop) (fs : Fs) : Prop := fs.entries = before ∧ ¬can

variable {operation : Operation} {before : Entries} {can : Prop}

theorem call_eq_ok_iff {act : Entries → Except IoError (α × Entries)} {value : α} :
    call env phase operation act fs = (.ok value, fs') ↔ env.fault fs.clock phase operation = none ∧
      ∃ entries, act fs.entries = .ok (value, entries) ∧
        fs' = { fs with entries := entries, clock := fs.clock + 1 } := by
  unfold call
  cases hfault : env.fault fs.clock phase operation with
  | some text => simp
  | none =>
    cases hact : act fs.entries with
    | ok out =>
      obtain ⟨first, entries⟩ := out
      simp only [Prod.mk.injEq, Except.ok.injEq, true_and]
      constructor
      · rintro ⟨rfl, rfl⟩
        exact ⟨entries, ⟨rfl, rfl⟩, rfl⟩
      · rintro ⟨_, ⟨rfl, rfl⟩, rfl⟩
        exact ⟨rfl, rfl⟩
    | error error => simp

theorem read_eq_ok_iff {content : Bytes} :
    read env phase path fs = (.ok content, fs') ↔ env.fault fs.clock phase (.Open path) = none ∧
      fs.entry path = some (.File content) ∧ fs' = { fs with clock := fs.clock + 1 } := by
  rw [read, call_eq_ok_iff, Fs.entry]
  apply and_congr_right
  intro _
  cases fs.entries (normalize_lexical_path path) with
  | none => simp
  | some entry =>
    cases entry with
    | Other => simp
    | File found =>
      simp only [Except.ok.injEq, Prod.mk.injEq, Option.some.injEq, Entry.File.injEq]
      constructor
      · rintro ⟨_, ⟨rfl, rfl⟩, rfl⟩
        exact ⟨rfl, rfl⟩
      · rintro ⟨rfl, rfl⟩
        exact ⟨_, ⟨rfl, rfl⟩, rfl⟩

/-- A call either acts, or leaves the entries alone because it was made to fail or cannot act. -/
theorem call_tries {act : Entries → Except IoError (α × Entries)} {post : α → Fs → Prop}
    (hok : ∀ value entries, act before = .ok (value, entries) → ∀ after, Fs.Holds entries after → post value after)
    (hcan : can → (∀ clock, env.fault clock phase operation = none) ∧ ∀ error, act before ≠ .error error) :
    Tries (Fs.Holds before) (call env phase operation act) post (Fs.Kept before can) := by
  constructor
  · rintro fs value after rfl h
    obtain ⟨-, entries, hact, rfl⟩ := call_eq_ok_iff.mp h
    exact hok value entries hact _ rfl
  · rintro fs error after rfl h
    unfold call at h
    cases hfault : env.fault fs.clock phase operation with
    | some text =>
      rw [hfault] at h
      cases h
      exact ⟨rfl, fun hyes => nomatch ((hcan hyes).1 _).symm.trans hfault⟩
    | none =>
      rw [hfault] at h
      cases hact : act fs.entries with
      | ok out =>
        rw [hact] at h
        cases h
      | error error =>
        rw [hact] at h
        cases h
        exact ⟨rfl, fun hyes => (hcan hyes).2 error hact⟩

/-- A call that can do its work does not fail. -/
theorem tries_of_true {ε : Type} {pre : Fs → Prop} {op : Trial Fs ε α} {post : α → Fs → Prop}
    (h : Tries pre op post (Fs.Kept before True)) : Tries pre op post fun _ => False :=
  h.weaken (fun _ _ hfs => hfs) fun _ hfs => hfs.2 trivial

/-- The files stay as they are, and the call fails only if it cannot do its work. -/
abbrev Leaves {ε : Type} (before : Entries) (can : Prop) (op : Trial Fs ε α) : Prop :=
  Tries (Fs.Holds before) op (fun _ => Fs.Holds before) (Fs.Kept before can)

theorem keeps_of_tries {ε : Type} {op : Trial Fs ε α} (h : Leaves before can op) : Keeps (Fs.Holds before) op :=
  (h.weaken (fun _ _ hfs => hfs) fun _ hfs => hfs.1).leads

theorem signal_tries (hcan : can → ∀ clock, env.fault clock phase operation = none) :
    Leaves before can (signal env phase operation) :=
  call_tries (by rintro _ _ ⟨⟩ after hafter; exact hafter) fun hyes => ⟨hcan hyes, nofun⟩

theorem signal_core_tries (hneeded : operation.has_fallback = false) (hcan : can → env.Works phase) :
    Leaves before can (map_err IoError.core (signal env phase operation)) :=
  (signal_tries fun hyes clock => hcan hyes clock operation hneeded).map_err

theorem signal_core_eq (fs : Fs) : map_err IoError.core (signal env phase operation) fs =
    (match env.fault fs.clock phase operation with
    | none => .ok ()
    | some text => .error (.Io text), { fs with clock := fs.clock + 1 }) := by
  unfold map_err signal call
  cases env.fault fs.clock phase operation <;> rfl

theorem sync_parent_directory_tries (hcan : can → env.Works phase) (path : Path) :
    Leaves before can (sync_parent_directory env phase path) := by
  unfold sync_parent_directory
  cases parent path with
  | none => exact .pure fun _ hfs => hfs
  | some directory => exact signal_core_tries rfl hcan

theorem create_parent_directory_tries (hcan : can → env.Works phase) (path : Path) :
    Leaves before can (create_parent_directory env phase path) := by
  unfold create_parent_directory
  cases parent path with
  | none => exact .pure fun _ hfs => hfs
  | some directory => exact signal_core_tries rfl hcan

/-- What lies under the path, if anything does. -/
theorem symlink_metadata_cases {result : Except IoError Entry}
    (h : symlink_metadata env phase path fs = (result, fs')) : fs'.entries = fs.entries ∧
      match result with
      | .ok entry => fs.entry path = some entry
      | .error .NotFound => fs.entry path = none
      | .error (.Other _) => env.fault fs.clock phase (.Metadata path) ≠ none := by
  unfold symlink_metadata call at h
  unfold Fs.entry
  cases hfault : env.fault fs.clock phase (.Metadata path) with
  | some text =>
    rw [hfault] at h
    cases h
    exact ⟨rfl, nofun⟩
  | none =>
    rw [hfault] at h
    cases hfound : fs.entries (normalize_lexical_path path) <;> simp only [hfound] at h <;> cases h <;> exact ⟨rfl, rfl⟩

/-- Whether a path is taken. -/
theorem path_lexists_tries (hcan : can → env.Works phase) (path : Path) :
    Tries (Fs.Holds before) (path_lexists env phase path)
      (fun taken fs => fs.Holds before ∧ (taken = false ↔ before (normalize_lexical_path path) = none))
      (Fs.Kept before can) := by
  refine .of_forall fun fs hfs => ?_
  subst hfs
  rcases hmetadata : symlink_metadata env phase path fs with ⟨result, looked⟩
  obtain ⟨hentries, hresult⟩ := symlink_metadata_cases hmetadata
  refine .of_eq (?_ : Tries (fun other => other = looked) _ _ _) rfl (attempt_bind hmetadata)
  rcases result with (_ | text) | entry <;> dsimp only at hresult ⊢
  · exact .pure fun _ heq => ⟨heq ▸ hentries, iff_of_true rfl hresult⟩
  · exact .lift_error fun _ heq => ⟨heq ▸ hentries, fun hyes => hresult (hcan hyes _ _ rfl)⟩
  · exact .pure fun _ heq => ⟨heq ▸ hentries, iff_of_false nofun fun hnone => nomatch hnone.symm.trans hresult⟩

theorem remove_file_tries
    (hcan : can → env.Works phase ∧ ∃ content, before (normalize_lexical_path path) = some (.File content)) :
    Tries (Fs.Holds before) (remove_file env phase path) (fun _ => Fs.Holds (put before path none))
      (Fs.Kept before can) := by
  apply call_tries
  · intro _ entries hact after hafter
    rcases hfound : before (normalize_lexical_path path) with _ | content | _ <;>
      simp only [hfound] at hact <;> cases hact
    exact hafter
  · intro hyes
    obtain ⟨hworks, content, hfile⟩ := hcan hyes
    exact ⟨fun _ => hworks _ _ rfl, by simp [hfile]⟩

theorem hard_link_tries (source destination : Path) :
    Tries (Fs.Holds before) (hard_link env phase source destination)
      (fun _ fs => ∃ content, before (normalize_lexical_path source) = some (.File content) ∧
        before (normalize_lexical_path destination) = none ∧
        fs.Holds (put before destination (some (.File content)))) (Fs.Kept before False) := by
  apply call_tries
  · intro _ entries hact after hafter
    rcases hsource : before (normalize_lexical_path source) with _ | content | _ <;>
      rcases hdestination : before (normalize_lexical_path destination) with _ | _ <;>
      simp only [hsource, hdestination] at hact <;> cases hact
    exact ⟨content, rfl, rfl, hafter⟩
  · exact False.elim

/-- A file that was renamed holds its content under the new name. -/
theorem rename_tries (source destination : Path) :
    Tries (Fs.Holds before) (rename env phase source destination)
      (fun _ fs => ∃ content, before (normalize_lexical_path source) = some (.File content) ∧
        fs.Holds (put (put before source none) destination (some (.File content)))) (Fs.Kept before False) := by
  apply call_tries
  · intro _ entries hact after hafter
    rcases hsource : before (normalize_lexical_path source) with _ | content | _ <;>
      rcases hdestination : before (normalize_lexical_path destination) with _ | _ | _ <;>
      simp only [hsource, hdestination] at hact <;> cases hact <;> exact ⟨content, rfl, hafter⟩
  · exact False.elim

theorem create_new_tries (hcan : can → env.Works phase ∧ before (normalize_lexical_path path) = none) :
    Tries (Fs.Holds before) (create_new env phase path)
      (fun _ fs => before (normalize_lexical_path path) = none ∧ fs.Holds (put before path (some (.File []))))
      (Fs.Kept before can) := by
  apply call_tries
  · intro _ entries hact after hafter
    cases hfound : before (normalize_lexical_path path) <;> simp only [hfound] at hact <;> cases hact
    exact ⟨rfl, hafter⟩
  · intro hyes
    obtain ⟨hworks, hfree⟩ := hcan hyes
    exact ⟨fun _ => hworks _ _ rfl, by simp [hfree]⟩

theorem read_tries
    (hcan : can → env.Works phase ∧ ∃ content, before (normalize_lexical_path path) = some (.File content)) :
    Tries (Fs.Holds before) (read env phase path)
      (fun content fs => before (normalize_lexical_path path) = some (.File content) ∧ fs.Holds before)
      (Fs.Kept before can) := by
  apply call_tries
  · intro content entries hact after hafter
    rcases hfound : before (normalize_lexical_path path) with _ | found | _ <;>
      simp only [hfound] at hact <;> cases hact
    exact ⟨rfl, hafter⟩
  · intro hyes
    obtain ⟨hworks, content, hfile⟩ := hcan hyes
    exact ⟨fun _ => hworks _ _ rfl, by simp [hfile]⟩

theorem write_all_tries (hcan : can → env.Works phase) (path : Path) (data : Bytes) :
    Tries (Fs.Holds before) (write_all env phase path data) (fun _ => Fs.Holds (put before path (some (.File data))))
      (fun fs => (∃ part, fs.Holds (put before path (some (.File part)))) ∧ ¬can) := by
  constructor <;> rintro fs _ after rfl h <;> unfold write_all at h <;> split at h <;> cases h
  · rfl
  · rename_i hfault
    exact ⟨⟨_, rfl⟩, fun hyes => nomatch (hcan hyes _ _ rfl).symm.trans hfault⟩

end

end swarmotter.storage

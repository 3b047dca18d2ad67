import Mathlib.Data.List.Lex
import Mathlib.Data.String.Basic
import Swarmotter.Storage.Resume

open swarmotter.meta trial

namespace swarmotter.storage

inductive MoveEntryKind where
  | Existing
  | CreateEmpty
  | Absent
  deriving DecidableEq

structure MovePlanEntry where
  source : Path
  destination : Path
  kind : MoveEntryKind
  deriving DecidableEq

/-- The paths that a torrent owns. -/
structure StoragePathOwnership where
  key : TorrentKey
  base_dir : Path
  payload_paths : Vec Path
  resume_path : Path

def paths_overlap (left right : Path) : Bool := left = right || right.isPrefixOf left || left.isPrefixOf right

namespace StorageHandle

/-- The loop of `path_ownership`, with the paths before. -/
def collect_payload_paths (self : StorageHandle) : Vec Path → Vec Nat → Result (Vec Path)
  | payload_paths, [] => pure payload_paths
  | payload_paths, index :: rest => do
    let path ← self.file_path index
    let path := normalize_lexical_path path
    match payload_paths.find? fun existing => paths_overlap existing path with
    | some existing => .error (.Storage
        (s!"overlapping payload paths owned by torrent {self.torrent_key.to_locator}: " ++
          s!"{display existing} and {display path}"))
    | none => self.collect_payload_paths (payload_paths ++ [path]) rest

/-- Every payload and resume path of the torrent, none of which lies in another. -/
def path_ownership (self : StorageHandle) : Result StoragePathOwnership := do
  let _ ← validate_path_component self.torrent.name
  let payload_paths ← self.collect_payload_paths [] (List.range self.torrent.files.length)
  let payload_paths := payload_paths.mergeSort fun left right => decide (left ≤ right)
  let resume_path := normalize_lexical_path self.resume_path
  match payload_paths.find? fun payload_path => paths_overlap payload_path resume_path with
  | some payload_path => .error (.Storage
      (s!"payload path collides with fast-resume path for torrent {self.torrent_key.to_locator}: " ++
        s!"{display payload_path} and {display resume_path}"))
  | none => pure ⟨self.torrent_key, normalize_lexical_path self.download_dir, payload_paths, resume_path⟩

/-- Whether both handles have the same storage root. -/
def shares_storage_root_with (self other : StorageHandle) : Bool :=
  normalize_lexical_path self.download_dir = normalize_lexical_path other.download_dir

/-- The handle of the torrent under another root. -/
def relocated (self : StorageHandle) (destination_dir : Path) (partial_file_suffix : Option String) :
    StorageHandle where
  torrent := self.torrent
  download_dir := destination_dir
  partial_file_suffix := partial_file_suffix
  torrent_key := self.torrent_key
  resume_dir := self.resume_dir

end StorageHandle

section
variable (env : Environment)

/-- What a failed cleanup adds to the message of a failed move. -/
def cleanup_note : Except IoError Unit → String
  | .ok _ => ""
  | .error cleanup => s!"; destination cleanup failed: {cleanup}"

/-- The part of `copy_file_exclusive` that fills the new file. Nothing else writes to the source, so the copy
    has its length. -/
def copy_content (phase : Phase) (destination_path : Path) (content : Bytes) : FsM Unit := do
  map_err IoError.core (write_all env phase destination_path content)
  map_err IoError.core (signal env phase .Flush)
  map_err IoError.core (set_permissions env phase destination_path)
  map_err IoError.core (sync_file env phase destination_path)

/-- Remove the source of a file that has reached its place. If that fails, the new file is removed again. -/
def remove_moved_source (phase : Phase) (source destination : Path)
    (message : IoError → Except IoError Unit → CoreError) : FsM Unit := do
  match ← attempt (remove_file env phase source) with
  | .ok _ => pure ()
  | .error error => do
    let cleanup ← attempt (remove_file env .Undo destination)
    lift (.error (message error cleanup))

def copy_file_exclusive (phase : Phase) (source_path destination_path : Path) (link_error : IoError) : FsM Unit := do
  let content ← map_err IoError.core (read env phase source_path)
  map_err IoError.core (signal env phase (.Metadata source_path))
  match ← attempt (create_new env phase destination_path) with
  | .error error => lift (.error (.Storage
      (s!"failed to move {display source_path} to {display destination_path}: link failed ({link_error}); " ++
        s!"exclusive copy create failed ({error})")))
  | .ok _ =>
    match ← attempt (copy_content env phase destination_path content) with
    | .error error => do
      let _ ← attempt (remove_file env .Undo destination_path)
      lift (.error error)
    | .ok _ =>
      remove_moved_source env phase source_path destination_path fun error cleanup => .Storage
        (s!"copied {display source_path} to {display destination_path} but failed to remove source: " ++
          s!"{error}{cleanup_note cleanup}")

/-- Move a file to a path that is free, by a link where that works and by a copy otherwise. -/
def move_file_exclusive (phase : Phase) (source destination : Path) : FsM Unit := do
  match ← path_lexists env phase destination with
  | true => lift (.error (.Storage s!"destination file already exists: {display destination}"))
  | false =>
    match ← attempt (hard_link env phase source destination) with
    | .error link_error => copy_file_exclusive env phase source destination link_error
    | .ok _ =>
      remove_moved_source env phase source destination fun error cleanup => .Storage
        (s!"failed to remove source {display source} after linking to {display destination}: " ++
          s!"{error}{cleanup_note cleanup}")

/-- A file whose sync fails stays. -/
def create_empty_file_exclusive (path : Path) : FsM Unit := do
  map_err IoError.core (create_new env .Forward path)
  map_err IoError.core (sync_file env .Forward path)

def ensure_move_path_absent (path : Path) (role : String) : FsM Unit := do
  match ← path_lexists env .Forward path with
  | true => lift (.error (.Storage s!"{role} file appeared after move preflight: {display path}"))
  | false => pure ()

def sync_move_entry_parents (phase : Phase) (entry : MovePlanEntry) : FsM Unit :=
  match entry.kind with
  | .Existing => do
    sync_parent_directory env phase entry.source
    if parent entry.source ≠ parent entry.destination then sync_parent_directory env phase entry.destination
    else pure ()
  | .CreateEmpty => sync_parent_directory env phase entry.destination
  | .Absent => pure ()

/-- The loop of `cleanup_empty_parents`: up the directories until one cannot be removed. -/
def remove_empty_directories (phase : Phase) (stop_at : Path) : Nat → Path → FsM Unit
  | 0, _ => pure ()
  | fuel + 1, current =>
    if current = stop_at then pure ()
    else do
      match ← attempt (remove_dir env phase current) with
      | .error _ => pure ()
      | .ok _ =>
        if current = [] then pure ()
        else remove_empty_directories phase stop_at fuel current.dropLast

def cleanup_empty_parents (phase : Phase) (directory : Option Path) (stop_at : Path) : FsM Unit :=
  match directory with
  | none => pure ()
  | some current => remove_empty_directories env phase stop_at (current.length + 1) current

/-- Take one completed entry back. -/
def rollback_entry (entry : MovePlanEntry) : FsM Unit := do
  match entry.kind with
  | .Existing => move_file_exclusive env .Undo entry.destination entry.source
  | .CreateEmpty =>
    match ← attempt (remove_file env .Undo entry.destination) with
    | .ok _ => pure ()
    | .error .NotFound => pure ()
    | .error error => lift (.error error.core)
  | .Absent => pure ()

/-- The loop of `rollback_move_plan` over the completed entries, the last one first. -/
def rollback_entries (target_root : Path) : Vec MovePlanEntry → FsM (Vec String)
  | [] => pure []
  | entry :: rest => do
    let result ← attempt (rollback_entry env entry >>= fun _ => sync_move_entry_parents env .Undo entry)
    cleanup_empty_parents env .Undo (parent entry.destination) target_root
    let rollback_failures ← rollback_entries target_root rest
    pure (match result with
      | .ok _ => rollback_failures
      | .error error =>
        s!"{display entry.destination} -> {display entry.source}: {error}" :: rollback_failures)

def rollback_move_plan (completed : Vec MovePlanEntry) (target_root : Path) (original : CoreError) : FsM Unit := do
  let rollback_failures ← rollback_entries env target_root completed.reverse
  lift (.error (
    if rollback_failures = [] then original
    else .Storage (s!"{original}; move rollback also failed: " ++ "; ".intercalate rollback_failures)))

/-- What `execute_move_plan` does for an entry before it counts as completed. -/
def place_entry (entry : MovePlanEntry) : FsM Unit :=
  match entry.kind with
  | .Absent => do
    ensure_move_path_absent env entry.source "source"
    ensure_move_path_absent env entry.destination "destination"
  | .CreateEmpty => do
    ensure_move_path_absent env entry.source "source"
    create_parent_directory env .Forward entry.destination
    create_empty_file_exclusive env entry.destination
  | .Existing => do
    create_parent_directory env .Forward entry.destination
    move_file_exclusive env .Forward entry.source entry.destination

/-- The loop of `execute_move_plan`, with the entries that were completed before. -/
def execute_entries (target_root : Path) : Vec MovePlanEntry → Vec MovePlanEntry → FsM Unit
  | _, [] => pure ()
  | completed, entry :: rest => do
    match ← attempt (place_entry env entry) with
    | .error error => rollback_move_plan env completed target_root error
    | .ok _ =>
      if entry.kind = .Absent then execute_entries target_root completed rest
      else
        match ← attempt (sync_move_entry_parents env .Forward entry) with
        | .error error => rollback_move_plan env (completed ++ [entry]) target_root error
        | .ok _ => execute_entries target_root (completed ++ [entry]) rest

def execute_move_plan (plan : Vec MovePlanEntry) (target_root : Path) : FsM Unit :=
  execute_entries env target_root [] plan

end

namespace StorageHandle

section
variable (env : Environment)

/-- The fate of one file, if its path changes. -/
def plan_entry (self destination : StorageHandle) (index : Nat) (expected : MetaFile) :
    FsM (Option MovePlanEntry) := do
  let source ← lift (self.file_path index)
  let target ← lift (destination.file_path index)
  if normalize_lexical_path source = normalize_lexical_path target then pure none
  else
    match ← path_lexists env .Forward target with
    | true => lift (.error (.Storage
        s!"destination file already exists while moving torrent data: {display target}"))
    | false =>
      match ← attempt (symlink_metadata env .Forward source) with
      | .ok (.File content) =>
        if content.length ≤ expected.length then pure (some ⟨source, target, .Existing⟩)
        else lift (.error (.Storage
          (s!"source file length {content.length} exceeds expected {expected.length} while moving torrent data: " ++
            display source)))
      | .ok .Other => lift (.error (.Storage s!"source payload path is not a file: {display source}"))
      | .error .NotFound =>
        if expected.length = 0 then pure (some ⟨source, target, .CreateEmpty⟩)
        else pure (some ⟨source, target, .Absent⟩)
      | .error error => lift (.error error.core)

/-- The loop of `build_move_plan`. -/
def plan_entries (self destination : StorageHandle) : Nat → Vec MetaFile → FsM (Vec MovePlanEntry)
  | _, [] => pure []
  | index, expected :: files => do
    let entry ← self.plan_entry env destination index expected
    let rest ← self.plan_entries destination (index + 1) files
    pure (entry.toList ++ rest)

/-- The resume file must not be in the way of another one. -/
def check_destination_resume (destination_resume source_resume : Path) : FsM Unit :=
  if normalize_lexical_path destination_resume = normalize_lexical_path source_resume then pure ()
  else do
    match ← path_lexists env .Forward destination_resume with
    | true => lift (.error (.Storage
        s!"destination resume file already exists while moving torrent data: {display destination_resume}"))
    | false => pure ()

def build_move_plan (self destination : StorageHandle) : FsM (Vec MovePlanEntry) := do
  let _ ← lift self.path_ownership
  let _ ← lift destination.path_ownership
  let destination_resume ← lift destination.checked_resume_path
  let source_resume ← lift self.checked_resume_path
  check_destination_resume env destination_resume source_resume
  self.plan_entries env destination 0 self.torrent.files

/-- The handles are flushed twice, the second time until no writer is left, and the plan is made. -/
def prepare_move (self destination : StorageHandle) : FsM (Vec MovePlanEntry) := do
  map_err IoError.core (signal env .Forward .Flush)
  map_err IoError.core (signal env .Forward .Flush)
  self.build_move_plan env destination

/-- Directories that the moved files leave empty are removed. -/
def cleanup_sources (self : StorageHandle) (plan : Vec MovePlanEntry) : FsM Unit :=
  for_each (fun entry =>
    if entry.kind = .Existing then cleanup_empty_parents env .Forward (parent entry.source) self.download_dir
    else pure ()) plan

/-- Move the payload to new names under the same root. The resume file stays. -/
def rewrite_partial_file_suffix (self destination : StorageHandle) : FsM StorageHandle := do
  let plan ← self.prepare_move env destination
  execute_move_plan env plan destination.download_dir
  self.cleanup_sources env plan
  pure destination

/-- Give the payload its canonical names. -/
def finalize_partial_file_suffix (self : StorageHandle) : FsM StorageHandle :=
  if self.partial_file_suffix = none then pure (self.relocated self.download_dir none)
  else self.rewrite_partial_file_suffix env (self.relocated self.download_dir none)

/-- The part of a move to another root that follows the plan. -/
def carry_out_move (self destination : StorageHandle) (plan : Vec MovePlanEntry) : FsM StorageHandle := do
  self.remove_resume env
  execute_move_plan env plan destination.download_dir
  self.cleanup_sources env plan
  pure destination

def move_to_with_partial_file_suffix (self : StorageHandle) (destination_dir : Path)
    (partial_file_suffix : Option String) : FsM StorageHandle :=
  let destination := self.relocated destination_dir partial_file_suffix
  if self.shares_storage_root_with destination then
    if self.partial_file_suffix ≠ destination.partial_file_suffix then
      self.rewrite_partial_file_suffix env destination
    else pure destination
  else do
    let plan ← self.prepare_move env destination
    self.carry_out_move env destination plan

def move_to (self : StorageHandle) (destination_dir : Path) : FsM StorageHandle :=
  self.move_to_with_partial_file_suffix env destination_dir none

end

end StorageHandle

end swarmotter.storage

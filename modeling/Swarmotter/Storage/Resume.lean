import Mathlib.Algebra.BigOperators.Group.Finset.Basic
import Swarmotter.Storage.Fs
import Swarmotter.Storage.RoundTrip
import Swarmotter.Torrent

open swarmotter.meta swarmotter.torrent swarmotter.v2

namespace swarmotter.storage

/-- What is recorded of a payload file to notice a change from outside. -/
structure ResumeFileStamp where
  file_exists : Bool
  length : Nat
  modified_unix_nanos : Option Nat
  device : Option Nat
  inode : Option Nat
  changed_unix_seconds : Option Int
  changed_subsec_nanos : Option Int
  deriving DecidableEq

/-- Fast-resume data as it is kept on disk. -/
structure FastResume where
  key : TorrentKey
  name : String
  piece_bitfield : PieceBitfield
  piece_count : Nat
  downloaded : Nat
  uploaded : Nat
  bytes_completed : Nat
  total_length : Nat
  priorities : Vec FilePriority
  wanted : Vec Bool
  file_stamps : Vec ResumeFileStamp
  download_dir : Option String
  date_added : Nat
  date_completed : Option Nat
  deriving DecidableEq

/-- The JSON text of fast-resume data, which `serde_json` writes and reads. -/
structure ResumeCodec where
  serialize_json : FastResume → Except String String
  parse_json : String → Except String FastResume

/-- The bytes of the pieces among the first `piece_count` that a bitfield holds. -/
def verified_bytes (bitfield : PieceBitfield) (piece_count : Nat) (piece_lengths : Vec Nat) : Nat :=
  (((List.range piece_count).filter fun index => bitfield.has index).map fun index => piece_lengths.getD index 0).sum

/-- Fast-resume data with the wanted flags kept apart from the priorities. It has no file stamps yet. -/
def build_resume_with_wanted (key : TorrentKey) (name : String) (bitfield : PieceBitfield)
    (piece_count downloaded uploaded total_length : Nat) (download_dir : Option String) (date_added : Nat)
    (date_completed : Option Nat) (priorities : Vec FilePriority) (wanted : Vec Bool)
    (piece_byte_lengths : Vec Nat) : FastResume where
  key := key
  name := name
  piece_bitfield := bitfield
  piece_count := piece_count
  downloaded := downloaded
  uploaded := uploaded
  bytes_completed := verified_bytes bitfield piece_count piece_byte_lengths
  total_length := total_length
  priorities := priorities
  wanted := wanted
  file_stamps := []
  download_dir := download_dir
  date_added := date_added
  date_completed := date_completed

/-- The piece lengths that `load_resume` takes from the torrent. -/
def StorageIo.piece_lengths (self : StorageIo) : Vec Nat :=
  ((List.range self.torrent.piece_count).filterMap fun index => self.torrent.piece_byte_range index).map
    fun range => range.2 - range.1

/-- The piece lengths that `load_resume_v2` takes from the layout. -/
def layout_piece_lengths (layout : V2PieceLayout) : Vec Nat :=
  ((List.range layout.piece_count).filterMap fun index => layout.piece index).map V2Piece.length

def Payload.piece_lengths {sha : Sha} (self : Payload sha) : Vec Nat :=
  match self.plane with
  | .V1 => self.io.piece_lengths
  | .V2 layout => layout_piece_lengths layout

/-- The storage of a torrent with the identity that its fast-resume file is named after. -/
structure StorageHandle extends StorageIo where
  torrent_key : TorrentKey
  resume_dir : Option Path
  deriving DecidableEq

/-- Whether fast-resume data contradicts the torrent or itself. The bits behind the last piece are not looked
    at. -/
def FastResume.structurally_inconsistent (resume : FastResume) (torrent : TorrentMeta) (piece_lengths : Vec Nat) :
    Bool :=
  let expected_bitfield_bytes := div_ceil resume.piece_count 8
  let piece_count_matches : Bool := resume.piece_count = piece_lengths.length
  let verified := if piece_count_matches then
      some (verified_bytes resume.piece_bitfield piece_lengths.length piece_lengths)
    else none
  resume.name ≠ torrent.name || !piece_count_matches || resume.total_length ≠ torrent.total_length ||
    resume.piece_bitfield.bytes.length ≠ expected_bitfield_bytes || resume.bytes_completed > resume.total_length ||
    verified ≠ some resume.bytes_completed ||
    (resume.wanted ≠ [] && resume.wanted.length ≠ torrent.files.length) ||
    (resume.file_stamps ≠ [] && resume.file_stamps.length ≠ torrent.files.length)

namespace StorageHandle

def new (torrent : TorrentMeta) (download_dir : Path) : StorageHandle :=
  { StorageIo.new torrent download_dir with
    torrent_key := torrent.identity.primary_key.getD (.V1 torrent.info_hash)
    resume_dir := none }

def resume_path (self : StorageHandle) : Path :=
  push (self.resume_dir.getD self.download_dir) s!"{self.torrent_key.to_locator}.swarmotter.resume"

def checked_resume_path (self : StorageHandle) : Result Path := do
  let _ ← validate_path_component self.torrent.name
  pure self.resume_path

section
variable (env : Environment) (codec : ResumeCodec)

/-- The part of `save_resume` that is cleaned up after when it fails. -/
def write_resume (json : String) (temporary path : Path) : FsM Unit := do
  trial.map_err IoError.core (create_new env .Forward temporary)
  trial.map_err IoError.core (write_all env .Forward temporary (as_bytes json))
  trial.map_err IoError.core (signal env .Forward .Flush)
  trial.map_err IoError.core (sync_file env .Forward temporary)
  trial.map_err IoError.core (rename env .Forward temporary path)
  sync_parent_directory env .Forward path

/-- Write the fast-resume file beside its place and move it there. -/
def save_resume (self : StorageHandle) (resume : FastResume) : FsM Path := do
  let _ ← trial.lift (reject_if (resume.key ≠ self.torrent_key) (.Storage
    s!"refusing to save resume for {resume.key.to_locator} through storage handle for {self.torrent_key.to_locator}"))
  let path ← trial.lift self.checked_resume_path
  create_parent_directory env .Forward path
  let json ← trial.lift (match codec.serialize_json resume with
    | .ok json => .ok json
    | .error error => .error (.Storage s!"resume serialize: {error}"))
  let temporary ← temporary_sibling_path env path "tmp"
  match ← trial.attempt (write_resume env json temporary path) with
  | .ok _ => pure path
  | .error error => do
    let _ ← trial.attempt (remove_file env .Undo temporary)
    trial.lift (.error error)

/-- Move a fast-resume file that cannot be used out of the way, if that is possible. -/
def quarantine_corrupt_resume (path : Path) : FsM Unit := do
  match ← trial.attempt (temporary_sibling_path env path "corrupt") with
  | .error _ => pure ()
  | .ok quarantine =>
    match ← trial.attempt (rename env .Forward path quarantine) with
    | .error _ => pure ()
    | .ok _ => do
      let _ ← trial.attempt (sync_parent_directory env .Forward path)
      pure ()

/-- What the loader makes of the content of the file: an error if it belongs to another torrent, and nothing
    if it is corrupt. -/
def check_resume (self : StorageHandle) (expected_key : TorrentKey) (piece_lengths : Vec Nat) (bytes : Bytes) :
    Result (Option FastResume) :=
  match from_utf8 bytes with
  | none => pure none
  | some text =>
    match codec.parse_json text with
    | .error _ => pure none
    | .ok resume =>
      if resume.key ≠ expected_key then .error (.Storage
        s!"resume torrent key mismatch: expected {expected_key.to_locator}, found {resume.key.to_locator}")
      else if resume.structurally_inconsistent self.torrent piece_lengths then pure none
      else pure (some resume)

def load_resume_with_piece_lengths (self : StorageHandle) (expected_key : TorrentKey) (piece_lengths : Vec Nat) :
    FsM (Option FastResume) := do
  let path ← trial.lift self.checked_resume_path
  match ← trial.attempt (read env .Forward path) with
  | .error .NotFound => pure none
  | .error error => trial.lift (.error error.core)
  | .ok bytes => do
    match ← trial.lift (self.check_resume codec expected_key piece_lengths bytes) with
    | some resume => pure (some resume)
    | none => do
      quarantine_corrupt_resume env path
      pure none

/-- Remove the fast-resume file if there is one. -/
def remove_resume (self : StorageHandle) : FsM Unit := do
  let path ← trial.lift self.checked_resume_path
  match ← trial.attempt (remove_file env .Forward path) with
  | .ok _ => sync_parent_directory env .Forward path
  | .error .NotFound => pure ()
  | .error error => trial.lift (.error (.Storage s!"failed to remove resume {display path}: {error}"))

end

end StorageHandle

section
variable {sha : Sha} {payload : Payload sha} {torrent : TorrentMeta} {resume : FastResume} {piece_lengths : Vec Nat}

theorem layout_piece_lengths_eq (layout : V2PieceLayout) :
    layout_piece_lengths layout = layout.pieces.map V2Piece.length := by
  have hpieces : ((List.range layout.piece_count).filterMap fun index => layout.piece index) = layout.pieces := by
    simp only [V2PieceLayout.piece_count, V2PieceLayout.piece]
    exact slices.filterMap_getElem?_range layout.pieces
  rw [layout_piece_lengths, hpieces]

/-- Every piece of a torrent over concatenated files has a range. -/
theorem io_piece_lengths_eq (io : StorageIo) :
    io.piece_lengths = (List.range io.torrent.piece_count).map fun index =>
      min (io.torrent.total_length - index * io.torrent.piece_length) io.torrent.piece_length := by
  have hsome : (List.range io.torrent.piece_count).filterMap (fun index => io.torrent.piece_byte_range index) =
      (List.range io.torrent.piece_count).map fun index => (index * io.torrent.piece_length,
        min (index * io.torrent.piece_length + io.torrent.piece_length) io.torrent.total_length) := by
    rw [← List.filterMap_eq_map]
    apply List.filterMap_congr
    intro index hindex
    exact piece_byte_range_eq (List.mem_range.mp hindex)
  rw [StorageIo.piece_lengths, hsome, List.map_map]
  apply List.map_congr_left
  intro index _
  simp only [Function.comp_apply]
  omega

theorem length_piece_lengths (payload : Payload sha) : payload.piece_lengths.length = payload.piece_count := by
  unfold Payload.piece_lengths Payload.piece_count
  cases payload.plane with
  | V1 => simp only [io_piece_lengths_eq, List.length_map, List.length_range]
  | V2 layout => simp only [layout_piece_lengths_eq, List.length_map, V2PieceLayout.piece_count]

/-- The pieces of a torrent have its length together, whichever way it is cut. -/
theorem sum_piece_lengths (payload : Payload sha) : payload.piece_lengths.sum = payload.io.torrent.total_length := by
  have hvalid := payload.valid
  have hplane := payload.plane_eq
  unfold Payload.piece_lengths
  cases hcase : payload.plane with
  | V1 =>
    rw [hcase] at hplane
    have hcount := (hvalid.v1_pieces hplane).count
    simp only [io_piece_lengths_eq, slices.sum_run_lengths, TorrentMeta.piece_count]
    rw [hcount]
    exact Nat.min_eq_left ((slices.div_ceil_le_iff hvalid.piece_length_pos).mp (Nat.le_refl _))
  | V2 layout =>
    rw [hcase] at hplane
    simp only [layout_piece_lengths_eq]
    rw [from_meta_sum hplane.2, hvalid.files.sum_length]

/-- The pieces of a bitfield are not longer than all pieces. -/
theorem verified_bytes_le (bitfield : PieceBitfield) (piece_lengths : Vec Nat) :
    verified_bytes bitfield piece_lengths.length piece_lengths ≤ piece_lengths.sum := by
  have hall : (List.range piece_lengths.length).map (fun index => piece_lengths.getD index 0) = piece_lengths := by
    apply List.ext_getElem
    · simp
    · intro i hi hi'
      simp [hi']
  have hsub : (((List.range piece_lengths.length).filter fun index => bitfield.has index).map
      fun index => piece_lengths.getD index 0).Sublist piece_lengths := by
    conv_rhs => rw [← hall]
    exact List.filter_sublist.map _
  exact hsub.sum_le_sum fun _ _ => Nat.zero_le _

/-- What the loader asks of fast-resume data. -/
structure FastResume.Consistent (resume : FastResume) (torrent : TorrentMeta) (piece_lengths : Vec Nat) : Prop where
  name : resume.name = torrent.name
  piece_count : resume.piece_count = piece_lengths.length
  total_length : resume.total_length = torrent.total_length
  bitfield : resume.piece_bitfield.bytes.length = div_ceil resume.piece_count 8
  completed_le : resume.bytes_completed ≤ resume.total_length
  completed : resume.bytes_completed = verified_bytes resume.piece_bitfield resume.piece_count piece_lengths
  wanted : resume.wanted = [] ∨ resume.wanted.length = torrent.files.length
  file_stamps : resume.file_stamps = [] ∨ resume.file_stamps.length = torrent.files.length

theorem structurally_inconsistent_eq_false_iff :
    resume.structurally_inconsistent torrent piece_lengths = false ↔ resume.Consistent torrent piece_lengths := by
  unfold FastResume.structurally_inconsistent
  by_cases hcount : resume.piece_count = piece_lengths.length
  · simp only [hcount, decide_true, if_true, Bool.or_eq_false_iff, Bool.and_eq_false_iff, Bool.not_true,
      decide_eq_false_iff_not, not_not, Option.some.injEq, gt_iff_lt, not_lt]
    constructor
    · rintro ⟨⟨⟨⟨⟨⟨⟨hname, -⟩, htotal⟩, hbits⟩, hle⟩, hbytes⟩, hwanted⟩, hstamps⟩
      exact ⟨hname, hcount, htotal, hcount ▸ hbits, hle, hcount ▸ hbytes.symm, hwanted, hstamps⟩
    · rintro ⟨hname, -, htotal, hbits, hle, hbytes, hwanted, hstamps⟩
      exact ⟨⟨⟨⟨⟨⟨⟨hname, trivial⟩, htotal⟩, hcount ▸ hbits⟩, hle⟩, (hcount ▸ hbytes).symm⟩, hwanted⟩, hstamps⟩
  · constructor
    · intro h
      simp [hcount] at h
    · intro h
      exact absurd h.piece_count hcount

end

section
variable {sha : Sha} {env : Environment} {codec : ResumeCodec} {handle : StorageHandle} {fs fs' : Fs}
  {resume : FastResume} {path : Path}

/-- The file that is written beside the resume path takes its place. -/
theorem write_resume_tries {before : Entries} (json : String) (temporary path : Path) :
    trial.Tries (Fs.Holds before) (StorageHandle.write_resume env json temporary path)
      (fun _ fs => fs.entry path = some (.File (as_bytes json))) fun _ => True := by
  refine (create_new_tries fun h : False => h.elim).map_err.anyway.bind fun _ => .of_forall fun _ ⟨_, hcreated⟩ => ?_
  refine ((write_all_tries (fun h : False => h.elim) _ _).map_err.anyway.start hcreated).bind fun _ => ?_
  refine (signal_core_tries rfl fun h : False => h.elim).anyway.bind fun _ => ?_
  refine (signal_core_tries rfl fun h : False => h.elim).anyway.bind fun _ => ?_
  refine (rename_tries _ _).map_err.anyway.bind fun _ => .of_forall fun _ ⟨content, hcontent, hrenamed⟩ => ?_
  rw [put_self] at hcontent
  cases hcontent
  refine ((sync_parent_directory_tries (fun h : False => h.elim) path).start hrenamed).weaken (fun _ fs hfs => ?_)
    fun _ _ => trivial
  rw [Fs.entry, hfs, put_self]

/-- A saved record lies under the resume path as its JSON text. -/
theorem save_resume_eq_ok (h : handle.save_resume env codec resume fs = (.ok path, fs')) :
    resume.key = handle.torrent_key ∧ handle.checked_resume_path = .ok path ∧
      ∃ json, codec.serialize_json resume = .ok json ∧ fs'.entry path = some (.File (as_bytes json)) := by
  unfold StorageHandle.save_resume at h
  obtain ⟨_, _, hkey, h⟩ := trial.bind_eq_ok_iff.mp h
  obtain ⟨path', _, hpath, h⟩ := trial.bind_eq_ok_iff.mp h
  obtain ⟨_, _, -, h⟩ := trial.bind_eq_ok_iff.mp h
  obtain ⟨json, _, hjson, h⟩ := trial.bind_eq_ok_iff.mp h
  obtain ⟨temporary, _, -, h⟩ := trial.bind_eq_ok_iff.mp h
  obtain ⟨outcome, written, houtcome, h⟩ := trial.bind_eq_ok_iff.mp h
  obtain ⟨hkey, -⟩ := trial.lift_eq_ok_iff.mp hkey
  obtain ⟨hpath, -⟩ := trial.lift_eq_ok_iff.mp hpath
  obtain ⟨hjson, -⟩ := trial.lift_eq_ok_iff.mp hjson
  cases outcome with
  | error error =>
    obtain ⟨_, _, -, h⟩ := trial.bind_eq_ok_iff.mp h
    exact absurd (trial.lift_eq_ok_iff.mp h).1 (by simp)
  | ok done =>
    obtain ⟨rfl, rfl⟩ := trial.pure_eq_ok_iff.mp h
    refine ⟨not_not.mp (reject_if_eq_ok_iff.mp hkey), hpath, json, ?_,
      (write_resume_tries json temporary path).ok _ _ _ rfl (trial.attempt_eq_ok_iff.mp houtcome)⟩
    cases hcodec : codec.serialize_json resume with
    | ok text =>
      simp only [hcodec, Except.ok.injEq] at hjson
      rw [hjson]
    | error error =>
      simp only [hcodec] at hjson
      cases hjson

/-- A record that cannot be used is put aside without an error. -/
theorem quarantine_corrupt_resume_ok (env : Environment) (path : Path) (fs : Fs) :
    ((StorageHandle.quarantine_corrupt_resume env path >>= fun _ => pure none : FsM (Option FastResume)) fs).1 =
      .ok none := by
  have hok : ∃ fs', StorageHandle.quarantine_corrupt_resume env path fs = (.ok (), fs') := by
    rcases hsibling : temporary_sibling_path env path "corrupt" fs with ⟨error | quarantine, named⟩
    · exact ⟨named, trial.attempt_bind hsibling⟩
    · rw [StorageHandle.quarantine_corrupt_resume, trial.attempt_bind hsibling]
      dsimp only
      rcases hrename : rename env .Forward path quarantine named with ⟨error | done, renamed⟩
      · exact ⟨renamed, trial.attempt_bind hrename⟩
      · exact ⟨_, trial.attempt_bind hrename⟩
  obtain ⟨fs', hok⟩ := hok
  rw [trial.bind_of_ok hok]
  rfl

theorem check_resume_eq_some_iff {expected_key : TorrentKey} {piece_lengths : Vec Nat} {bytes : Bytes} :
    handle.check_resume codec expected_key piece_lengths bytes = .ok (some resume) ↔
      ∃ text, from_utf8 bytes = some text ∧ codec.parse_json text = .ok resume ∧ resume.key = expected_key ∧
        resume.Consistent handle.torrent piece_lengths := by
  unfold StorageHandle.check_resume
  cases htext : from_utf8 bytes with
  | none => simp
  | some text =>
    cases hparse : codec.parse_json text with
    | error error => simp [hparse]
    | ok found =>
      simp only [Option.some.injEq, exists_eq_left', hparse, Except.ok.injEq]
      constructor
      · intro h
        split at h
        · cases h
        · rename_i hkey
          split at h
          · cases h
          · rename_i hcheck
            cases h
            exact ⟨rfl, not_not.mp hkey, structurally_inconsistent_eq_false_iff.mp (Bool.eq_false_iff.mpr hcheck)⟩
      · rintro ⟨rfl, hkey, hconsistent⟩
        rw [if_neg (not_not.mpr hkey), structurally_inconsistent_eq_false_iff.mpr hconsistent]
        rfl

/-- The loader accepts a record if it can be read and is consistent with the torrent. -/
theorem load_resume_eq_some_iff {expected_key : TorrentKey} {piece_lengths : Vec Nat} :
    (handle.load_resume_with_piece_lengths env codec expected_key piece_lengths fs).1 = .ok (some resume) ↔
      ∃ path bytes, handle.checked_resume_path = .ok path ∧
        env.fault fs.clock .Forward (.Open path) = none ∧ fs.entry path = some (.File bytes) ∧
        handle.check_resume codec expected_key piece_lengths bytes = .ok (some resume) := by
  unfold StorageHandle.load_resume_with_piece_lengths
  cases hpath : handle.checked_resume_path with
  | error error =>
    rw [trial.lift_error_bind]
    simp
  | ok path =>
    rw [trial.lift_ok_bind]
    simp only [Except.ok.injEq, exists_and_left, exists_eq_left']
    rcases hread : read env .Forward path fs with ⟨error | bytes, opened⟩
    · rw [trial.attempt_bind hread]
      constructor
      · intro h
        cases error <;> cases h
      · rintro ⟨hfault, bytes, hentry, -⟩
        have hgood := read_eq_ok_iff.mpr ⟨hfault, hentry, rfl⟩
        rw [hread] at hgood
        cases hgood
    · rw [trial.attempt_bind hread]
      dsimp only
      obtain ⟨hfault, hentry, -⟩ := read_eq_ok_iff.mp hread
      simp only [hfault, hentry, true_and, Option.some.injEq, Entry.File.injEq, exists_eq_left']
      rcases hcheck : handle.check_resume codec expected_key piece_lengths bytes with error | _ | found
      · rw [trial.lift_error_bind]
      · rw [trial.lift_ok_bind]
        dsimp only
        rw [quarantine_corrupt_resume_ok]
      · rw [trial.lift_ok_bind]
        rfl

/-- A byte that the bitfield does not have holds no piece. -/
theorem PieceBitfield.has_of_length_le {bitfield : PieceBitfield} {index : Nat}
    (h : 8 * bitfield.bytes.length ≤ index) : bitfield.has index = false := by
  have hbyte : bitfield.bytes[index / 8]? = none := List.getElem?_eq_none (by omega)
  rw [PieceBitfield.has, hbyte]

theorem verified_bytes_eq_sum (bitfield : PieceBitfield) (piece_count : Nat) (piece_lengths : Vec Nat) :
    verified_bytes bitfield piece_count piece_lengths =
      ∑ index ∈ Finset.range piece_count with bitfield.has index, piece_lengths.getD index 0 := by
  have hrange : (List.range piece_count).toFinset = Finset.range piece_count := by ext; simp
  rw [verified_bytes, ← List.sum_toFinset _ (List.nodup_range.filter _), List.toFinset_filter, hrange]

/-- What is built from the state of a torrent and saved is loaded again as long as the record stays as it is, and
    whatever is loaded fits the torrent: the piece count, the bytes of the bitfield, the total length, and the
    bytes of the pieces that it holds. -/
theorem built_resume_loads (codec : ResumeCodec) (payload : Payload sha) (handle : StorageHandle)
    (hhandle : handle.toStorageIo = payload.io) :
    (∀ (env : Environment) (fs saved later : Fs) (path : Path) (bitfield : PieceBitfield)
      (downloaded uploaded : Nat) (download_dir : Option String) (date_added : Nat) (date_completed : Option Nat)
      (priorities : Vec FilePriority) (wanted : Vec Bool) (file_stamps : Vec ResumeFileStamp) (resume : FastResume),
      bitfield.bytes.length = div_ceil payload.piece_count 8 →
      (wanted = [] ∨ wanted.length = handle.torrent.files.length) →
      (file_stamps = [] ∨ file_stamps.length = handle.torrent.files.length) →
      resume = { build_resume_with_wanted handle.torrent_key handle.torrent.name bitfield payload.piece_count
          downloaded uploaded handle.torrent.total_length download_dir date_added date_completed priorities wanted
          payload.piece_lengths with file_stamps := file_stamps } →
      (∀ json, codec.serialize_json resume = .ok json → codec.parse_json json = .ok resume) →
      handle.save_resume env codec resume fs = (.ok path, saved) →
      later.entry path = saved.entry path →
      env.fault later.clock .Forward (.Open path) = none →
      (handle.load_resume_with_piece_lengths env codec handle.torrent_key payload.piece_lengths later).1 =
          .ok (some resume) ∧
        resume.piece_bitfield = bitfield) ∧
    ∀ (env : Environment) (fs : Fs) (expected_key : TorrentKey) (resume : FastResume),
      (handle.load_resume_with_piece_lengths env codec expected_key payload.piece_lengths fs).1 = .ok (some resume) →
      resume.key = expected_key ∧ resume.piece_count = payload.piece_count ∧
        resume.total_length = handle.torrent.total_length ∧
        resume.piece_bitfield.bytes.length = div_ceil payload.piece_count 8 ∧
        (∀ index, 8 * div_ceil payload.piece_count 8 ≤ index → resume.piece_bitfield.has index = false) ∧
        resume.bytes_completed = ∑ index ∈ Finset.range payload.piece_count with resume.piece_bitfield.has index,
          payload.piece_lengths.getD index 0 := by
  have hcount := length_piece_lengths payload
  have htorrent : handle.torrent = payload.io.torrent := congrArg StorageIo.torrent hhandle
  constructor
  · intro env fs saved later path bitfield downloaded uploaded download_dir date_added date_completed priorities wanted
      file_stamps resume hbits hwanted hstamps hresume hcodec hsave hsame hread
    obtain ⟨-, hpath, json, hjson, hentry⟩ := save_resume_eq_ok hsave
    have hbytes : verified_bytes bitfield payload.piece_count payload.piece_lengths ≤ handle.torrent.total_length := by
      rw [htorrent, ← sum_piece_lengths payload, ← hcount]
      exact verified_bytes_le bitfield payload.piece_lengths
    have hconsistent : resume.Consistent handle.torrent payload.piece_lengths := by
      subst hresume
      exact ⟨rfl, hcount.symm, rfl, hbits, hbytes, rfl, hwanted, hstamps⟩
    refine ⟨load_resume_eq_some_iff.mpr ⟨path, as_bytes json, hpath, hread, hsame.trans hentry, ?_⟩, ?_⟩
    · apply check_resume_eq_some_iff.mpr
      refine ⟨json, from_utf8_as_bytes json, hcodec json hjson, ?_, hconsistent⟩
      rw [hresume]
      rfl
    · rw [hresume]
      rfl
  · intro env fs expected_key resume hload
    obtain ⟨path, bytes, -, -, -, hcheck⟩ := load_resume_eq_some_iff.mp hload
    obtain ⟨text, -, -, hkey, hconsistent⟩ := check_resume_eq_some_iff.mp hcheck
    have hpieces := hconsistent.piece_count.trans hcount
    have hbits := hconsistent.bitfield
    rw [hpieces] at hbits
    refine ⟨hkey, hpieces, hconsistent.total_length, hbits, ?_, ?_⟩
    · intro index hindex
      exact PieceBitfield.has_of_length_le (hbits ▸ hindex)
    · rw [← verified_bytes_eq_sum, ← hpieces]
      exact hconsistent.completed

def one_piece_payload : Payload Sha.leading where
  io := StorageIo.new one_piece ["srv"]
  plane := .V1
  valid := .of_validate (by decide +kernel)
  plane_eq := by decide +kernel

/-- The record of the torrent with its piece, for a bitfield of one byte. -/
def one_piece_resume (byte : UInt8) : FastResume :=
  build_resume_with_wanted (.V1 InfoHash.ZERO) "t" ⟨[byte]⟩ 1 2 0 2 none 7 none [.Normal] [true] [2]

def one_piece_json (byte : UInt8) : String :=
  "\x7b\n  \"torrent_key\": \"0000000000000000000000000000000000000000\",\n  \"name\": \"t\",\n" ++
  "  \"piece_bitfield\": \"" ++ hex_encode [byte] ++ "\",\n  \"piece_count\": 1,\n  \"downloaded\": 2,\n" ++
  "  \"uploaded\": 0,\n  \"bytes_completed\": 2,\n  \"total_length\": 2,\n" ++
  "  \"priorities\": [\n    \"normal\"\n  ],\n  \"wanted\": [\n    true\n  ],\n  \"file_stamps\": [],\n" ++
  "  \"download_dir\": null,\n  \"date_added\": 7,\n  \"date_completed\": null\n\x7d"

/-- The JSON texts of two such records. -/
def one_piece_codec : ResumeCodec where
  serialize_json resume :=
    if resume = one_piece_resume 0x80 then .ok (one_piece_json 0x80)
    else if resume = one_piece_resume 0xFF then .ok (one_piece_json 0xFF)
    else .error "unsupported"
  parse_json text :=
    if text = one_piece_json 0x80 then .ok (one_piece_resume 0x80)
    else if text = one_piece_json 0xFF then .ok (one_piece_resume 0xFF)
    else .error "expected value at line 1 column 1"

/-- An operating system that never fails. -/
def Environment.calm : Environment := ⟨fun _ _ _ => none, fun _ => 0, 1⟩

def Fs.empty : Fs := ⟨fun _ => none, 0, 0⟩

theorem built_resume_loads_one_piece :
    ((StorageHandle.new one_piece ["srv"]).load_resume_with_piece_lengths .calm one_piece_codec
      (.V1 InfoHash.ZERO) one_piece_payload.piece_lengths ((StorageHandle.new one_piece ["srv"]).save_resume .calm
        one_piece_codec (one_piece_resume 0x80) .empty).2).1 = .ok (some (one_piece_resume 0x80)) := by
  have hsaved : ((StorageHandle.new one_piece ["srv"]).save_resume .calm one_piece_codec (one_piece_resume 0x80)
      .empty).1 = .ok (StorageHandle.new one_piece ["srv"]).resume_path := by decide +kernel
  have hround : ∀ json, one_piece_codec.serialize_json (one_piece_resume 0x80) = .ok json →
      one_piece_codec.parse_json json = .ok (one_piece_resume 0x80) := by
    rintro json ⟨⟩
    decide +kernel
  exact ((built_resume_loads one_piece_codec one_piece_payload (StorageHandle.new one_piece ["srv"]) rfl).1 .calm
    .empty _ _ _ ⟨[0x80]⟩ 2 0 none 7 none [.Normal] [true] [] (one_piece_resume 0x80) (by decide +kernel)
    (Or.inr rfl) (Or.inl rfl) (by decide +kernel) hround
    (trial.eq_of_outcome hsaved) rfl rfl).1

/-- The bits behind the last piece are not checked. -/
theorem spare_bits_accepted :
    let handle := StorageHandle.new one_piece ["srv"]
    let fs : Fs := ⟨put (fun _ => none) handle.resume_path (some (.File (as_bytes (one_piece_json 0xFF)))), 0, 0⟩
    (handle.load_resume_with_piece_lengths .calm one_piece_codec (.V1 InfoHash.ZERO)
        one_piece_payload.piece_lengths fs).1 = .ok (some (one_piece_resume 0xFF)) ∧
      (one_piece_resume 0xFF).piece_count = 1 ∧ (one_piece_resume 0xFF).piece_bitfield.has 1 = true := by
  refine ⟨load_resume_eq_some_iff.mpr ?_, rfl, by decide +kernel⟩
  refine ⟨_, as_bytes (one_piece_json 0xFF), rfl, rfl, by simp only [Fs.entry, put_self], ?_⟩
  apply check_resume_eq_some_iff.mpr
  refine ⟨_, from_utf8_as_bytes _, by decide +kernel, rfl, ?_⟩
  exact structurally_inconsistent_eq_false_iff.mp (by decide +kernel)

end

end swarmotter.storage

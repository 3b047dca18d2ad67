import Swarmotter.Meta.Parsed
import Swarmotter.Lib.Patch

open swarmotter.meta

namespace swarmotter.storage

/-- A path, as its components below the root of the file system. -/
abbrev Path := Vec String

def split_on (separator : Char) : List Char → List (List Char)
  | [] => [[]]
  | c :: cs =>
    if c = separator then [] :: split_on separator cs
    else match split_on separator cs with
      | first :: rest => (c :: first) :: rest
      | [] => [[c]]

/-- `Path::components`: repeated separators and `.` are skipped, `..` stays. -/
def components (s : String) : Vec String :=
  ((split_on '/' s.toList).map String.ofList).filter fun component => component ≠ "" ∧ component ≠ "."

/-- `PathBuf::push`: an absolute path replaces what was there. -/
def push (path : Path) (s : String) : Path :=
  if s.toList.head? = some '/' then components s else path ++ components s

/-- `Path::file_name`. -/
def file_name (path : Path) : Option String :=
  match path.getLast? with
  | some name => if name = ".." then none else some name
  | none => none

/-- `PathBuf::set_file_name`. -/
def set_file_name (path : Path) (name : String) : Path :=
  push (if (file_name path).isSome then path.dropLast else path) name

/-- The check that storage makes of its own before it joins a component. -/
def validate_path_component (value : String) : Result Unit := do
  let _ ← reject_if (value = "") (.Storage "empty path component")
  let _ ← reject_if (value = "." ∨ value = "..")
    (.Storage s!"path component {value.quote} is relative traversal")
  let _ ← reject_if (value.toList.head? = some '/' ∨ value.toList.head? = some '\\')
    (.Storage s!"path component {value.quote} is absolute")
  reject_if ('/' ∈ value.toList ∨ '\\' ∈ value.toList ∨ ':' ∈ value.toList)
    (.Storage s!"path component {value.quote} contains forbidden path characters")

def join (base : Path) (path_components : Vec String) : Result Path := do
  let _ ← path_components.forM validate_path_component
  pure (path_components.foldl push base)

/-- `char::is_whitespace`. -/
def is_whitespace (c : Char) : Bool :=
  let n := c.toNat
  (9 ≤ n && n ≤ 13) || n = 0x20 || n = 0x85 || n = 0xA0 || n = 0x1680 || (0x2000 ≤ n && n ≤ 0x200A) ||
    n = 0x2028 || n = 0x2029 || n = 0x202F || n = 0x205F || n = 0x3000

/-- `char::is_control`. -/
def is_control (c : Char) : Bool := c.toNat < 0x20 || (0x7F ≤ c.toNat && c.toNat ≤ 0x9F)

/-- `str::trim`. -/
def trim (s : List Char) : List Char :=
  ((s.dropWhile is_whitespace).reverse.dropWhile is_whitespace).reverse

def validate_partial_file_suffix (value : String) : Result Unit :=
  reject_if (trim value.toList = [] ∨ trim value.toList ≠ value.toList ∨ (as_bytes value).length > 64 ∨
    '/' ∈ value.toList ∨ '\\' ∈ value.toList ∨ ':' ∈ value.toList ∨ value.toList.any is_control = true)
    (.Storage ("partial_file_suffix must be a trimmed non-empty suffix of at most 64 bytes without path " ++
      "separators, drive delimiters, or control characters"))

/-- The storage handle of a torrent, without its caches, limits and metrics. -/
structure StorageIo where
  torrent : TorrentMeta
  download_dir : Path
  partial_file_suffix : Option String
  deriving DecidableEq

namespace StorageIo

def new (torrent : TorrentMeta) (download_dir : Path) : StorageIo := ⟨torrent, download_dir, none⟩

/-- The path of a file. Active downloads may carry a suffix on its last component. -/
def file_path (self : StorageIo) (index : Nat) : Result Path := do
  let file ← ok_or self.torrent.files[index]? (.Storage s!"file index {index} out of range")
  let path ← join self.download_dir file.path
  match self.partial_file_suffix with
  | none => pure path
  | some suffix => do
    let _ ← validate_partial_file_suffix suffix
    let name ← ok_or (file_name path) (.Storage "payload path does not have a UTF-8 file name")
    pure (set_file_name path (name ++ suffix))

end StorageIo

section
variable {value : String}

theorem split_on_of_not_mem {separator : Char} {cs : List Char} (h : separator ∉ cs) :
    split_on separator cs = [cs] := by
  induction cs with
  | nil => rfl
  | cons c cs ih =>
    obtain ⟨hne, hrest⟩ := not_or.mp fun hmem => h (List.mem_cons.mpr hmem)
    rw [split_on, if_neg (Ne.symm hne), ih hrest]

/-- A name without separators is pushed as one component. -/
theorem push_eq (path : Path) (hempty : value ≠ "") (hdot : value ≠ ".") (hslash : '/' ∉ value.toList) :
    push path value = path ++ [value] := by
  have hrelative : ¬ value.toList.head? = some '/' := fun hhead => hslash (List.mem_of_head? hhead)
  rw [push, if_neg hrelative, components, split_on_of_not_mem hslash]
  simp [hempty, hdot]

theorem validate_path_component_ok (h : PlainComponent value) : validate_path_component value = .ok () := by
  have hrelative : ∀ c, c ∉ value.toList → ¬ value.toList.head? = some c :=
    fun c hc hhead => hc (List.mem_of_head? hhead)
  simp only [validate_path_component, eq_ok_iff, not_or]
  exact ⟨(), h.ne_empty, (), ⟨h.ne_dot, h.ne_dotdot⟩, (), ⟨hrelative _ h.no_slash, hrelative _ h.no_backslash⟩,
    h.no_slash, h.no_backslash, h.no_colon⟩

/-- Plain components are appended to the base as they are. -/
theorem join_eq_ok (base : Path) {path_components : Vec String}
    (h : ∀ component ∈ path_components, PlainComponent component) :
    join base path_components = .ok (base ++ path_components) := by
  have hchecked : path_components.forM validate_path_component = .ok () :=
    forM_eq_ok_iff.mpr fun component hmem => validate_path_component_ok (h component hmem)
  have hpushed : ∀ (rest : Vec String), (∀ component ∈ rest, PlainComponent component) →
      ∀ base : Path, rest.foldl push base = base ++ rest := by
    intro rest
    induction rest with
    | nil => exact fun _ base => (List.append_nil base).symm
    | cons component rest ih =>
      intro hrest base
      have hplain := hrest component List.mem_cons_self
      have hlater : ∀ other ∈ rest, PlainComponent other := fun other hmem => hrest other (List.mem_cons_of_mem _ hmem)
      rw [List.foldl_cons, push_eq base hplain.ne_empty hplain.ne_dot hplain.no_slash, ih hlater,
        List.append_assoc, List.singleton_append]
  rw [join, hchecked, bind_ok, hpushed path_components h base]
  rfl

end

/-- The components of a file below the storage root, with the suffix on the last of them. -/
def suffixed (suffix : Option String) (path : Vec String) : Vec String :=
  match suffix with
  | none => path
  | some suffix => path.dropLast ++ [path.getLastD "" ++ suffix]

section
variable {sha : Sha} {io : StorageIo} {index : Nat} {path : Path} {suffix : String}

theorem suffixed_injective {suffix : Option String} {left right : Vec String} (hleft : left ≠ [])
    (hright : right ≠ []) (h : suffixed suffix left = suffixed suffix right) : left = right := by
  cases suffix with
  | none => exact h
  | some suffix =>
    obtain ⟨hinit, hlast⟩ := List.append_inj' h rfl
    have hlast := (String.append_left_inj suffix).mp (List.singleton_inj.mp hlast)
    rw [List.getLastD_eq_getLast?, List.getLastD_eq_getLast?, List.getLast?_eq_some_getLast hleft,
      List.getLast?_eq_some_getLast hright, Option.getD_some, Option.getD_some] at hlast
    rw [← List.dropLast_append_getLast hleft, ← List.dropLast_append_getLast hright, hinit, hlast]

/-- A suffix keeps the last component a plain name. -/
theorem set_file_name_eq (base : Path) {path : Vec String} (hne : path ≠ [])
    (hplain : ∀ component ∈ path, PlainComponent component) (hsuffix : validate_partial_file_suffix suffix = .ok ()) :
    ∃ name, file_name (base ++ path) = some name ∧
      set_file_name (base ++ path) (name ++ suffix) = base ++ suffixed (some suffix) path := by
  have hlast := hplain _ (List.getLast_mem hne)
  have hname : file_name (base ++ path) = some (path.getLast hne) := by
    have hget : (base ++ path).getLast? = some (path.getLast hne) := by
      rw [List.getLast?_append_of_ne_nil _ hne, List.getLast?_eq_some_getLast hne]
    rw [file_name, hget]
    exact if_neg hlast.ne_dotdot
  refine ⟨path.getLast hne, hname, ?_⟩
  simp only [validate_partial_file_suffix, reject_if_eq_ok_iff, not_or] at hsuffix
  obtain ⟨htrim, -, -, hslash, -⟩ := hsuffix
  have hnonempty : suffix ≠ "" := by
    rintro rfl
    exact htrim rfl
  have hlong : (path.getLast hne ++ suffix).length ≥ 2 := by
    have hl : (path.getLast hne).length ≠ 0 := fun h => hlast.ne_empty (String.length_eq_zero_iff.mp h)
    have hs : suffix.length ≠ 0 := fun h => hnonempty (String.length_eq_zero_iff.mp h)
    rw [String.length_append]
    omega
  have hempty : path.getLast hne ++ suffix ≠ "" := by
    intro h
    rw [h] at hlong
    exact absurd hlong (by decide)
  have hdot : path.getLast hne ++ suffix ≠ "." := by
    intro h
    rw [h] at hlong
    exact absurd hlong (by decide)
  have hseparator : '/' ∉ (path.getLast hne ++ suffix).toList := by
    rw [String.toList_append, List.mem_append, not_or]
    exact ⟨hlast.no_slash, hslash⟩
  rw [set_file_name, hname, Option.isSome_some, if_pos rfl, push_eq _ hempty hdot hseparator,
    List.dropLast_append_of_ne_nil hne, suffixed, List.getLastD_eq_getLast?, List.getLast?_eq_some_getLast hne,
    Option.getD_some, List.append_assoc]

/-- The path of every file of a valid torrent lies below the storage root and is determined by the
    path that the metainfo gives it. -/
theorem file_path_eq_ok_iff (hvalid : Valid sha io.torrent) :
    io.file_path index = .ok path ↔ ∃ file, io.torrent.files[index]? = some file ∧
      (∀ suffix, io.partial_file_suffix = some suffix → validate_partial_file_suffix suffix = .ok ()) ∧
      path = io.download_dir ++ suffixed io.partial_file_suffix file.path := by
  simp only [StorageIo.file_path, eq_ok_iff]
  apply exists_congr
  intro file
  apply and_congr_right
  intro hfile
  have hmem := List.mem_of_getElem? hfile
  have hplain := hvalid.files.plain file hmem
  simp only [join_eq_ok io.download_dir hplain, Except.ok.injEq, exists_eq_left']
  cases hsuffix : io.partial_file_suffix with
  | none => simp [suffixed, eq_comm]
  | some suffix =>
    simp only [eq_ok_iff, Option.some.injEq, forall_eq']
    constructor
    · rintro ⟨⟨⟩, hvalidated, name, hname, hpath⟩
      obtain ⟨name', hname', hset⟩ :=
        set_file_name_eq io.download_dir (hvalid.files.path_ne_nil file hmem) hplain hvalidated
      obtain rfl : name = name' := Option.some.inj (hname.symm.trans hname')
      rw [hset] at hpath
      exact ⟨hvalidated, hpath.symm⟩
    · rintro ⟨hvalidated, rfl⟩
      obtain ⟨name, hname, hset⟩ :=
        set_file_name_eq io.download_dir (hvalid.files.path_ne_nil file hmem) hplain hvalidated
      exact ⟨(), hvalidated, name, hname, hset⟩

/-- Two files of a valid torrent never share a path. -/
theorem file_path_injective (hvalid : Valid sha io.torrent) {other : Nat} (h : io.file_path index = .ok path)
    (hother : io.file_path other = .ok path) : index = other := by
  obtain ⟨file, hfile, -, hpath⟩ := (file_path_eq_ok_iff hvalid).mp h
  obtain ⟨file', hfile', -, hpath'⟩ := (file_path_eq_ok_iff hvalid).mp hother
  have hsame : file.path = file'.path := by
    apply suffixed_injective (hvalid.files.path_ne_nil file (List.mem_of_getElem? hfile))
      (hvalid.files.path_ne_nil file' (List.mem_of_getElem? hfile'))
    exact List.append_cancel_left (hpath.symm.trans hpath')
  have hindex : index < (io.torrent.files.map MetaFile.path).length := by
    rw [List.length_map]
    exact (List.getElem?_eq_some_iff.mp hfile).1
  have hget : (io.torrent.files.map MetaFile.path)[index]? = (io.torrent.files.map MetaFile.path)[other]? := by
    rw [List.getElem?_map, List.getElem?_map, hfile, hfile', Option.map_some, Option.map_some, hsame]
  exact (List.getElem?_inj hindex hvalid.files.nodup).mp hget

/-- Every file of an accepted torrent has a path of plain names, no two have the same one, and
    below any storage root the files get distinct paths that never leave it. -/
theorem accepted_paths_distinct_inside {bytes : Bytes} {torrent : TorrentMeta}
    (hparse : parse_torrent sha bytes = .ok torrent) :
    (∀ file ∈ torrent.files, file.path ≠ [] ∧ ∀ component ∈ file.path, PlainComponent component) ∧
    (torrent.files.map MetaFile.path).Nodup ∧
    ∀ root : Path,
      (∀ index < torrent.files.length, ∃ below, below ≠ [] ∧ ".." ∉ below ∧
        (StorageIo.new torrent root).file_path index = .ok (root ++ below)) ∧
      ∀ index other path, (StorageIo.new torrent root).file_path index = .ok path →
        (StorageIo.new torrent root).file_path other = .ok path → index = other := by
  have hvalid := parse_torrent_valid hparse
  refine ⟨fun file hfile => ⟨hvalid.files.path_ne_nil file hfile, hvalid.files.plain file hfile⟩,
    hvalid.files.nodup, fun root => ⟨?_, ?_⟩⟩
  · intro index hindex
    have hmem : torrent.files[index] ∈ torrent.files := List.getElem_mem hindex
    refine ⟨torrent.files[index].path, hvalid.files.path_ne_nil _ hmem, ?_, ?_⟩
    · intro hup
      exact (hvalid.files.plain _ hmem ".." hup).ne_dotdot rfl
    · apply (file_path_eq_ok_iff hvalid).mpr
      exact ⟨_, List.getElem?_eq_getElem hindex, fun _ h => absurd h (by simp [StorageIo.new]), rfl⟩
  · intro index other path h hother
    exact file_path_injective hvalid h hother

/-- Two files in one directory. -/
def two_files : Bytes := as_bytes ("d4:infod5:filesld6:lengthi1e4:pathl1:d1:aeed6:lengthi1e4:pathl1:d1:beee4:name1:t" ++
    "12:piece lengthi2e6:pieces20:aaaaaaaaaaaaaaaaaaaaee")

theorem accepted_paths_distinct_inside_two_files : ∃ torrent,
    parse_torrent Sha.leading two_files = .ok torrent ∧ (torrent.files.map MetaFile.path).Nodup := by
  obtain ⟨torrent, hparse⟩ : ∃ torrent, parse_torrent Sha.leading two_files = .ok torrent :=
    exists_ok_of_isOk (by decide +kernel)
  exact ⟨torrent, hparse, (accepted_paths_distinct_inside hparse).2.1⟩

end

/-- The files of the file system. -/
abbrev Disk := Path → Option Bytes

/-- `write_all` after a seek to `offset`. A gap behind the end of the file reads as zeros; writing
    nothing does not move the end. -/
def write_at (file : Bytes) (offset : Nat) (data : Bytes) : Bytes :=
  if data = [] then file
  else file.take offset ++ List.replicate (offset - file.length) 0 ++ data ++ file.drop (offset + data.length)

namespace Disk

/-- A write through a handle that creates the file when it is missing. -/
def write (disk : Disk) (path : Path) (offset : Nat) (data : Bytes) : Disk :=
  fun other => if other = path then some (write_at ((disk path).getD []) offset data) else disk other

/-- `read_exact` after a seek to `offset`. -/
def read_exact (disk : Disk) (path : Path) (offset length : Nat) : Result Bytes :=
  match disk path with
  | none => .error (.Io "No such file or directory (os error 2)")
  | some file =>
    if ((file.drop offset).take length).length = length then .ok ((file.drop offset).take length)
    else .error (.Io "early eof")

end Disk

section
variable {file data : Bytes} {offset k : Nat} {byte : UInt8}

theorem getElem?_write_at_inside (file : Bytes) (offset : Nat) (h : data[k]? = some byte) :
    (write_at file offset data)[offset + k]? = some byte := by
  have hne : data ≠ [] := by
    rintro rfl
    cases h
  obtain ⟨hk, -⟩ := List.getElem?_eq_some_iff.mp h
  have hfront : (file.take offset ++ List.replicate (offset - file.length) (0 : UInt8)).length = offset := by
    rw [List.length_append, List.length_take, List.length_replicate]
    omega
  rw [write_at, if_neg hne, List.append_assoc, List.getElem?_append_right (by omega), hfront,
    Nat.add_sub_cancel_left, List.getElem?_append_left hk]
  exact h

/-- What lies outside the written range stays. -/
theorem getElem?_write_at_outside (hout : k < offset ∨ offset + data.length ≤ k) (h : file[k]? = some byte) :
    (write_at file offset data)[k]? = some byte := by
  obtain ⟨hk, -⟩ := List.getElem?_eq_some_iff.mp h
  by_cases hempty : data = []
  · rw [write_at, if_pos hempty]
    exact h
  rw [write_at, if_neg hempty]
  cases hout with
  | inl hlow =>
    have hin : k < (file.take offset).length := by
      rw [List.length_take]
      omega
    rw [List.append_assoc, List.append_assoc, List.getElem?_append_left hin, List.getElem?_take_of_lt hlow]
    exact h
  | inr hhigh =>
    have hfront : (file.take offset ++ List.replicate (offset - file.length) (0 : UInt8) ++ data).length =
        offset + data.length := by
      rw [List.length_append, List.length_append, List.length_take, List.length_replicate]
      omega
    have hrest : offset + data.length + (k - (offset + data.length)) = k := by omega
    rw [List.getElem?_append_right (by omega), hfront, List.getElem?_drop, hrest]
    exact h

/-- What a successful read returns. -/
theorem read_exact_eq_ok_iff {disk : Disk} {path : Path} {length : Nat} {out : Bytes} :
    disk.read_exact path offset length = .ok out ↔ ∃ file, disk path = some file ∧ out.length = length ∧
      ∀ k byte, out[k]? = some byte → file[offset + k]? = some byte := by
  unfold Disk.read_exact
  cases hfile : disk path with
  | none => simp
  | some file =>
    have hget : ∀ k < length, ((file.drop offset).take length)[k]? = file[offset + k]? := by
      intro k hk
      rw [List.getElem?_take_of_lt hk, List.getElem?_drop]
    simp only [Option.some.injEq, exists_eq_left']
    constructor
    · intro h
      split at h
      · rename_i hlen
        cases h
        refine ⟨hlen, fun k byte hbyte => ?_⟩
        obtain ⟨hk, -⟩ := List.getElem?_eq_some_iff.mp hbyte
        rw [← hget k (by omega)]
        exact hbyte
      · cases h
    · rintro ⟨hlen, hbytes⟩
      have hsame : (file.drop offset).take length = out := by
        apply List.ext_getElem?
        intro k
        by_cases hk : k < length
        · have hbyte : out[k]? = some out[k] := List.getElem?_eq_getElem (by omega)
          rw [hget k hk, hbytes k _ hbyte, hbyte]
        · rw [List.getElem?_eq_none (by rw [List.length_take]; omega), List.getElem?_eq_none (by omega)]
      rw [hsame, if_pos hlen]

end

/-- What a torrent can find on disk: that one of its files exists, and a byte of one. -/
inductive Cell where
  | Exists (file_index : Nat)
  | Byte (file_index offset : Nat)
  deriving DecidableEq

namespace StorageIo

/-- The content of a cell. The files of the torrent are found under their paths. -/
def cell (self : StorageIo) (disk : Disk) : Cell → Option (Option UInt8)
  | .Exists file_index =>
    match self.file_path file_index with
    | .ok path => (disk path).map fun _ => none
    | .error _ => none
  | .Byte file_index offset =>
    match self.file_path file_index with
    | .ok path => ((disk path).bind fun file => file[offset]?).map some
    | .error _ => none

end StorageIo

/-- One `write_all` of a storage write. -/
structure FileWrite where
  file_index : Nat
  offset : Nat
  bytes : Bytes
  deriving DecidableEq

/-- The bytes that a write stores. -/
def byte_patch (file_index offset : Nat) (bytes : Bytes) : patch.Patch Cell (Option UInt8) :=
  bytes.zipIdx.map fun entry => (.Byte file_index (offset + entry.2), some entry.1)

/-- What a write leaves behind: its bytes, and the file. -/
def FileWrite.patch (write : FileWrite) : patch.Patch Cell (Option UInt8) :=
  byte_patch write.file_index write.offset write.bytes ++ [(.Exists write.file_index, none)]

def writes_patch (writes : Vec FileWrite) : patch.Patch Cell (Option UInt8) := writes.flatMap FileWrite.patch

def Cell.file_index : Cell → Nat
  | .Exists file_index => file_index
  | .Byte file_index _ => file_index

section
variable {sha : Sha} {io : StorageIo} {disk : Disk} {path : Path} {file_index offset : Nat}
  {bytes : Bytes} {cell : Cell} {value : Option UInt8}

theorem mem_byte_patch :
    (cell, value) ∈ byte_patch file_index offset bytes ↔
      ∃ k byte, bytes[k]? = some byte ∧ cell = .Byte file_index (offset + k) ∧ value = some byte := by
  simp only [byte_patch, List.mem_map, Prod.mk.injEq, Prod.exists]
  constructor
  · rintro ⟨byte, k, hmem, rfl, rfl⟩
    exact ⟨k, byte, List.mem_zipIdx_iff_getElem?.mp hmem, rfl, rfl⟩
  · rintro ⟨k, byte, hbyte, rfl, rfl⟩
    exact ⟨byte, k, List.mem_zipIdx_iff_getElem?.mpr hbyte, rfl, rfl⟩

theorem cell_exists (hpath : io.file_path file_index = .ok path) :
    io.cell disk (.Exists file_index) = (disk path).map fun _ => none := by
  simp only [StorageIo.cell, hpath]

theorem cell_byte (hpath : io.file_path file_index = .ok path) (k : Nat) :
    io.cell disk (.Byte file_index k) = ((disk path).bind fun file => file[k]?).map some := by
  simp only [StorageIo.cell, hpath]

theorem cell_byte_eq_some_iff (hpath : io.file_path file_index = .ok path) {k : Nat} :
    io.cell disk (.Byte file_index k) = some value ↔
      ∃ file byte, disk path = some file ∧ file[k]? = some byte ∧ value = some byte := by
  rw [cell_byte hpath, Option.map_eq_some_iff]
  constructor
  · rintro ⟨byte, hbyte, rfl⟩
    obtain ⟨file, hfile, hbyte⟩ := Option.bind_eq_some_iff.mp hbyte
    exact ⟨file, byte, hfile, hbyte, rfl⟩
  · rintro ⟨file, byte, hfile, hbyte, rfl⟩
    exact ⟨byte, Option.bind_eq_some_iff.mpr ⟨file, hfile, hbyte⟩, rfl⟩

/-- A change of one file leaves the cells of the others alone. -/
theorem cell_other (hvalid : meta.Valid sha io.torrent) (hpath : io.file_path file_index = .ok path)
    {disk' : Disk} (hsame : ∀ other, other ≠ path → disk' other = disk other)
    (hother : cell.file_index ≠ file_index) : io.cell disk' cell = io.cell disk cell := by
  have hne : ∀ {other : Path} {index : Nat}, index ≠ file_index → io.file_path index = .ok other →
      disk' other = disk other := by
    intro other index hindex hfound
    apply hsame
    rintro rfl
    exact hindex (file_path_injective hvalid hfound hpath)
  cases cell with
  | Exists index =>
    cases hfound : io.file_path index with
    | error e => simp only [StorageIo.cell, hfound]
    | ok other => rw [cell_exists hfound, cell_exists hfound, hne hother hfound]
  | Byte index k =>
    cases hfound : io.file_path index with
    | error e => simp only [StorageIo.cell, hfound]
    | ok other => rw [cell_byte hfound, cell_byte hfound, hne hother hfound]

theorem write_same (disk : Disk) (path : Path) (offset : Nat) (bytes : Bytes) :
    disk.write path offset bytes path = some (write_at ((disk path).getD []) offset bytes) := if_pos rfl

theorem write_other (disk : Disk) (path : Path) (offset : Nat) (bytes : Bytes) :
    ∀ other, other ≠ path → disk.write path offset bytes other = disk other := fun _ h => if_neg h

/-- A write fills the cells of its bytes and keeps every other one. -/
theorem wrote_bytes (hvalid : meta.Valid sha io.torrent) (hpath : io.file_path file_index = .ok path)
    (disk : Disk) (offset : Nat) (bytes : Bytes) :
    patch.Wrote (io.cell disk) (io.cell (disk.write path offset bytes)) (byte_patch file_index offset bytes) := by
  constructor
  · intro cell value hmem
    obtain ⟨k, byte, hbyte, rfl, rfl⟩ := mem_byte_patch.mp hmem
    apply (cell_byte_eq_some_iff hpath).mpr
    exact ⟨_, byte, write_same disk path offset bytes, getElem?_write_at_inside _ offset hbyte, rfl⟩
  · intro cell value hout hbefore
    by_cases hfile : cell.file_index = file_index
    · cases cell with
      | Exists index =>
        obtain rfl : index = file_index := hfile
        rw [cell_exists hpath] at hbefore ⊢
        rw [write_same]
        obtain ⟨file, -, rfl⟩ := Option.map_eq_some_iff.mp hbefore
        rfl
      | Byte index k =>
        obtain rfl : index = file_index := hfile
        obtain ⟨file, byte, hdisk, hbyte, rfl⟩ := (cell_byte_eq_some_iff hpath).mp hbefore
        apply (cell_byte_eq_some_iff hpath).mpr
        refine ⟨_, byte, write_same disk path offset bytes, ?_, rfl⟩
        rw [hdisk, Option.getD_some]
        apply getElem?_write_at_outside _ hbyte
        by_contra hin
        apply hout
        have hk : k - offset < bytes.length := by omega
        have hoffset : offset + (k - offset) = k := by omega
        refine List.mem_map.mpr ⟨(.Byte index k, some bytes[k - offset]), mem_byte_patch.mpr
          ⟨k - offset, _, List.getElem?_eq_getElem hk, ?_, rfl⟩, rfl⟩
        rw [hoffset]
    · rw [cell_other hvalid hpath (write_other disk path offset bytes) hfile]
      exact hbefore

theorem holds_exists_write (hpath : io.file_path file_index = .ok path) (disk : Disk) (offset : Nat) (bytes : Bytes) :
    patch.Holds (io.cell (disk.write path offset bytes)) [(.Exists file_index, none)] := by
  intro cell value hmem
  obtain ⟨rfl, rfl⟩ := Prod.mk.inj (List.mem_singleton.mp hmem)
  rw [cell_exists hpath, write_same]
  rfl

theorem wrote_patch (hvalid : meta.Valid sha io.torrent) {write : FileWrite}
    (hpath : io.file_path write.file_index = .ok path) (disk : Disk) :
    patch.Wrote (io.cell disk) (io.cell (disk.write path write.offset write.bytes)) write.patch :=
  (wrote_bytes hvalid hpath disk write.offset write.bytes).append
    (holds_exists_write hpath disk write.offset write.bytes)

end

end swarmotter.storage

import Swarmotter.Net.Http
import Swarmotter.Storage.RoundTrip

open swarmotter.meta swarmotter.storage swarmotter.net swarmotter.net.http

namespace swarmotter.engine.webseed

def WEBSEED_MAX_MIRROR_ATTEMPTS : Nat := 4

def gcd (a b : Nat) : Nat := if b = 0 then a else gcd b (a % b)
termination_by b
decreasing_by
  apply Nat.mod_lt
  omega

def webseed_mirror_stride (len : Nat) : Nat :=
  ([31, 17, 13, 7, 5, 3].find? fun candidate => len > candidate && gcd len candidate = 1).getD 1

def webseed_file_url (crate : UrlCrate) (base_url : String) (torrent : TorrentMeta) (file_index : Nat) :
    Result String := do
  let file ← ok_or torrent.files[file_index]? (.Internal s!"file index {file_index} out of range")
  match crate.parse base_url with
  | .error error => .error (.InvalidArgument s!"bad webseed url: {error}")
  | .ok parsed => do
    let _ ← reject_if (¬ (parsed.scheme = "http" ∨ parsed.scheme = "https"))
      (.InvalidArgument s!"unsupported webseed scheme: {parsed.scheme}")
    if torrent.is_multi_file = false ∧ base_url.toList.getLast? ≠ some '/' then pure (crate.as_str parsed)
    else
      let url ← ok_or (crate.push_segments parsed file.path) (.InvalidArgument "webseed URL cannot be a base")
      pure (crate.as_str url)

def file_absolute_start (torrent : TorrentMeta) (file_index : Nat) : Result Nat := do
  let _ ← reject_if (file_index ≥ torrent.files.length) (.Internal s!"file index {file_index} out of range")
  (torrent.files.take file_index).foldlM
    (fun acc file => ok_or (checked_add acc file.length) (.Internal "torrent file offset overflow")) 0

def piece_length_for_meta (torrent : TorrentMeta) (piece_index : Nat) : Nat :=
  if piece_index + 1 = torrent.piece_count then torrent.last_piece_length else torrent.piece_length

/-- `get_mut` of a range of the bytes followed by `copy_from_slice`. -/
def copy_into (bytes : Bytes) (offset : Nat) (data : Bytes) : Option Bytes :=
  if offset + data.length ≤ bytes.length then
    some (bytes.take offset ++ data ++ bytes.drop (offset + data.length))
  else none

/-- The mirrors, as `http_get_range` shows them: the answer to a request for a range of a URL, if there
    is one in time. -/
abbrev Mirrors := String → Nat → Nat → Option (Result HttpResponse)

/-- One turn of the loop of `fetch_piece_from_webseed`. -/
def fetch_slice (crate : UrlCrate) (http : Mirrors) (torrent : TorrentMeta) (base_url : String)
    (piece_index piece_start : Nat) (piece : Bytes) (slice : FileSlice) : Result Bytes :=
  if slice.length = 0 then pure piece
  else do
    let file_url ← webseed_file_url crate base_url torrent slice.file_index
    let end_exclusive ← ok_or (checked_add slice.offset_in_file slice.length)
      (.Internal s!"webseed range overflow for piece {piece_index}")
    let response ← (http file_url slice.offset_in_file end_exclusive).getD
      (.error (.Internal s!"webseed range request timed out: {file_url}"))
    let _ ← reject_if (response.status ≠ 206)
      (.Internal s!"webseed returned HTTP {response.status} instead of 206 for {file_url}")
    let expected_len := slice.length
    let _ ← reject_if (expected_len > usize.MAX)
      (.Internal s!"webseed slice length exceeds usize for {file_url}")
    let _ ← reject_if (response.body.length ≠ expected_len)
      (.Internal s!"webseed returned {response.body.length} bytes, expected {expected_len} for {file_url}")
    let file_start ← file_absolute_start torrent slice.file_index
    let absolute_start ← ok_or (checked_add file_start slice.offset_in_file)
      (.Internal "webseed absolute offset overflow")
    let piece_offset ← ok_or (checked_sub absolute_start piece_start)
      (.Internal "webseed slice starts before piece")
    let _ ← ok_or (checked_add piece_offset expected_len) (.Internal "webseed piece copy range overflowed")
    ok_or (copy_into piece piece_offset response.body)
      (.Internal s!"webseed slice exceeds piece {piece_index} bounds")

def fetch_piece_from_webseed (crate : UrlCrate) (http : Mirrors) (torrent : TorrentMeta) (piece_index : Nat)
    (base_url : String) : Result Bytes := do
  let (piece_start, _) ← ok_or (torrent.piece_byte_range piece_index)
    (.Internal s!"piece {piece_index} out of range")
  let piece_len := piece_length_for_meta torrent piece_index
  let _ ← reject_if (piece_len > usize.MAX) (.Internal s!"piece {piece_index} length exceeds usize")
  let slices ← piece_file_ranges torrent piece_index
  slices.foldlM (fetch_slice crate http torrent base_url piece_index piece_start) (List.replicate piece_len 0)

/-- The index of the mirror for an attempt, in wrapping arithmetic. -/
def mirror_index (len piece_index attempt : Nat) : Nat :=
  let stride := webseed_mirror_stride len
  (piece_index * stride % 2 ^ 64 + attempt * stride % 2 ^ 64) % 2 ^ 64 % len

/-- The mirrors that are tried for a piece, in this order. -/
def mirrors (webseeds : Vec String) (piece_index : Nat) : Vec String :=
  (List.range (min webseeds.length WEBSEED_MAX_MIRROR_ATTEMPTS)).filterMap fun attempt =>
    webseeds[mirror_index webseeds.length piece_index attempt]?

/-- The loop over the mirrors, with the last error. -/
def try_mirrors (fetch : String → Result Bytes) : Option CoreError → Vec String → Result Bytes
  | last_error, [] => .error (last_error.getD (.Internal "all webseed mirrors failed"))
  | _, base :: bases =>
    match fetch base with
    | .ok piece => .ok piece
    | .error error => try_mirrors fetch (some error) bases

def fetch_webseed_piece (crate : UrlCrate) (http : Mirrors) (torrent : TorrentMeta) (piece_index : Nat)
    (webseeds : Vec String) : Result Bytes :=
  if webseeds = [] then .error (.Internal "torrent has no usable webseeds")
  else try_mirrors (fetch_piece_from_webseed crate http torrent piece_index) none (mirrors webseeds piece_index)

/-- The result, and the files and the bitfield after it. -/
def download_webseed_piece (sha : Sha) (crate : UrlCrate) (http : Mirrors) (storage : StorageIo)
    (piece_index : Nat) (webseeds : Vec String) (disk : Disk) (shared_have : PieceBitfield) :
    Result Bool × Disk × PieceBitfield :=
  if shared_have.has piece_index then (.ok false, disk, shared_have)
  else
    match fetch_webseed_piece crate http storage.torrent piece_index webseeds with
    | .error error => (.error error, disk, shared_have)
    | .ok data =>
      if verify_piece sha storage.torrent piece_index data = false then
        (.error (.Internal s!"webseed piece {piece_index} hash mismatch"), disk, shared_have)
      else
        match storage.write_piece piece_index data disk with
        | (.error error, disk) => (.error error, disk, shared_have)
        | (.ok _, disk) =>
          if shared_have.has piece_index then (.ok false, disk, shared_have)
          else (.ok true, disk, shared_have.set piece_index)

section
variable {crate : UrlCrate} {http : Mirrors} {torrent : TorrentMeta} {base_url : String}
  {piece_index piece_start : Nat} {piece out : Bytes}

theorem length_copy_into {bytes data : Bytes} {offset : Nat} (h : copy_into bytes offset data = some out) :
    out.length = bytes.length := by
  unfold copy_into at h
  split at h
  · rename_i hin
    cases h
    simp only [List.length_append, List.length_take, List.length_drop]
    omega
  · cases h

theorem length_fetch_slice {slice : FileSlice}
    (h : fetch_slice crate http torrent base_url piece_index piece_start piece slice = .ok out) :
    out.length = piece.length := by
  unfold fetch_slice at h
  split at h
  · cases h
    rfl
  · simp only [bind_eq_ok_iff] at h
    obtain ⟨_, _, _, _, _, _, _, _, _, _, _, _, _, _, _, _, _, _, _, _, hcopy⟩ := h
    exact length_copy_into (ok_or_eq_ok_iff.mp hcopy)

theorem length_fetch_slices {slices : Vec FileSlice}
    (h : slices.foldlM (fetch_slice crate http torrent base_url piece_index piece_start) piece = .ok out) :
    out.length = piece.length := by
  induction slices generalizing piece with
  | nil =>
    cases h
    rfl
  | cons slice slices ih =>
    rw [List.foldlM_cons, bind_eq_ok_iff] at h
    obtain ⟨next, hslice, hrest⟩ := h
    rw [ih hrest, length_fetch_slice hslice]

/-- A mirror that answers gives as many bytes as the piece has. -/
theorem length_fetch_piece (h : fetch_piece_from_webseed crate http torrent piece_index base_url = .ok out) :
    out.length = piece_length_for_meta torrent piece_index := by
  rw [fetch_piece_from_webseed, bind_eq_ok_iff] at h
  obtain ⟨⟨piece_start, stop⟩, -, h⟩ := h
  simp only [bind_eq_ok_iff] at h
  obtain ⟨_, _, slices, _, hfetch⟩ := h
  rw [length_fetch_slices hfetch, List.length_replicate]

/-- The loop over the mirrors stops at the first answer, whatever it is. -/
theorem try_mirrors_eq_ok_iff {fetch : String → Result Bytes} {last_error : Option CoreError} {bases : Vec String} :
    try_mirrors fetch last_error bases = .ok out ↔ ∃ front base rest, bases = front ++ base :: rest ∧
      (∀ failed ∈ front, ∃ error, fetch failed = .error error) ∧ fetch base = .ok out := by
  induction bases generalizing last_error with
  | nil => simp [try_mirrors]
  | cons first bases ih =>
    rw [try_mirrors]
    constructor
    · intro h
      cases hfetch : fetch first with
      | ok piece =>
        rw [hfetch] at h
        cases h
        exact ⟨[], first, bases, rfl, by simp, hfetch⟩
      | error error =>
        rw [hfetch] at h
        obtain ⟨front, base, rest, rfl, hfailed, hanswer⟩ := ih.mp h
        refine ⟨first :: front, base, rest, rfl, ?_, hanswer⟩
        exact List.forall_mem_cons.mpr ⟨⟨error, hfetch⟩, hfailed⟩
    · rintro ⟨front, base, rest, hbases, hfailed, hanswer⟩
      cases front with
      | nil =>
        obtain ⟨rfl, rfl⟩ := List.cons.inj hbases
        rw [hanswer]
      | cons failed front =>
        obtain ⟨rfl, rfl⟩ := List.cons.inj hbases
        obtain ⟨⟨error, herror⟩, hfailed⟩ := List.forall_mem_cons.mp hfailed
        rw [herror]
        exact ih.mpr ⟨front, base, rest, rfl, hfailed, hanswer⟩

/-- If some mirror answers, the loop has an answer. -/
theorem exists_try_mirrors {fetch : String → Result Bytes} {last_error : Option CoreError}
    {bases : Vec String} {base : String} (hbase : base ∈ bases) (h : fetch base = .ok out) :
    ∃ answer, try_mirrors fetch last_error bases = .ok answer := by
  induction bases generalizing last_error with
  | nil => simp at hbase
  | cons first bases ih =>
    rw [try_mirrors]
    cases hfetch : fetch first with
    | ok piece => exact ⟨piece, rfl⟩
    | error error =>
      rcases List.mem_cons.mp hbase with rfl | hbase
      · rw [h] at hfetch
        cases hfetch
      · exact ih hbase

end

/-- A mirror answers with bytes that pass the verification of the piece. -/
def ServesPiece (sha : Sha) (crate : UrlCrate) (http : Mirrors) (torrent : TorrentMeta) (piece_index : Nat)
    (base : String) : Prop :=
  ∃ data, fetch_piece_from_webseed crate http torrent piece_index base = .ok data ∧
    verify_piece sha torrent piece_index data = true

/-- A mirror answers with bytes that do not. -/
def ServesWrong (sha : Sha) (crate : UrlCrate) (http : Mirrors) (torrent : TorrentMeta) (piece_index : Nat)
    (base : String) : Prop :=
  ∃ data, fetch_piece_from_webseed crate http torrent piece_index base = .ok data ∧
    verify_piece sha torrent piece_index data = false

/-- The piece is marked, and what is stored for it passes its verification. -/
structure Held (sha : Sha) (storage : StorageIo) (piece_index : Nat)
    (outcome : Result Bool × Disk × PieceBitfield) : Prop where
  progressed : outcome.1 = .ok true
  marked : outcome.2.2.has piece_index = true
  stored : ∃ data, storage.read_piece outcome.2.1 piece_index = .ok data ∧
    verify_piece sha storage.torrent piece_index data = true

section
variable {sha : Sha} {crate : UrlCrate} {http : Mirrors} {storage : StorageIo} {piece_index : Nat}
  {webseeds : Vec String} {shared_have : PieceBitfield} {data : Bytes}

/-- An answer that passes the verification is stored and marked. -/
theorem download_of_fetch (hmissing : shared_have.has piece_index = false) (disk : Disk)
    (hfetch : fetch_webseed_piece crate http storage.torrent piece_index webseeds = .ok data)
    (hvalid : Valid sha storage.torrent) (hsuffix : storage.SuffixValid)
    (hindex : piece_index < storage.torrent.piece_count) (hroom : piece_index / 8 < shared_have.bytes.length)
    (hlength : data.length = piece_length_for_meta storage.torrent piece_index)
    (hverify : verify_piece sha storage.torrent piece_index data = true) :
    Held sha storage piece_index
      (download_webseed_piece sha crate http storage piece_index webseeds disk shared_have) := by
  have hpieces := v1_pieces_of_lt hvalid hindex
  have hrange := PieceRange.of_lt hvalid hpieces hindex
  have hdata := hlength.trans (piece_length_of_range hvalid hpieces hrange)
  obtain ⟨disk', hwrite, hread, -⟩ := write_piece_spec hvalid hrange hsuffix hdata disk
  have hrun : download_webseed_piece sha crate http storage piece_index webseeds disk shared_have =
      (.ok true, disk', shared_have.set piece_index) := by
    simp [download_webseed_piece, hmissing, hfetch, hverify, hwrite]
  rw [hrun]
  exact ⟨rfl, PieceBitfield.has_set hroom, data, hread, hverify⟩

/-- An answer that does not is not tried again elsewhere. -/
theorem verify_of_held {disk : Disk} (hmissing : shared_have.has piece_index = false)
    (hfetch : fetch_webseed_piece crate http storage.torrent piece_index webseeds = .ok data)
    (hheld : Held sha storage piece_index
      (download_webseed_piece sha crate http storage piece_index webseeds disk shared_have)) :
    verify_piece sha storage.torrent piece_index data = true := by
  by_contra hmismatch
  have hprogressed := hheld.progressed
  simp [download_webseed_piece, hmissing, hfetch, Bool.eq_false_iff.mpr hmismatch] at hprogressed

/-- The answer that the loop over the mirrors takes is that of the first mirror that does not fail. -/
theorem fetch_webseed_piece_eq_ok_iff :
    fetch_webseed_piece crate http storage.torrent piece_index webseeds = .ok data ↔
      ∃ front base rest, mirrors webseeds piece_index = front ++ base :: rest ∧
        (∀ failed ∈ front, ∃ error,
          fetch_piece_from_webseed crate http storage.torrent piece_index failed = .error error) ∧
        fetch_piece_from_webseed crate http storage.torrent piece_index base = .ok data := by
  unfold fetch_webseed_piece
  split
  · rename_i hempty
    simp [hempty, mirrors]
  · exact try_mirrors_eq_ok_iff

theorem exists_fetch_webseed_piece {base : String} (hbase : base ∈ mirrors webseeds piece_index)
    (h : fetch_piece_from_webseed crate http storage.torrent piece_index base = .ok data) :
    ∃ answer, fetch_webseed_piece crate http storage.torrent piece_index webseeds = .ok answer := by
  have hwebseeds : webseeds ≠ [] := by
    rintro rfl
    simp [mirrors] at hbase
  rw [fetch_webseed_piece, if_neg hwebseeds]
  exact exists_try_mirrors hbase h

end

/-- A missing piece that one of the tried mirrors can serve ends up stored and marked exactly if every
    tried mirror with wrong bytes comes after one with the right bytes. -/
theorem webseed_piece_held_iff {sha : Sha} {storage : StorageIo} {bytes : Bytes}
    (hparse : parse_torrent sha bytes = .ok storage.torrent) (hsuffix : storage.SuffixValid)
    (crate : UrlCrate) (http : Mirrors) (webseeds : Vec String) {piece_index : Nat}
    (hindex : piece_index < storage.torrent.piece_count) (disk : Disk) {shared_have : PieceBitfield}
    (hlength : shared_have.bytes.length = (storage.torrent.piece_count + 7) / 8)
    (hmissing : shared_have.has piece_index = false)
    (hserved : ∃ base ∈ mirrors webseeds piece_index,
      ServesPiece sha crate http storage.torrent piece_index base) :
    Held sha storage piece_index
        (download_webseed_piece sha crate http storage piece_index webseeds disk shared_have) ↔
      ∀ front base rest, mirrors webseeds piece_index = front ++ base :: rest →
        ServesWrong sha crate http storage.torrent piece_index base →
        ∃ earlier ∈ front, ServesPiece sha crate http storage.torrent piece_index earlier := by
  have hvalid := parse_torrent_valid hparse
  have hroom : piece_index / 8 < shared_have.bytes.length := by omega
  -- the first mirror that answers decides
  obtain ⟨base, hbase, good, hgood, -⟩ := hserved
  obtain ⟨data, hfetch⟩ := exists_fetch_webseed_piece hbase hgood
  obtain ⟨front, base, rest, hmirrors, hfailed, hanswer⟩ := fetch_webseed_piece_eq_ok_iff.mp hfetch
  have hsilent : ∀ failed ∈ front, ∀ answer,
      fetch_piece_from_webseed crate http storage.torrent piece_index failed ≠ .ok answer := by
    intro failed hmem answer hok
    obtain ⟨error, herror⟩ := hfailed failed hmem
    rw [herror] at hok
    cases hok
  constructor
  · intro hheld front' base' rest' hmirrors' hwrong
    have hverify := verify_of_held hmissing hfetch hheld
    obtain ⟨wrong, hwrong, hmismatch⟩ := hwrong
    rw [hmirrors, List.append_eq_append_iff] at hmirrors'
    rcases hmirrors' with ⟨between, rfl, hrest⟩ | ⟨between, rfl, hrest⟩
    · cases between with
      | nil =>
        obtain ⟨rfl, -⟩ := List.cons.inj hrest
        rw [hanswer] at hwrong
        cases hwrong
        rw [hverify] at hmismatch
        cases hmismatch
      | cons first between =>
        obtain ⟨rfl, -⟩ := List.cons.inj hrest
        exact ⟨base, by simp, data, hanswer, hverify⟩
    · cases between with
      | nil =>
        obtain ⟨rfl, -⟩ := List.cons.inj hrest
        rw [hanswer] at hwrong
        cases hwrong
        rw [hverify] at hmismatch
        cases hmismatch
      | cons first between =>
        obtain ⟨rfl, -⟩ := List.cons.inj hrest
        exact absurd hwrong (hsilent base' (by simp) wrong)
  · intro hordered
    have hverify : verify_piece sha storage.torrent piece_index data = true := by
      by_contra hmismatch
      obtain ⟨earlier, hearlier, answer, hok, -⟩ :=
        hordered front base rest hmirrors ⟨data, hanswer, Bool.eq_false_iff.mpr hmismatch⟩
      exact hsilent earlier hearlier answer hok
    exact download_of_fetch hmissing disk hfetch hvalid hsuffix hindex hroom (length_fetch_piece hanswer) hverify

/-- A torrent of one piece: a file of twenty times the letter `a`. -/
def one_piece : Bytes := as_bytes
  "d4:infod6:lengthi20e4:name1:x12:piece lengthi16384e6:pieces20:aaaaaaaaaaaaaaaaaaaaee"

def mirror_url (host : String) : Url := ⟨"http", "", none, some (.Domain host), none, "/x", none, none⟩

/-- The URL crate on the URLs of three mirrors. -/
def mirror_crate : UrlCrate where
  parse raw :=
    if raw = "http://down/x" then .ok (mirror_url "down")
    else if raw = "http://bad/x" then .ok (mirror_url "bad")
    else if raw = "http://good/x" then .ok (mirror_url "good")
    else .error "relative URL without a base"
  join _ _ := .error "relative URL without a base"
  push_segments _ _ := none
  as_str url := "http://" ++ (url.host.map Host.to_string).getD "" ++ url.path
  host_str url := url.host.map Host.to_string
  port_or_known_default _ := some 80
  query_pairs _ := []

/-- One mirror is down, one has a file of twenty times the letter `b`, and one the right file. -/
def mirror_answers : Mirrors := fun url _ _ =>
  if url = "http://good/x" then some (.ok ⟨206, List.replicate 20 97, url, none⟩)
  else if url = "http://bad/x" then some (.ok ⟨206, List.replicate 20 98, url, none⟩)
  else none

/-- The wrong file is not asked for if the right one comes before it. -/
theorem webseed_piece_held_iff_right_first : ∃ torrent, parse_torrent Sha.leading one_piece = .ok torrent ∧
    Held Sha.leading (StorageIo.new torrent ["srv"]) 0
      (download_webseed_piece Sha.leading mirror_crate mirror_answers (StorageIo.new torrent ["srv"]) 0
        ["http://down/x", "http://good/x", "http://bad/x"] (fun _ => none) (PieceBitfield.new 1)) := by
  have hrun : (parse_torrent Sha.leading one_piece >>= fun torrent => .ok (torrent.piece_count,
      fetch_piece_from_webseed mirror_crate mirror_answers torrent 0 "http://down/x",
      fetch_piece_from_webseed mirror_crate mirror_answers torrent 0 "http://good/x",
      verify_piece Sha.leading torrent 0 (List.replicate 20 97))) =
        .ok (1, .error (.Internal "webseed range request timed out: http://down/x"),
          .ok (List.replicate 20 97), true) := by
    decide +kernel
  obtain ⟨torrent, hparse, hrun⟩ := bind_eq_ok_iff.mp hrun
  simp only [Except.ok.injEq, Prod.mk.injEq] at hrun
  obtain ⟨hcount, hdown, hgood, hverify⟩ := hrun
  have hmirrors : mirrors ["http://down/x", "http://good/x", "http://bad/x"] 0 =
      ["http://down/x", "http://good/x", "http://bad/x"] := by decide
  have hserves : ServesPiece Sha.leading mirror_crate mirror_answers torrent 0 "http://good/x" := ⟨_, hgood, hverify⟩
  have hsuffix : (StorageIo.new torrent ["srv"]).SuffixValid := fun suffix h => by cases h
  have hin : 0 < (StorageIo.new torrent ["srv"]).torrent.piece_count := by
    change 0 < torrent.piece_count
    omega
  have hlength : (PieceBitfield.new 1).bytes.length =
      ((StorageIo.new torrent ["srv"]).torrent.piece_count + 7) / 8 := by
    change (PieceBitfield.new 1).bytes.length = (torrent.piece_count + 7) / 8
    rw [hcount]
    rfl
  refine ⟨torrent, hparse, ?_⟩
  refine (webseed_piece_held_iff hparse hsuffix mirror_crate mirror_answers _ hin (fun _ => none) hlength
    (PieceBitfield.has_new 1 0) ⟨"http://good/x", by rw [hmirrors]; simp, hserves⟩).mpr ?_
  intro front base rest hsplit hwrong
  rw [hmirrors] at hsplit
  obtain ⟨data, hdata, hmismatch⟩ := hwrong
  match front with
  | [] =>
    obtain ⟨rfl, -⟩ := List.cons.inj hsplit
    cases hdown.symm.trans hdata
  | [_] =>
    obtain ⟨-, hsplit⟩ := List.cons.inj hsplit
    obtain ⟨rfl, -⟩ := List.cons.inj hsplit
    obtain rfl := Except.ok.inj (hgood.symm.trans hdata)
    cases hverify.symm.trans hmismatch
  | _ :: second :: _ =>
    obtain ⟨-, hsplit⟩ := List.cons.inj hsplit
    obtain ⟨rfl, -⟩ := List.cons.inj hsplit
    exact ⟨"http://good/x", by simp, hserves⟩

/-- The right file is not asked for if the wrong one comes before it. -/
theorem wrong_mirror_ends_download : ∃ torrent, parse_torrent Sha.leading one_piece = .ok torrent ∧
    (∃ base ∈ mirrors ["http://bad/x", "http://good/x"] 0,
      ServesPiece Sha.leading mirror_crate mirror_answers torrent 0 base) ∧
    ¬ Held Sha.leading (StorageIo.new torrent ["srv"]) 0
      (download_webseed_piece Sha.leading mirror_crate mirror_answers (StorageIo.new torrent ["srv"]) 0
        ["http://bad/x", "http://good/x"] (fun _ => none) (PieceBitfield.new 1)) := by
  have hrun : (parse_torrent Sha.leading one_piece >>= fun torrent => .ok (
      fetch_piece_from_webseed mirror_crate mirror_answers torrent 0 "http://good/x",
      verify_piece Sha.leading torrent 0 (List.replicate 20 97),
      (download_webseed_piece Sha.leading mirror_crate mirror_answers (StorageIo.new torrent ["srv"]) 0
        ["http://bad/x", "http://good/x"] (fun _ => none) (PieceBitfield.new 1)).1)) =
        .ok (.ok (List.replicate 20 97), true, .error (.Internal "webseed piece 0 hash mismatch")) := by
    decide +kernel
  obtain ⟨torrent, hparse, hrun⟩ := bind_eq_ok_iff.mp hrun
  simp only [Except.ok.injEq, Prod.mk.injEq] at hrun
  obtain ⟨hgood, hverify, hdownload⟩ := hrun
  have hmirrors : mirrors ["http://bad/x", "http://good/x"] 0 = ["http://bad/x", "http://good/x"] := by decide
  refine ⟨torrent, hparse, ⟨"http://good/x", by rw [hmirrors]; simp, _, hgood, hverify⟩, fun hheld => ?_⟩
  have hprogressed := hheld.progressed
  rw [hdownload] at hprogressed
  cases hprogressed

/-- `push`: a slash stands before the new segment, except after the path `/`. -/
def push_segment (encode : String → String) (path segment : String) : String :=
  if path = "/" then path ++ encode segment else path ++ "/" ++ encode segment

/-- What the URL crate documents: a URL of these schemes has a host, segments are pushed one after the other, each
    percent-encoded, and the text of a URL with a host has its path in it. Dot segments would be left out. -/
structure PushesSegments (crate : UrlCrate) (encode : String → String) : Prop where
  host {raw : String} {url : Url} (h : crate.parse raw = .ok url)
    (hscheme : url.scheme = "http" ∨ url.scheme = "https") :
    url.host.isSome
  push {url : Url} {segments : Vec String} (hscheme : url.scheme = "http" ∨ url.scheme = "https")
    (hdots : "." ∉ segments ∧ ".." ∉ segments) :
    crate.push_segments url segments = some { url with path := segments.foldl (push_segment encode) url.path }
  path {url : Url} {left right : String} (hhost : url.host.isSome)
    (h : crate.as_str { url with path := left } = crate.as_str { url with path := right }) : left = right

variable {encode : String → String}

/-- Segments with a slash before each. -/
def slashed (encode : String → String) (segments : Vec String) : String :=
  String.join (segments.map fun segment => "/" ++ encode segment)

/-- Components separated by single slashes. -/
def separated (encode : String → String) : Vec String → String
  | [] => ""
  | segment :: segments => encode segment ++ slashed encode segments

theorem foldl_push_segment {segments : Vec String} (hne : "" ∉ segments.map encode) {path : String}
    (hpath : path ≠ "/") :
    segments.foldl (push_segment encode) path = path ++ slashed encode segments := by
  induction segments generalizing path with
  | nil => simp [slashed]
  | cons segment segments ih =>
    rw [List.map_cons, List.mem_cons, not_or] at hne
    have hlonger : path ++ "/" ++ encode segment ≠ "/" := by
      intro heq
      have hlength := congrArg String.length heq
      have hpos : (encode segment).length ≠ 0 := fun hzero => hne.1 (String.length_eq_zero_iff.mp hzero).symm
      rw [String.length_append, String.length_append] at hlength
      have hslash : "/".length = 1 := rfl
      omega
    rw [List.foldl_cons, push_segment, if_neg hpath, ih hne.2 hlonger]
    simp [slashed, String.append_assoc]

variable {crate : UrlCrate} {sha : Sha} {bytes : Bytes} {torrent : TorrentMeta} {base_url : String} {parsed : Url}
  {file_index : Nat} {file : MetaFile}

theorem webseed_file_url_iff (hcrate : PushesSegments crate encode) (hparse : parse_torrent sha bytes = .ok torrent)
    (hurl : crate.parse base_url = .ok parsed) (hscheme : parsed.scheme = "http" ∨ parsed.scheme = "https")
    (hfile : torrent.files[file_index]? = some file) :
    (webseed_file_url crate base_url torrent file_index =
        .ok (crate.as_str { parsed with path := parsed.path ++ separated encode file.path }) ∧
          "" ∉ file.path.map encode) ↔
      parsed.path = "/" ∧ (torrent.is_multi_file = true ∨ base_url.toList.getLast? = some '/') ∧
        "" ∉ file.path.map encode := by
  have hvalid := (parse_torrent_valid hparse).files
  have hmem := List.mem_of_getElem? hfile
  have hhost := hcrate.host hurl hscheme
  have hdots : "." ∉ file.path ∧ ".." ∉ file.path :=
    ⟨fun h => (hvalid.plain file hmem _ h).ne_dot rfl, fun h => (hvalid.plain file hmem _ h).ne_dotdot rfl⟩
  obtain ⟨segment, segments, hpath⟩ := List.exists_cons_of_ne_nil (hvalid.path_ne_nil file hmem)
  rw [← and_assoc, and_congr_left_iff]
  intro hne
  simp only [webseed_file_url, hfile, ok_or, bind_ok, hurl, reject_if, not_not.mpr hscheme, if_false,
    hcrate.push hscheme hdots]
  have hsegment : encode segment ≠ "" := fun heq => hne (by simp [hpath, heq])
  have hsegments : "" ∉ segments.map encode := fun h => hne (by simp_all)
  have hslash : "/" ++ encode segment ≠ "/" := by simpa using hsegment
  by_cases hdirect : torrent.is_multi_file = false ∧ base_url.toList.getLast? ≠ some '/'
  · have hpushed : ¬ (torrent.is_multi_file = true ∨ base_url.toList.getLast? = some '/') := by simpa using hdirect
    simp only [if_pos hdirect, hpushed, and_false, iff_false, pure_eq_ok_iff]
    intro hsame
    have hnone : parsed.path = parsed.path ++ separated encode file.path := hcrate.path hhost hsame
    have hlength := congrArg String.length hnone
    rw [hpath, separated, String.length_append, String.length_append] at hlength
    exact hsegment (String.length_eq_zero_iff.mp (by omega))
  · have hpushed : torrent.is_multi_file = true ∨ base_url.toList.getLast? = some '/' := by
      simpa [or_iff_not_imp_left] using hdirect
    simp only [if_neg hdirect, hpushed, and_true, pure_eq_ok_iff]
    constructor
    · intro hsame
      by_contra hroot
      have htwice := hcrate.path hhost hsame
      rw [foldl_push_segment hne hroot, String.append_right_inj, hpath] at htwice
      have hlength := congrArg String.length htwice
      simp [slashed, separated, String.length_append] at hlength
    · intro hroot
      rw [hroot, hpath, List.foldl_cons, push_segment, if_pos rfl, foldl_push_segment hsegments hslash, separated,
        String.append_assoc]

/-- A crate that pushes names as they are, where every URL has the given path. -/
def pushing (path : String) : UrlCrate :=
  { mirror_crate with
    parse := fun _ => .ok ⟨"http", "", none, some (.Domain "seed"), none, path, none, none⟩
    push_segments := fun url segments => some { url with path := segments.foldl (push_segment id) url.path } }

/-- Two slashes below a directory. -/
theorem webseed_file_url_twice : (parse_torrent Sha.leading one_piece >>= fun torrent =>
    webseed_file_url (pushing "/pub/") "http://seed/pub/" torrent 0) = .ok "http://seed/pub//x" := by
  decide +kernel

theorem webseed_file_url_iff_root : ∃ torrent, parse_torrent Sha.leading one_piece = .ok torrent ∧
    webseed_file_url (pushing "/") "http://seed/" torrent 0 = .ok "http://seed/x" := by
  have hrun : (parse_torrent Sha.leading one_piece >>= fun torrent => .ok (torrent.files.map MetaFile.path)) =
      .ok [["x"]] := by
    decide +kernel
  obtain ⟨torrent, hparse, hpaths⟩ := bind_eq_ok_iff.mp hrun
  obtain ⟨file, hfiles, hpath⟩ := List.map_eq_singleton_iff.mp (Except.ok.inj hpaths)
  have hcrate : PushesSegments (pushing "/") id := ⟨fun h _ => Except.ok.inj h ▸ rfl, fun _ _ => rfl,
    fun _ => (String.append_right_inj _).mp⟩
  have hnames : "" ∉ file.path.map id := by rw [hpath]; decide
  have hbase :
      (pushing "/").parse "http://seed/" = .ok ⟨"http", "", none, some (.Domain "seed"), none, "/", none, none⟩ := rfl
  have hfile : torrent.files[0]? = some file := by rw [hfiles]; rfl
  have hurl := (webseed_file_url_iff hcrate hparse hbase (.inl rfl) hfile).mpr ⟨rfl, .inr (by decide), hnames⟩
  refine ⟨torrent, hparse, hurl.1.trans ?_⟩
  rw [hpath]
  decide

end swarmotter.engine.webseed

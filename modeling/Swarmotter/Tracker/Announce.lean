import Swarmotter.Hash

open swarmotter.net percent decimal

namespace swarmotter.tracker

inductive AnnounceEvent where
  | Empty
  | Started
  | Stopped
  | Completed
  deriving DecidableEq, Repr

def AnnounceEvent.as_str : AnnounceEvent → String
  | Empty => ""
  | Started => "started"
  | Stopped => "stopped"
  | Completed => "completed"

structure AnnounceRequest where
  tracker_url : String
  info_hash : PeerInfoHash
  peer_id : Vector UInt8 20
  port : UInt16
  uploaded : UInt64
  downloaded : UInt64
  left : UInt64
  event : AnnounceEvent
  numwant : Option UInt32
  compact : Bool

/-- A discovered peer. -/
structure PeerAddr where
  ip : net.IpAddr
  port : UInt16
  deriving DecidableEq, Repr

structure AnnounceResponse where
  interval : Nat
  min_interval : Option Nat
  seeders : Nat
  leechers : Nat
  peers : Vec PeerAddr
  failure_reason : Option String
  tracker_id : Option String
  deriving DecidableEq, Repr

/-- The derived `Default`. -/
def AnnounceResponse.default : AnnounceResponse := ⟨0, none, 0, 0, [], none, none⟩

/-- Letters, digits and `-_.~`. -/
def unreserved (byte : UInt8) : Bool :=
  (48 ≤ byte && byte ≤ 57) || (65 ≤ byte && byte ≤ 90) || (97 ≤ byte && byte ≤ 122) || byte = 45 || byte = 95 ||
    byte = 46 || byte = 126

/-- Percent-encode arbitrary bytes for a query value. -/
def bytes_escape (bytes : Bytes) : String := ascii (escape unreserved bytes)

/-- What `escape_query` keeps: also percent signs and colons. -/
def query_safe (byte : UInt8) : Bool := unreserved byte || byte = 37 || byte = 58

def escape_query (s : String) : String := ascii (escape query_safe (as_bytes s))

/-- The pairs in their order, each part escaped. -/
def serde_urlencoded (pairs : Vec (String × String)) : String :=
  "&".intercalate (pairs.map fun pair => escape_query pair.1 ++ "=" ++ escape_query pair.2)

namespace AnnounceRequest

/-- The pairs that are appended to those of the tracker URL. -/
def own_pairs (request : AnnounceRequest) : Vec (String × String) :=
  [("info_hash", bytes_escape request.info_hash.bytes.toList), ("peer_id", bytes_escape request.peer_id.toList),
    ("port", toString request.port.toNat), ("uploaded", toString request.uploaded.toNat),
    ("downloaded", toString request.downloaded.toNat), ("left", toString request.left.toNat),
    ("compact", if request.compact then "1" else "0")] ++
  (if request.event ≠ .Empty then [("event", request.event.as_str)] else []) ++
  (match request.numwant with
    | some n => [("numwant", toString n.toNat)]
    | none => [])

/-- The announce URL with its query. -/
def build_url (crate : UrlCrate) (request : AnnounceRequest) : Result String := do
  let base ← match crate.parse request.tracker_url with
    | .ok base => pure base
    | .error e => .error (.Internal s!"bad tracker url: {e}")
  let query := serde_urlencoded (crate.query_pairs base ++ request.own_pairs)
  let host := (crate.host_str base).getD ""
  let host_port := match base.port with
    | some port => host ++ ":" ++ toString port.toNat
    | none => host
  pure (base.scheme ++ "://" ++ host_port ++ base.path ++ "?" ++ query)

/-- What the tracker is to read behind its own pairs. -/
def announced (request : AnnounceRequest) : Vec (Bytes × Bytes) :=
  [(as_bytes "info_hash", request.info_hash.bytes.toList), (as_bytes "peer_id", request.peer_id.toList),
    (as_bytes "port", render request.port.toNat), (as_bytes "uploaded", render request.uploaded.toNat),
    (as_bytes "downloaded", render request.downloaded.toNat), (as_bytes "left", render request.left.toNat),
    (as_bytes "compact", as_bytes (if request.compact then "1" else "0"))] ++
  (if request.event ≠ .Empty then [(as_bytes "event", as_bytes request.event.as_str)] else []) ++
  (match request.numwant with
    | some n => [(as_bytes "numwant", render n.toNat)]
    | none => [])

end AnnounceRequest

/-- The pairs of a query are those of the tracker URL, unchanged as texts and in order, followed by the announced
    ones. -/
def Announces (crate : UrlCrate) (base : Url) (request : AnnounceRequest) (pairs : Vec (Bytes × Bytes)) : Prop :=
  ∃ front, pairs = front ++ request.announced ∧ front.map text_pair = crate.query_pairs base

/-- Nothing in the decoded query of the tracker URL looks like a percent escape. -/
def Unescaped (crate : UrlCrate) (base : Url) : Prop :=
  ∀ pair ∈ crate.query_pairs base, has_escape (as_bytes pair.1) = false ∧ has_escape (as_bytes pair.2) = false

/-- The decoded query of the tracker URL is UTF-8. -/
def Textual (base : Url) : Prop :=
  ∀ pair ∈ base.form_pairs, (from_utf8 pair.1).isSome = true ∧ (from_utf8 pair.2).isSome = true

section
variable {crate : UrlCrate} {request : AnnounceRequest} {base : Url} {pairs : Vec (String × String)}

theorem unreserved_lt {byte : UInt8} (h : unreserved byte = true) : byte.toNat < 128 := by
  simp only [unreserved, Bool.or_eq_true, Bool.and_eq_true, decide_eq_true_eq, UInt8.le_iff_toNat_le,
    ← UInt8.toNat_inj, UInt8.reduceToNat] at h
  omega

theorem query_safe_lt {byte : UInt8} (h : query_safe byte = true) : byte.toNat < 128 := by
  simp only [query_safe, Bool.or_eq_true, decide_eq_true_eq] at h
  rcases h with (h | rfl) | rfl
  · exact unreserved_lt h
  · decide
  · decide

theorem query_safe_of_isSome_value {byte : UInt8} (h : (hex.value byte).isSome = true) : query_safe byte = true := by
  unfold hex.value at h
  simp only [query_safe, unreserved, Bool.or_eq_true, Bool.and_eq_true, decide_eq_true_eq, UInt8.le_iff_toNat_le,
    ← UInt8.toNat_inj, UInt8.reduceToNat] at h ⊢
  repeat' split at h
  all_goals first | omega | cases h

theorem as_bytes_bytes_escape (bytes : Bytes) : as_bytes (bytes_escape bytes) = escape unreserved bytes :=
  as_bytes_ascii_escape (fun _ => unreserved_lt) bytes

theorem as_bytes_escape_query (s : String) : as_bytes (escape_query s) = escape query_safe (as_bytes s) :=
  as_bytes_ascii_escape (fun _ => query_safe_lt) _

theorem as_bytes_serde_urlencoded (pairs : Vec (String × String)) :
    as_bytes (serde_urlencoded pairs) = [form.ampersand].intercalate
      ((pairs.map fun pair => (escape query_safe (as_bytes pair.1),
        escape query_safe (as_bytes pair.2))).map form.assignment) := by
  rw [serde_urlencoded, as_bytes_intercalate, List.map_map, List.map_map]
  congr 1
  apply List.map_congr_left
  intro pair _
  have hequals : as_bytes "=" = [form.equals] := by decide
  simp only [Function.comp_apply, as_bytes_append, as_bytes_escape_query, hequals, form.assignment, List.append_assoc,
    List.singleton_append]

/-- A component is escaped with its percent signs kept, so it is read back decoded once more. -/
theorem component_escape_query (bytes : Bytes) : form.component (escape query_safe bytes) = decode bytes := by
  have hplus : form.plus ∉ escape query_safe bytes := form.not_mem_escape (by decide) (by decide) (by decide)
  rw [form.component, form.spaced_eq_self hplus, decode_escape_of_mark (by decide) fun _ => query_safe_of_isSome_value]

/-- The pairs as the reader of the query sees them. -/
def decoded (pair : String × String) : Bytes × Bytes :=
  (decode (as_bytes pair.1), decode (as_bytes pair.2))

theorem pairs_serde_urlencoded (pairs : Vec (String × String)) :
    form.pairs (as_bytes (serde_urlencoded pairs)) = pairs.map decoded := by
  have hequals : ∀ bytes, form.equals ∉ escape query_safe bytes :=
    fun bytes => form.not_mem_escape (by decide) (by decide) (by decide)
  have hampersand : ∀ bytes, form.ampersand ∉ escape query_safe bytes :=
    fun bytes => form.not_mem_escape (by decide) (by decide) (by decide)
  rw [as_bytes_serde_urlencoded, form.pairs, form.pieces_intercalate, List.map_map]
  · apply List.map_congr_left
    intro pair _
    simp only [Function.comp_apply, component_escape_query, decoded]
  · intro entry hentry
    obtain ⟨pair, -, rfl⟩ := List.mem_map.mp hentry
    exact ⟨hequals _, hampersand _, hampersand _⟩

theorem decode_bytes_escape (bytes : Bytes) : decode (as_bytes (bytes_escape bytes)) = bytes := by
  rw [as_bytes_bytes_escape, decode_escape (by decide)]

theorem decode_toString (n : Nat) : decode (as_bytes (toString n)) = render n := by
  have hplain : mark ∉ render n := by
    intro hmem
    have hdigit := is_digit_of_mem_render hmem
    revert hdigit
    decide
  rw [as_bytes_toString, decode_eq_self (has_escape_of_not_mem hplain)]

/-- The own pairs are read back: the hash and the peer id are escaped before, and the second layer keeps that. -/
theorem own_pairs_decoded (request : AnnounceRequest) : request.own_pairs.map decoded = request.announced := by
  have hname : ∀ name ∈ ["info_hash", "peer_id", "port", "uploaded", "downloaded", "left", "compact", "event",
      "numwant"], decode (as_bytes name) = as_bytes name := by decide +kernel
  simp only [List.forall_mem_cons, List.not_mem_nil, false_implies, implies_true, and_true] at hname
  obtain ⟨h1, h2, h3, h4, h5, h6, h7, h8, h9⟩ := hname
  have hcompact : ∀ compact : Bool, decode (as_bytes (if compact then "1" else "0")) =
      as_bytes (if compact then "1" else "0") := by decide
  have hevent : decode (as_bytes request.event.as_str) = as_bytes request.event.as_str := by
    cases request.event <;> decide
  have hnumwant : (match request.numwant with
      | some n => [("numwant", toString n.toNat)]
      | none => []).map decoded = match request.numwant with
      | some n => [(as_bytes "numwant", render n.toNat)]
      | none => [] := by
    cases request.numwant with
    | none => rfl
    | some n => simp only [List.map_cons, List.map_nil, decoded, decode_toString, h9]
  rw [AnnounceRequest.own_pairs, AnnounceRequest.announced, List.map_append, List.map_append, hnumwant]
  congr 1
  congr 1
  · simp only [List.map_cons, List.map_nil, decoded, decode_bytes_escape, decode_toString, hcompact, h1, h2, h3, h4, h5,
      h6, h7]
  · split
    · simp only [List.map_cons, List.map_nil, decoded, hevent, h8]
    · rfl

/-- An escape costs ASCII characters. -/
theorem has_escape_of_ascii_bytes {s : String} (h : ascii_bytes (decode (as_bytes s)) = ascii_chars s) :
    has_escape (as_bytes s) = false := by
  by_contra hescape
  have hless := (countP_decode (as_bytes s)).2 (Bool.eq_true_of_not_eq_false hescape)
  rw [ascii_chars_eq] at h
  have hlength := congrArg List.length h
  simp only [ascii_bytes, List.length_map, ← List.countP_eq_length_filter] at hlength
  omega

/-- A text survives one more decoding exactly where there is nothing to decode. -/
theorem from_utf8_lossy_decode_eq_iff (s : String) :
    from_utf8_lossy (decode (as_bytes s)) = s ↔ has_escape (as_bytes s) = false := by
  constructor
  · intro hsame
    apply has_escape_of_ascii_bytes
    rw [← ascii_chars_from_utf8_lossy, hsame]
  · intro hplain
    rw [decode_eq_self hplain, from_utf8_lossy_as_bytes]

/-- Bytes survive being read as a text and one more decoding only if they are one. -/
theorem decode_from_utf8_lossy_eq_iff (bytes : Bytes) : decode (as_bytes (from_utf8_lossy bytes)) = bytes ↔
    has_escape (as_bytes (from_utf8_lossy bytes)) = false ∧ (from_utf8 bytes).isSome = true := by
  constructor
  · intro hsame
    have hplain : has_escape (as_bytes (from_utf8_lossy bytes)) = false := by
      apply has_escape_of_ascii_bytes
      rw [hsame, ascii_chars_from_utf8_lossy]
    rw [decode_eq_self hplain] at hsame
    refine ⟨hplain, ?_⟩
    rw [← hsame, from_utf8_as_bytes]
    rfl
  · rintro ⟨hplain, htext⟩
    obtain ⟨text, htext⟩ := Option.isSome_iff_exists.mp htext
    rw [decode_eq_self hplain, from_utf8_lossy, htext]
    exact as_bytes_of_from_utf8 htext

theorem text_pair_decoded_eq_iff (pair : String × String) : text_pair (decoded pair) = pair ↔
    has_escape (as_bytes pair.1) = false ∧ has_escape (as_bytes pair.2) = false := by
  rw [← from_utf8_lossy_decode_eq_iff, ← from_utf8_lossy_decode_eq_iff, Prod.ext_iff]
  rfl

theorem map_eq_self_iff {α : Type} {f : α → α} {entries : List α} :
    entries.map f = entries ↔ ∀ entry ∈ entries, f entry = entry := by
  nth_rewrite 2 [← List.map_id entries]
  rw [List.map_inj_left]
  rfl

/-- The decoded query has the right pairs exactly where decoding them once more changes none. -/
theorem announces_iff : Announces crate base request ((crate.query_pairs base ++ request.own_pairs).map decoded) ↔
    Unescaped crate base := by
  have hfront : ((crate.query_pairs base).map decoded).map text_pair = crate.query_pairs base ↔
      Unescaped crate base := by
    rw [List.map_map, map_eq_self_iff]
    exact forall₂_congr fun pair _ => text_pair_decoded_eq_iff pair
  rw [← hfront, List.map_append, own_pairs_decoded]
  constructor
  · rintro ⟨front, hpairs, hsame⟩
    rw [List.append_cancel_right hpairs, hsame]
  · intro hsame
    exact ⟨_, rfl, hsame⟩

/-- It has their bytes where they are texts besides. -/
theorem form_pairs_iff (hquery : crate.query_pairs base = base.form_pairs.map text_pair) :
    (crate.query_pairs base ++ request.own_pairs).map decoded = base.form_pairs ++ request.announced ↔
      Unescaped crate base ∧ Textual base := by
  rw [List.map_append, own_pairs_decoded, List.append_left_inj, Unescaped, Textual, hquery, List.map_map,
    map_eq_self_iff, List.forall_mem_map, ← forall₂_and]
  refine forall₂_congr fun pair _ => ?_
  change (_, _) = pair ↔ _
  rw [Prod.ext_iff, and_and_and_comm]
  exact and_congr (decode_from_utf8_lossy_eq_iff _) (decode_from_utf8_lossy_eq_iff _)

theorem not_mem_serde_urlencoded (pairs : Vec (String × String)) : '#' ∉ (serde_urlencoded pairs).toList := by
  have habsent : ∀ bytes, 35 ∉ escape query_safe bytes :=
    fun bytes => form.not_mem_escape (by decide) (by decide) (by decide)
  refine fun hmem => absurd (mem_as_bytes hmem (show 35 ∈ _ by decide)) ?_
  rw [as_bytes_serde_urlencoded]
  refine form.not_mem_intercalate (by decide) fun text htext => ?_
  obtain ⟨entry, hentry, rfl⟩ := List.mem_map.mp htext
  obtain ⟨pair, -, rfl⟩ := List.mem_map.mp hentry
  rw [form.assignment, List.mem_append, List.mem_cons]
  exact not_or.mpr ⟨habsent _, not_or.mpr ⟨by decide, habsent _⟩⟩

/-- An announce URL is built from every tracker URL that is read. -/
theorem build_url_eq (hparse : crate.parse request.tracker_url = .ok base) (hbase : crate.ReadsQuery base) :
    ∃ url, request.build_url crate = .ok url ∧
      query_text url = serde_urlencoded (crate.query_pairs base ++ request.own_pairs) := by
  have hhost : ∀ c ∈ ((crate.host_str base).getD "").toList, c ≠ '?' ∧ c ≠ '#' := by
    cases hhost : crate.host_str base with
    | none => exact fun c hc => nomatch hc
    | some host => exact hbase.host host hhost
  have hport : ∀ c ∈ (match base.port with
      | some port => (crate.host_str base).getD "" ++ ":" ++ toString port.toNat
      | none => (crate.host_str base).getD "").toList, c ≠ '?' ∧ c ≠ '#' := by
    cases base.port with
    | none => exact hhost
    | some port =>
      refine forall_mem_toList_append (forall_mem_toList_append hhost (by simp)) fun c hc => ?_
      rw [show toString port.toNat = port.toNat.repr from rfl, Nat.repr, String.toList_ofList] at hc
      have hdigit := Nat.isDigit_of_mem_toDigits (by decide) (by decide) hc
      constructor
      all_goals
        rintro rfl
        revert hdigit
        decide
  rw [AnnounceRequest.build_url, hparse]
  refine ⟨_, rfl, query_text_eq ?_ (not_mem_serde_urlencoded _)⟩
  exact forall_mem_toList_append (forall_mem_toList_append (forall_mem_toList_append hbase.scheme (by simp)) hport)
    hbase.path

end

/-- The query of an announce URL is that of the tracker URL followed by the announced pairs exactly where no decoded
    name or value of the tracker URL looks like a percent escape. The bytes are the same as well where they are UTF-8;
    others are replaced. -/
theorem build_url_announces_iff (crate : UrlCrate) (request : AnnounceRequest) (base : Url)
    (hparse : crate.parse request.tracker_url = .ok base) (hbase : crate.ReadsQuery base) :
    ∃ url, request.build_url crate = .ok url ∧
      (Announces crate base request (form.pairs (as_bytes (query_text url))) ↔ Unescaped crate base) ∧
      (form.pairs (as_bytes (query_text url)) = base.form_pairs ++ request.announced ↔
        Unescaped crate base ∧ Textual base) := by
  obtain ⟨url, hurl, hquery⟩ := build_url_eq hparse hbase
  refine ⟨url, hurl, ?_⟩
  rw [hquery, pairs_serde_urlencoded]
  exact ⟨announces_iff, form_pairs_iff hbase.query_pairs⟩

section
/-- The tracker URL `http://t/announce?query`. -/
def sample_base (query : String) : Url := ⟨"http", "", none, some (.Domain "t"), none, "/announce", some query, none⟩

def sample_crate (query : String) : UrlCrate where
  parse raw := if raw = "http://t/announce?" ++ query then .ok (sample_base query) else .error "not read"
  join _ _ := .error "not read"
  push_segments _ _ := none
  as_str _ := "http://t/announce?" ++ query
  host_str _ := some "t"
  port_or_known_default _ := some 80
  query_pairs url := url.form_pairs.map text_pair

def sample_request (query : String) : AnnounceRequest where
  tracker_url := "http://t/announce?" ++ query
  info_hash := ⟨Vector.replicate 20 37⟩
  peer_id := Vector.replicate 20 255
  port := 6881
  uploaded := 0
  downloaded := 0
  left := 1000
  event := .Started
  numwant := some 50
  compact := true

theorem sample_reads_query (query : String) : (sample_crate query).ReadsQuery (sample_base query) where
  scheme := (List.all_iff_forall_prop.mp (by decide) : ∀ c ∈ "http".toList, c ≠ '?' ∧ c ≠ '#')
  host := by
    rintro host hhost
    obtain rfl := Option.some.inj hhost
    exact List.all_iff_forall_prop.mp (by decide)
  path := (List.all_iff_forall_prop.mp (by decide) : ∀ c ∈ "/announce".toList, c ≠ '?' ∧ c ≠ '#')
  query_pairs := rfl

/-- A key with an escaped space is passed on as it is, a byte that is no text as a replacement character. -/
theorem build_url_announces_iff_key :
    (∃ url, (sample_request "key=a%20b").build_url (sample_crate "key=a%20b") = .ok url ∧
      form.pairs (as_bytes (query_text url)) =
        (sample_base "key=a%20b").form_pairs ++ (sample_request "key=a%20b").announced) ∧
    ∃ url, (sample_request "x=%FF").build_url (sample_crate "x=%FF") = .ok url ∧
      Announces (sample_crate "x=%FF") (sample_base "x=%FF") (sample_request "x=%FF")
        (form.pairs (as_bytes (query_text url))) ∧
      form.pairs (as_bytes (query_text url)) ≠
        (sample_base "x=%FF").form_pairs ++ (sample_request "x=%FF").announced := by
  have hplain : Unescaped (sample_crate "key=a%20b") (sample_base "key=a%20b") ∧ Textual (sample_base "key=a%20b") ∧
      Unescaped (sample_crate "x=%FF") (sample_base "x=%FF") ∧ ¬ Textual (sample_base "x=%FF") := by
    unfold Unescaped Textual
    decide +kernel
  obtain ⟨url, hurl, -, hiff⟩ := build_url_announces_iff (sample_crate "key=a%20b") (sample_request "key=a%20b")
    (sample_base "key=a%20b") rfl (sample_reads_query _)
  obtain ⟨url', hurl', htexts, hbytes⟩ := build_url_announces_iff (sample_crate "x=%FF") (sample_request "x=%FF")
    (sample_base "x=%FF") rfl (sample_reads_query _)
  exact ⟨⟨url, hurl, hiff.mpr ⟨hplain.1, hplain.2.1⟩⟩, url', hurl', htexts.mpr hplain.2.2.1,
    fun hsame => hplain.2.2.2 (hbytes.mp hsame).2⟩

/-- A value `%41`, which is written `%2541`, reaches the tracker as `A`. -/
theorem escaped_percent_decoded_twice :
    (sample_crate "x=%2541").query_pairs (sample_base "x=%2541") = [("x", "%41")] ∧
      ∃ url, (sample_request "x=%2541").build_url (sample_crate "x=%2541") = .ok url ∧
        (form.pairs (as_bytes (query_text url))).head? = some (as_bytes "x", as_bytes "A") ∧
        ¬ Announces (sample_crate "x=%2541") (sample_base "x=%2541") (sample_request "x=%2541")
          (form.pairs (as_bytes (query_text url))) := by
  have hpairs : (sample_crate "x=%2541").query_pairs (sample_base "x=%2541") = [("x", "%41")] := by decide +kernel
  obtain ⟨url, hurl, hquery⟩ := build_url_eq (show (sample_crate "x=%2541").parse
    (sample_request "x=%2541").tracker_url = .ok (sample_base "x=%2541") from rfl) (sample_reads_query _)
  refine ⟨hpairs, url, hurl, ?_, ?_⟩
  · rw [hquery, pairs_serde_urlencoded, hpairs]
    decide +kernel
  · rw [hquery, pairs_serde_urlencoded, announces_iff, Unescaped, hpairs]
    decide +kernel

end

end swarmotter.tracker

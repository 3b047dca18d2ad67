import Swarmotter.Tracker.Tiers

open swarmotter.bencode swarmotter.tracker swarmotter.policy

namespace swarmotter.meta

section
variable {info : Value} {trackers : Vec String} {extra : Dict}

/-- A tail of the top-level dictionary that holds no tracker: empty, or the piece layers. -/
def NoTrackers (extra : Dict) : Prop := ∀ entry ∈ extra, entry.1 = as_bytes "piece layers"

private theorem lookup_noTrackers (hextra : NoTrackers extra) {key : String}
    (hkey : as_bytes "piece layers" ≠ as_bytes key) : lookup extra key = none := by
  simp only [lookup, Option.map_eq_none_iff, List.find?_eq_none]
  intro entry hentry
  rw [hextra entry hentry]
  simpa using hkey

theorem magnet_root_announce (hextra : NoTrackers extra) :
    get_str (magnet_root_with_trackers info trackers ++ extra) "announce" = trackers.head? := by
  rcases trackers with _ | ⟨primary, _ | ⟨second, rest⟩⟩
  · have hnone : lookup (magnet_root_with_trackers info []) "announce" = none := by
      simp [magnet_root_with_trackers, lookup]; decide
    rw [get_str, lookup_append_of_none hnone, lookup_noTrackers hextra (by decide)]
    rfl
  · have hsome : lookup (magnet_root_with_trackers info [primary]) "announce" =
        some (.Str (as_bytes primary)) := by simp [magnet_root_with_trackers, lookup]
    rw [get_str, lookup_append_of_some hsome]
    exact from_utf8_as_bytes primary
  · have hsome : lookup (magnet_root_with_trackers info (primary :: second :: rest)) "announce" =
        some (.Str (as_bytes primary)) := by simp [magnet_root_with_trackers, lookup]
    rw [get_str, lookup_append_of_some hsome]
    exact from_utf8_as_bytes primary

private theorem filterMap_as_str_utf8 (urls : Vec String) :
    (urls.map fun url => Value.Str (as_bytes url)).filterMap Value.as_str_utf8 = urls := by
  induction urls with
  | nil => rfl
  | cons url urls ih =>
    have hurl : (Value.Str (as_bytes url)).as_str_utf8 = some url := from_utf8_as_bytes url
    rw [List.map_cons, List.filterMap_cons_some hurl, ih]

theorem magnet_root_announce_list (hextra : NoTrackers extra) :
    parse_announce_list (magnet_root_with_trackers info trackers ++ extra) =
      if trackers.length > 1 then [trackers.tail] else [] := by
  have hkeys : (as_bytes "announce" == as_bytes "announce-list") = false := by decide
  have hinfo : (as_bytes "info" == as_bytes "announce-list") = false := by decide
  rcases trackers with _ | ⟨primary, _ | ⟨second, rest⟩⟩
  · have hnone : lookup (magnet_root_with_trackers info []) "announce-list" = none := by
      simp [magnet_root_with_trackers, lookup, hinfo]
    rw [parse_announce_list, lookup_append_of_none hnone, lookup_noTrackers hextra (by decide)]
    rfl
  · have hnone : lookup (magnet_root_with_trackers info [primary]) "announce-list" = none := by
      simp [magnet_root_with_trackers, lookup, hkeys, hinfo]
    rw [parse_announce_list, lookup_append_of_none hnone, lookup_noTrackers hextra (by decide)]
    rfl
  · have hsome : lookup (magnet_root_with_trackers info (primary :: second :: rest)) "announce-list" =
        some (.List [.List ((second :: rest).map fun tracker => .Str (as_bytes tracker))]) := by
      simp [magnet_root_with_trackers, lookup, hkeys]
    have hurls := filterMap_as_str_utf8 (second :: rest)
    rw [parse_announce_list, lookup_append_of_some hsome, if_pos (by simp)]
    simpa [Value.as_list] using hurls

end

section
variable {sha : Sha} {info_bytes : Bytes} {trackers : Vec String} {torrent : TorrentMeta}

/-- A magnet resolved by either of the two parsers. -/
def Resolves (sha : Sha) (info_bytes : Bytes) (trackers : Vec String) (torrent : TorrentMeta) : Prop :=
  parse_info_dict sha info_bytes trackers = .ok torrent ∨
    ∃ layers, parse_info_dict_with_piece_layers sha info_bytes trackers layers = .ok torrent

/-- Both parsers lay the trackers out alike: the first one alone, the others in one tier. -/
theorem Resolves.trackers_eq (h : Resolves sha info_bytes trackers torrent) :
    torrent.announce = trackers.head? ∧
      torrent.announce_list = if trackers.length > 1 then [trackers.tail] else [] := by
  rcases h with h | ⟨layers, h⟩
  · simp only [parse_info_dict, eq_ok_iff] at h
    obtain ⟨info, -, _, hroot, -, -, rfl⟩ := h
    have hparsed := parse_torrent_root_trackers hroot
    have hextra : NoTrackers [] := by simp [NoTrackers]
    rw [← List.append_nil (magnet_root_with_trackers info trackers), magnet_root_announce hextra,
      magnet_root_announce_list hextra] at hparsed
    exact hparsed
  · simp only [parse_info_dict_with_piece_layers, bind_eq_ok_iff] at h
    obtain ⟨info, -, hroot⟩ := h
    have hparsed := parse_torrent_root_trackers hroot
    have hextra : NoTrackers [(as_bytes "piece layers", .Dict (layers_dict layers))] := by
      simp [NoTrackers]
    rw [magnet_root_announce hextra, magnet_root_announce_list hextra] at hparsed
    exact hparsed

/-- The trackers that remain effective after resolution. -/
theorem Resolves.effective_iff (h : Resolves sha info_bytes trackers torrent) (url : String) :
    Effective torrent.announce torrent.announce_list url ↔
      if trackers.length > 1 then url ∈ trackers.tail else trackers.head? = some url := by
  obtain ⟨hannounce, hlist⟩ := h.trackers_eq
  rw [hannounce, hlist]
  by_cases hmany : trackers.length > 1
  · simp [Effective, hmany]
  · simp [Effective, hmany]

/-- Every tracker of a magnet is announced to after resolution exactly when the magnet has at most
    one tracker or repeats its first one. Otherwise the first tracker sits in `announce` beside a
    non-empty `announce-list`, and both tier builders ignore it there. -/
theorem magnet_trackers_kept_iff (rule_matches : String → TrackerHostRule → Bool)
    (h : Resolves sha info_bytes trackers torrent) :
    (∀ url ∈ trackers,
      url ∈ (prioritized_tracker_tiers rule_matches torrent.announce torrent.announce_list []).flatten ∧
      url ∈ (announce_tiers torrent.announce torrent.announce_list).flatten) ↔
    trackers.length ≤ 1 ∨ ∃ primary ∈ trackers.head?, primary ∈ trackers.tail := by
  simp only [mem_prioritized_tracker_tiers, mem_announce_tiers, and_self, h.effective_iff]
  by_cases hmany : trackers.length > 1
  · simp only [if_pos hmany, Nat.not_le.mpr hmany, false_or]
    constructor
    · intro hall
      obtain ⟨primary, rest, rfl⟩ : ∃ primary rest, trackers = primary :: rest := by
        cases trackers with
        | nil => simp at hmany
        | cons primary rest => exact ⟨primary, rest, rfl⟩
      exact ⟨primary, rfl, hall primary (by simp)⟩
    · rintro ⟨primary, hprimary, hrepeat⟩ url hurl
      obtain ⟨rest, rfl⟩ := List.head?_eq_some_iff.mp hprimary
      rcases List.mem_cons.mp hurl with rfl | hurl
      · exact hrepeat
      · exact hurl
  · have hfew : trackers.length ≤ 1 := Nat.le_of_not_lt hmany
    simp only [if_neg hmany, hfew, true_or, iff_true]
    intro url hurl
    match trackers, hfew, hurl with
    | [primary], _, hurl => simpa [eq_comm] using hurl

end

/-- A single-file version 1 `info` dictionary. -/
def sample_info : Bytes :=
  as_bytes "d6:lengthi1e4:name1:x12:piece lengthi16384e6:pieces20:aaaaaaaaaaaaaaaaaaaae"

/-- A magnet with two trackers loses the first one. -/
theorem magnet_trackers_lost :
    ∃ torrent, parse_info_dict Sha.leading sample_info ["udp://one", "udp://two"] = .ok torrent ∧
      "udp://one" ∉ (prioritized_tracker_tiers (fun _ _ => false) torrent.announce
        torrent.announce_list []).flatten ∧
      "udp://one" ∉ (announce_tiers torrent.announce torrent.announce_list).flatten := by
  obtain ⟨torrent, htorrent⟩ : ∃ torrent,
      parse_info_dict Sha.leading sample_info ["udp://one", "udp://two"] = .ok torrent :=
    exists_ok_of_isOk (by decide +kernel)
  have hresolves : Resolves Sha.leading sample_info ["udp://one", "udp://two"] torrent := Or.inl htorrent
  refine ⟨torrent, htorrent, ?_, ?_⟩
  · rw [mem_prioritized_tracker_tiers, hresolves.effective_iff]
    decide
  · rw [mem_announce_tiers, hresolves.effective_iff]
    decide

/-- A magnet that repeats its first tracker keeps them all. -/
theorem magnet_trackers_kept_iff_repeated :
    ∃ torrent, Resolves Sha.leading sample_info ["udp://one", "udp://two", "udp://one"] torrent ∧
      ∀ url ∈ ["udp://one", "udp://two", "udp://one"],
        url ∈ (prioritized_tracker_tiers (fun _ _ => false) torrent.announce torrent.announce_list []).flatten ∧
        url ∈ (announce_tiers torrent.announce torrent.announce_list).flatten := by
  obtain ⟨torrent, htorrent⟩ : ∃ torrent,
      parse_info_dict Sha.leading sample_info ["udp://one", "udp://two", "udp://one"] = .ok torrent :=
    exists_ok_of_isOk (by decide +kernel)
  exact ⟨torrent, Or.inl htorrent, (magnet_trackers_kept_iff _ (Or.inl htorrent)).mpr (by simp)⟩

end swarmotter.meta

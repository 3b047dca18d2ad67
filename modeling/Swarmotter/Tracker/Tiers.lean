import Swarmotter.Torrent

open swarmotter.bencode swarmotter.meta swarmotter.policy

namespace swarmotter.tracker

/-- One tracker URL with the index of its announce tier. -/
structure TrackerTier where
  tier : Nat
  url : String
  deriving DecidableEq

/-- The effective tiers of a torrent. A non-empty `announce-list` takes the place of `announce`. -/
def build_tiers (announce : Option String) (announce_list : Option (Vec (Vec String))) : Vec TrackerTier :=
  match announce_list.filter fun list => list ≠ [] with
  | some list => (list.zipIdx.map fun entry => entry.1.map fun url => ⟨entry.2, url⟩).flatten
  | none =>
    match announce with
    | some url => [⟨0, url⟩]
    | none => []

/-- The tiers that a seeding announce walks. -/
def announce_tiers (announce : Option String) (announce_list : Vec (Vec String)) : Vec (Vec String) :=
  if announce_list ≠ [] then announce_list.filter fun tier => tier ≠ []
  else
    match announce with
    | some url => [[url]]
    | none => []

end swarmotter.tracker

namespace swarmotter.policy

open swarmotter.tracker

structure TrackerHostRule where
  host_pattern : String
  enabled : Option Bool
  priority : Option QueuePriority
  deriving DecidableEq

section
-- `tracker_host_rule_matches`: a rule against the host of a URL, which a URL library parses
variable (rule_matches : String → TrackerHostRule → Bool)

/-- The candidate of a URL: its index, its priority and itself, unless its rule disables it. -/
def candidate (rules : Vec TrackerHostRule) (entry : String × Nat) : Option (Nat × QueuePriority × String) :=
  let rule := rules.find? (rule_matches entry.1)
  if rule.bind TrackerHostRule.enabled = some false then none
  else some (entry.2, (rule.bind TrackerHostRule.priority).getD .Normal, entry.1)

def prioritize_tracker_urls (urls : Vec String) (rules : Vec TrackerHostRule) : Vec String :=
  if rules = [] then urls
  else
    let candidates := urls.zipIdx.filterMap (candidate rule_matches rules)
    let ordered := candidates.mergeSort fun left right =>
      right.2.1.weight < left.2.1.weight ∨
        (right.2.1.weight = left.2.1.weight ∧ left.1 ≤ right.1)
    ordered.map fun candidate => candidate.2.2

/-- The body of the fold that turns indexed trackers back into tiers. -/
def group_tier (grouped : Vec (Vec String)) (tracker : TrackerTier) : Vec (Vec String) :=
  let grouped := grouped ++ List.replicate (tracker.tier + 1 - grouped.length) []
  grouped.modify tracker.tier (· ++ [tracker.url])

/-- The tiers that discovery announces to. Without rules the tiers of the metainfo stay as they are. -/
def prioritized_tracker_tiers (announce : Option String) (announce_list : Vec (Vec String))
    (rules : Vec TrackerHostRule) : Vec (Vec String) :=
  let tiers := build_tiers announce (some announce_list)
  if rules = [] then tiers.foldl group_tier []
  else
    let ordered := prioritize_tracker_urls rule_matches (tiers.map TrackerTier.url) rules
    if ordered ≠ [] then [ordered] else []

end

end swarmotter.policy

namespace swarmotter.tracker

open swarmotter.policy

/-- The URLs that BEP 12 precedence keeps. -/
def Effective (announce : Option String) (announce_list : Vec (Vec String)) (url : String) : Prop :=
  if announce_list ≠ [] then ∃ tier ∈ announce_list, url ∈ tier else announce = some url

variable {announce : Option String} {announce_list : Vec (Vec String)} {url : String}

theorem mem_build_tiers :
    (∃ tracker ∈ build_tiers announce (some announce_list), tracker.url = url) ↔
      Effective announce announce_list url := by
  unfold Effective build_tiers
  by_cases hlist : announce_list = []
  · subst hlist
    have hdrop : (some ([] : Vec (Vec String))).filter (fun list => decide (list ≠ [])) = none := rfl
    rw [hdrop]
    cases announce <;> simp
  · have hkeep : (some announce_list).filter (fun list => decide (list ≠ [])) = some announce_list := by
      simp [hlist]
    rw [hkeep, if_pos hlist]
    simp only [List.mem_flatten, List.mem_map]
    constructor
    · rintro ⟨_, ⟨_, ⟨⟨tier, i⟩, htier, rfl⟩, hmem⟩, rfl⟩
      obtain ⟨entry, hentry, rfl⟩ := List.mem_map.mp hmem
      exact ⟨tier, List.fst_mem_of_mem_zipIdx htier, hentry⟩
    · rintro ⟨tier, htier, hurl⟩
      obtain ⟨i, hi, rfl⟩ := List.getElem_of_mem htier
      refine ⟨⟨i, url⟩, ⟨_, ⟨(announce_list[i], i), ?_, rfl⟩, ?_⟩, rfl⟩
      · exact List.mem_zipIdx_iff_getElem?.mpr (List.getElem?_eq_getElem hi)
      · exact List.mem_map.mpr ⟨url, hurl, rfl⟩

theorem mem_announce_tiers :
    url ∈ (announce_tiers announce announce_list).flatten ↔ Effective announce announce_list url := by
  unfold Effective announce_tiers
  split
  · simp only [List.mem_flatten, List.mem_filter, decide_eq_true_eq]
    constructor
    · rintro ⟨tier, ⟨htier, -⟩, hurl⟩
      exact ⟨tier, htier, hurl⟩
    · rintro ⟨tier, htier, hurl⟩
      exact ⟨tier, ⟨htier, List.ne_nil_of_mem hurl⟩, hurl⟩
  · cases announce <;> simp [eq_comm]

theorem mem_group_tier {grouped : Vec (Vec String)} {tracker : TrackerTier} :
    url ∈ (group_tier grouped tracker).flatten ↔ url ∈ grouped.flatten ∨ url = tracker.url := by
  let padded := grouped ++ List.replicate (tracker.tier + 1 - grouped.length) []
  have hlt : tracker.tier < padded.length := by
    rw [List.length_append, List.length_replicate]
    omega
  have hsame : url ∈ grouped.flatten ↔ url ∈ padded.flatten := by simp [padded]
  have hsplit : padded = padded.take tracker.tier ++ padded[tracker.tier] :: padded.drop (tracker.tier + 1) := by
    rw [List.getElem_cons_drop, List.take_append_drop]
  have hmodify : group_tier grouped tracker = padded.take tracker.tier ++
      (padded[tracker.tier] ++ [tracker.url]) :: padded.drop (tracker.tier + 1) :=
    List.modify_eq_take_cons_drop hlt
  rw [hmodify, hsame]
  nth_rewrite 4 [hsplit]
  simp only [List.flatten_append, List.flatten_cons, List.mem_append, List.mem_singleton]
  tauto

theorem mem_prioritized_tracker_tiers (rule_matches : String → TrackerHostRule → Bool) :
    url ∈ (prioritized_tracker_tiers rule_matches announce announce_list []).flatten ↔
      Effective announce announce_list url := by
  have hfold : ∀ (trackers : Vec TrackerTier) (grouped : Vec (Vec String)),
      url ∈ (trackers.foldl group_tier grouped).flatten ↔
        url ∈ grouped.flatten ∨ ∃ tracker ∈ trackers, tracker.url = url := by
    intro trackers
    induction trackers with
    | nil => simp
    | cons tracker trackers ih =>
      intro grouped
      rw [List.foldl_cons, ih, mem_group_tier]
      simp only [List.mem_cons, exists_eq_or_imp, @eq_comm _ url, or_assoc]
  rw [prioritized_tracker_tiers, if_pos rfl, hfold, mem_build_tiers]
  simp

/-- A tier with a URL: neither empty nor malformed. -/
def HoldsUrl (tier : Value) : Prop := ∃ items, tier.as_list = some items ∧ ∃ item ∈ items, item.as_str_utf8.isSome

/-- The `announce-list` of a torrent file has no tiers, or a URL in one of them. -/
def Usable (root : Dict) : Prop :=
  ∀ tiers, (lookup root "announce-list").bind Value.as_list = some tiers → tiers ≠ [] → ∃ tier ∈ tiers, HoldsUrl tier

theorem usable_iff {root : Dict} :
    Usable root ↔ (parse_announce_list root ≠ [] → ∃ tier ∈ parse_announce_list root, tier ≠ []) := by
  rw [Usable, parse_announce_list]
  cases (lookup root "announce-list").bind Value.as_list with
  | none => simp
  | some tiers =>
    simp only [Option.some.injEq, forall_eq', ne_eq, List.map_eq_nil_iff, List.mem_map, exists_exists_and_eq_and]
    refine imp_congr_right fun _ => exists_congr fun tier => and_congr_right fun _ => ?_
    cases htier : tier.as_list with
    | none => simp [HoldsUrl, htier]
    | some items => simp [HoldsUrl, htier, Option.isSome_iff_ne_none]

variable {sha : Sha} {bytes : Bytes} {torrent : TorrentMeta}

/-- Both tier builders keep a URL, except of a torrent whose `announce-list` has only tiers without one: then
    neither falls back to `announce`. -/
theorem tiers_hold_url_iff (rule_matches : String → TrackerHostRule → Bool) (h : parse_torrent sha bytes = .ok torrent)
    (hurl : torrent.announce.isSome ∨ ∃ tier ∈ torrent.announce_list, tier ≠ []) :
    ((∃ url, url ∈ (prioritized_tracker_tiers rule_matches torrent.announce torrent.announce_list []).flatten) ∧
      ∃ url, url ∈ (announce_tiers torrent.announce torrent.announce_list).flatten) ↔
    ∀ root, decode bytes = .ok (.Dict root) → Usable root := by
  simp only [parse_torrent, eq_ok_iff] at h
  obtain ⟨value, hvalue, root, hroot, info_bytes, -, htorrent⟩ := h
  cases value with
  | Dict root =>
    obtain rfl := Option.some.inj hroot
    obtain ⟨-, hlist⟩ := parse_torrent_root_trackers htorrent
    simp only [hvalue, Except.ok.injEq, Value.Dict.injEq, forall_eq', usable_iff, ← hlist, mem_announce_tiers,
      mem_prioritized_tracker_tiers, and_self, Effective]
    by_cases hempty : torrent.announce_list = []
    · simpa [hempty, Option.isSome_iff_exists] using hurl
    · simp only [hempty, ne_eq, not_false_iff, if_true, forall_const, List.eq_nil_iff_forall_not_mem, not_forall,
        not_not]
      rw [exists_comm]
      simp only [exists_and_left]
  | _ => cases hroot

/-- A torrent file with an announce URL and a list. -/
def announced (list : String) : Bytes :=
  as_bytes ("d8:announce9:udp://one13:announce-list" ++ list ++
    "4:infod6:lengthi1e4:name1:x12:piece lengthi16384e6:pieces20:aaaaaaaaaaaaaaaaaaaaee")

/-- An empty tier hides the announce URL. -/
theorem tiers_without_url : ((parse_torrent Sha.leading (announced "llee")).map fun torrent => (torrent.announce,
    prioritized_tracker_tiers (fun _ _ => false) torrent.announce torrent.announce_list [],
    announce_tiers torrent.announce torrent.announce_list)) = .ok (some "udp://one", [], []) := by
  decide +kernel

theorem tiers_hold_url_iff_no_tiers : ∃ torrent, parse_torrent Sha.leading (announced "le") = .ok torrent ∧
    (((∃ url, url ∈ (prioritized_tracker_tiers (fun _ _ => false) torrent.announce torrent.announce_list []).flatten) ∧
      ∃ url, url ∈ (announce_tiers torrent.announce torrent.announce_list).flatten) ↔
    ∀ root, decode (announced "le") = .ok (.Dict root) → Usable root) := by
  have hannounce : (parse_torrent Sha.leading (announced "le")).map TorrentMeta.announce = .ok (some "udp://one") := by
    decide +kernel
  cases hparse : parse_torrent Sha.leading (announced "le") with
  | error error => simp [hparse, Except.map] at hannounce
  | ok torrent =>
    refine ⟨torrent, rfl, tiers_hold_url_iff _ hparse (.inl ?_)⟩
    simp_all [Except.map]

end swarmotter.tracker

namespace swarmotter.policy

variable (rule_matches : String → TrackerHostRule → Bool) (rules : Vec TrackerHostRule)

/-- The first matching rule does not disable a URL. -/
def Kept (url : String) : Bool := (rules.find? (rule_matches url)).bind TrackerHostRule.enabled ≠ some false

/-- The priority that the first matching rule sets. -/
def priority_of (url : String) : QueuePriority :=
  ((rules.find? (rule_matches url)).bind TrackerHostRule.priority).getD .Normal

/-- The order of the candidates. -/
def before (left right : Nat × QueuePriority × String) : Bool :=
  right.2.1.weight < left.2.1.weight ∨ (right.2.1.weight = left.2.1.weight ∧ left.1 ≤ right.1)

theorem before_trans (a b c : Nat × QueuePriority × String) (hab : before a b) (hbc : before b c) : before a c := by
  simp only [before, decide_eq_true_eq] at *
  omega

theorem before_total (a b : Nat × QueuePriority × String) : before a b || before b a := by
  simp only [before, Bool.or_eq_true, decide_eq_true_eq]
  omega

theorem candidate_eq_some_iff {entry : String × Nat} {found : Nat × QueuePriority × String} :
    candidate rule_matches rules entry = some found ↔
      Kept rule_matches rules entry.1 ∧ found = (entry.2, priority_of rule_matches rules entry.1, entry.1) := by
  simp only [candidate, Option.ite_none_left_eq_some, Option.some.injEq, Kept, priority_of, decide_eq_true_eq,
    eq_comm (a := found), ne_eq]

variable (urls : Vec String)

theorem map_candidates :
    (urls.zipIdx.filterMap (candidate rule_matches rules)).map (fun found => found.2.2) =
      urls.filter (Kept rule_matches rules) := by
  have hurl : (fun entry : String × Nat => (candidate rule_matches rules entry).map fun found => found.2.2) =
      Option.guard (Kept rule_matches rules) ∘ Prod.fst := by
    funext entry
    by_cases hkept : Kept rule_matches rules entry.1 <;> simp_all [candidate, Kept, Option.guard]
  rw [List.map_filterMap, hurl, ← List.filterMap_map, List.zipIdx_map_fst, List.filterMap_eq_filter]

/-- The candidates stand in the order of their indices. -/
theorem pairwise_candidates :
    (urls.zipIdx.filterMap (candidate rule_matches rules)).Pairwise fun left right => left.1 < right.1 := by
  have hindex : urls.zipIdx.Pairwise fun left right => left.2 < right.2 := by
    rw [← List.pairwise_map (f := Prod.snd) (R := (· < ·)), List.zipIdx_map_snd]
    exact List.pairwise_lt_range'
  refine List.Pairwise.filterMap _ (fun left right hlt found hfound found' hfound' => ?_) hindex
  rw [((candidate_eq_some_iff _ _).mp hfound).2, ((candidate_eq_some_iff _ _).mp hfound').2]
  exact hlt

/-- A stable sort of the URLs that no rule disables, by descending priority. -/
theorem prioritize_tracker_urls_sorts (rule_matches : String → TrackerHostRule → Bool) (rules : Vec TrackerHostRule)
    (urls : Vec String) :
    let ordered := prioritize_tracker_urls rule_matches urls rules
    let kept := urls.filter (Kept rule_matches rules)
    ordered.Perm kept ∧
      ordered.Pairwise (fun left right =>
        (priority_of rule_matches rules right).weight ≤ (priority_of rule_matches rules left).weight) ∧
      ∀ priority, ordered.filter (priority_of rule_matches rules · = priority) =
        kept.filter (priority_of rule_matches rules · = priority) := by
  by_cases hrules : rules = []
  · subst hrules
    have hall : urls.filter (Kept rule_matches []) = urls := List.filter_eq_self.mpr fun _ _ => rfl
    rw [hall]
    exact ⟨.refl _, List.pairwise_iff_getElem.mpr fun _ _ _ _ _ => le_rfl, fun _ => rfl⟩
  · intro ordered kept
    let found := urls.zipIdx.filterMap (candidate rule_matches rules)
    have hmap : found.map (fun entry => entry.2.2) = kept := map_candidates ..
    have hpriority : ∀ entry ∈ found, entry.2.1 = priority_of rule_matches rules entry.2.2 := by
      intro entry hentry
      obtain ⟨source, -, hsource⟩ := List.mem_filterMap.mp hentry
      rw [((candidate_eq_some_iff _ _).mp hsource).2]
    have hordered : ordered = (found.mergeSort before).map fun entry => entry.2.2 := if_neg hrules
    have hperm : (found.mergeSort before).Perm found := List.mergeSort_perm _ _
    rw [hordered, ← hmap]
    refine ⟨hperm.map _, ?_, fun priority => ?_⟩
    · rw [List.pairwise_map]
      refine (List.pairwise_mergeSort before_trans before_total found).imp_of_mem fun hleft hright hbefore => ?_
      rw [← hpriority _ (hperm.mem_iff.mp hleft), ← hpriority _ (hperm.mem_iff.mp hright)]
      simp only [before, decide_eq_true_eq] at hbefore
      omega
    · rw [List.filter_map, List.filter_map]
      -- the candidates of one priority are in order before the sort, which keeps them so
      have hsame : (found.filter ((priority_of rule_matches rules · = priority) ∘ (·.2.2))).Pairwise (before · ·) := by
        refine ((pairwise_candidates rule_matches rules urls).filter _).imp_of_mem
          fun {left right} hleft hright hlt => ?_
        obtain ⟨hleft, hleft_priority⟩ := List.mem_filter.mp hleft
        obtain ⟨hright, hright_priority⟩ := List.mem_filter.mp hright
        have hequal : left.2.1 = right.2.1 := by
          rw [hpriority _ hleft, hpriority _ hright, of_decide_eq_true hleft_priority,
            of_decide_eq_true hright_priority]
        exact decide_eq_true (.inr ⟨by rw [hequal], hlt.le⟩)
      have hsublist := (List.sublist_mergeSort before_trans before_total hsame List.filter_sublist).filter
        ((priority_of rule_matches rules · = priority) ∘ (·.2.2))
      rw [List.filter_filter, funext fun entry => Bool.and_self _] at hsublist
      exact congrArg _ (hsublist.eq_of_length (hperm.filter _).length_eq.symm).symm

end swarmotter.policy

import Swarmotter.Storage.Io

open swarmotter.meta

namespace swarmotter.policy

inductive QueuePriority where
  | Low
  | Normal
  | High
  deriving DecidableEq, Repr

def QueuePriority.weight : QueuePriority → Int
  | Low => -1
  | Normal => 0
  | High => 1

end swarmotter.policy

namespace swarmotter.torrent

inductive TorrentState where
  | Queued
  | Checking
  | DownloadingMetadata
  | Downloading
  | Seeding
  | Paused
  | Completed
  | Error
  | NetworkBlocked
  | StorageError
  | TrackerError
  deriving DecidableEq, Repr

inductive FilePriority where
  | Unwanted
  | Low
  | Normal
  | High
  deriving DecidableEq, Repr

/-- A file of a torrent with its progress. -/
structure TorrentFile where
  index : Nat
  path : String
  length : Nat
  bytes_completed : Nat
  priority : FilePriority
  wanted : Bool
  deriving DecidableEq

structure PieceProgress where
  bitfield : storage.PieceBitfield
  total : Nat
  have_count : Nat

def PieceProgress.new (total : Nat) : PieceProgress := ⟨.new total, total, 0⟩

structure Torrent where
  torrent_meta : TorrentMeta
  state : TorrentState
  progress : PieceProgress
  files : Vec TorrentFile
  needs_metadata : Bool
  magnet_info_hash : Option InfoHash
  magnet_identity : Option TorrentIdentity

namespace Torrent

def info_hash (self : Torrent) : InfoHash := self.magnet_info_hash.getD self.torrent_meta.info_hash

/-- The identity of the magnet while its metadata is pending, and that of the metadata afterwards. -/
def identity (self : Torrent) : TorrentIdentity := self.magnet_identity.getD self.torrent_meta.identity

def key (self : Torrent) : TorrentKey := self.identity.primary_key.getD (.V1 self.info_hash)

/-- All identifiers of the record, the primary one first. -/
def keys (self : Torrent) : Vec TorrentKey :=
  let keys := self.identity.keys
  if keys = [] then [.V1 self.info_hash] else keys

theorem key_mem_keys (self : Torrent) : self.key ∈ self.keys := by
  unfold key keys
  cases self.identity <;> simp [TorrentIdentity.primary_key, TorrentIdentity.keys]

end Torrent

/-- All torrents by key. A hybrid torrent is stored once, and its other key is an alias. -/
structure TorrentRegistry where
  torrents : Vec (TorrentKey × Torrent)
  aliases : Vec (TorrentKey × TorrentKey)

namespace TorrentRegistry

def default : TorrentRegistry := ⟨[], []⟩

/-- `BTreeMap::insert`. -/
def insert_entry {β : Type} (map : Vec (TorrentKey × β)) (key : TorrentKey) (value : β) : Vec (TorrentKey × β) :=
  (key, value) :: map.filter fun entry => entry.1 ≠ key

/-- Insert a record, unless one of its keys is taken. -/
def add (self : TorrentRegistry) (torrent : Torrent) : Except TorrentKey Unit × TorrentRegistry :=
  let primary := torrent.key
  match torrent.keys.find? fun key => (self.torrents.lookup key).isSome || (self.aliases.lookup key).isSome with
  | some key => (.error key, self)
  | none =>
    (.ok (),
      { torrents := insert_entry self.torrents primary torrent
        aliases := (torrent.keys.filter (· ≠ primary)).foldl (fun aliases key => insert_entry aliases key primary)
          self.aliases })

def canonical_key (self : TorrentRegistry) (key : TorrentKey) : Option TorrentKey :=
  if (self.torrents.lookup key).isSome then some key else self.aliases.lookup key

def remove (self : TorrentRegistry) (key : TorrentKey) : Option Torrent × TorrentRegistry :=
  match self.canonical_key key with
  | none => (none, self)
  | some primary =>
    (self.torrents.lookup primary,
      { torrents := self.torrents.filter fun entry => entry.1 ≠ primary
        aliases := self.aliases.filter fun entry => entry.2 ≠ primary })

def get (self : TorrentRegistry) (key : TorrentKey) : Option Torrent := do
  let primary ← self.canonical_key key
  self.torrents.lookup primary

def contains (self : TorrentRegistry) (key : TorrentKey) : Bool := (self.canonical_key key).isSome

/-! The two maps stay consistent. -/

/-- A call of the registry. -/
inductive Op where
  | add (torrent : Torrent)
  | remove (key : TorrentKey)

/-- The registry after the call. -/
def apply (self : TorrentRegistry) : Op → TorrentRegistry
  | .add torrent => (self.add torrent).2
  | .remove key => (self.remove key).2

/-- The registry after the calls. -/
def after (ops : List Op) : TorrentRegistry := ops.foldl apply default

/-- The aliases are the other keys of the records, and no two records have a key in common. -/
structure Consistent (registry : TorrentRegistry) : Prop where
  distinct : (registry.torrents.map Prod.fst).Nodup
  distinct_aliases : (registry.aliases.map Prod.fst).Nodup
  stored : ∀ primary torrent, (primary, torrent) ∈ registry.torrents → torrent.key = primary
  alias_iff : ∀ key primary, (key, primary) ∈ registry.aliases ↔
    ∃ torrent, (primary, torrent) ∈ registry.torrents ∧ key ∈ torrent.keys ∧ key ≠ primary
  disjoint : ∀ entry ∈ registry.torrents, ∀ other ∈ registry.torrents, ∀ key ∈ entry.2.keys, key ∈ other.2.keys →
    entry = other

section
variable {β : Type} {map : Vec (TorrentKey × β)} {key other primary : TorrentKey} {value value' : β}

theorem lookup_eq_some_iff_mem (hdistinct : (map.map Prod.fst).Nodup) :
    map.lookup key = some value ↔ (key, value) ∈ map := by
  induction map with
  | nil => simp
  | cons entry rest ih =>
    obtain ⟨first, first_value⟩ := entry
    rw [List.map_cons, List.nodup_cons] at hdistinct
    rw [List.lookup_cons, List.mem_cons, Prod.mk.injEq]
    by_cases hkey : key = first
    · subst hkey
      have hrest : (key, value) ∉ rest := fun hmem => hdistinct.1 (List.mem_map.mpr ⟨_, hmem, rfl⟩)
      simp [hrest, eq_comm]
    · have hne : (key == first) = false := beq_eq_false_iff_ne.mpr hkey
      simp [hne, hkey, ih hdistinct.2]

theorem lookup_isSome_iff_mem : (map.lookup key).isSome = true ↔ ∃ value, (key, value) ∈ map := by
  rw [List.lookup_isSome_iff]
  constructor
  · rintro ⟨⟨first, value⟩, hmem, hkey⟩
    rw [eq_of_beq hkey]
    exact ⟨value, hmem⟩
  · rintro ⟨value, hmem⟩
    exact ⟨_, hmem, beq_self_eq_true key⟩

theorem mem_insert_entry :
    (other, value') ∈ insert_entry map key value ↔
      (other = key ∧ value' = value) ∨ ((other, value') ∈ map ∧ other ≠ key) := by
  simp [insert_entry]

theorem nodup_filter (hdistinct : (map.map Prod.fst).Nodup) (p : TorrentKey × β → Bool) :
    ((map.filter p).map Prod.fst).Nodup :=
  (List.filter_sublist.map _).nodup hdistinct

theorem nodup_insert_entry (hdistinct : (map.map Prod.fst).Nodup) :
    ((insert_entry map key value).map Prod.fst).Nodup := by
  rw [insert_entry, List.map_cons, List.nodup_cons]
  refine ⟨?_, nodup_filter hdistinct _⟩
  simp

/-- What there is after the new aliases have been inserted. -/
theorem mem_foldl_insert_entry (keys : Vec TorrentKey) :
    (other, value') ∈ keys.foldl (fun map key => insert_entry map key value) map ↔
      (other ∈ keys ∧ value' = value) ∨ ((other, value') ∈ map ∧ other ∉ keys) := by
  induction keys generalizing map with
  | nil => simp
  | cons key rest ih =>
    rw [List.foldl_cons, ih, mem_insert_entry, List.mem_cons]
    tauto

theorem nodup_foldl_insert_entry (keys : Vec TorrentKey) (hdistinct : (map.map Prod.fst).Nodup) :
    ((keys.foldl (fun map key => insert_entry map key value) map).map Prod.fst).Nodup := by
  induction keys generalizing map with
  | nil => exact hdistinct
  | cons key rest ih => exact ih (nodup_insert_entry hdistinct)

end

section
variable {self : TorrentRegistry} {torrent : Torrent} {key primary : TorrentKey}

theorem consistent_default : default.Consistent where
  distinct := List.nodup_nil
  distinct_aliases := List.nodup_nil
  stored _ _ h := absurd h List.not_mem_nil
  alias_iff _ _ := by simp [default]
  disjoint _ h := absurd h List.not_mem_nil

/-- A key is found if and only if it is one of the keys of a record. -/
theorem Consistent.canonical_key_eq_some_iff (h : self.Consistent) :
    self.canonical_key key = some primary ↔ ∃ torrent, (primary, torrent) ∈ self.torrents ∧ key ∈ torrent.keys := by
  unfold canonical_key
  by_cases hprimary : (self.torrents.lookup key).isSome = true
  · obtain ⟨other, hother⟩ := lookup_isSome_iff_mem.mp hprimary
    have hkey : key ∈ other.keys := by
      have hmem := other.key_mem_keys
      rwa [h.stored key other hother] at hmem
    rw [if_pos hprimary, Option.some.injEq]
    constructor
    · rintro rfl
      exact ⟨other, hother, hkey⟩
    · rintro ⟨torrent, htorrent, hmem⟩
      exact congrArg Prod.fst (h.disjoint _ hother _ htorrent key hkey hmem)
  · rw [if_neg hprimary, lookup_eq_some_iff_mem h.distinct_aliases, h.alias_iff]
    constructor
    · rintro ⟨torrent, htorrent, hmem, -⟩
      exact ⟨torrent, htorrent, hmem⟩
    · rintro ⟨torrent, htorrent, hmem⟩
      refine ⟨torrent, htorrent, hmem, ?_⟩
      rintro rfl
      exact hprimary (lookup_isSome_iff_mem.mpr ⟨torrent, htorrent⟩)

theorem Consistent.get_of_mem (h : self.Consistent) (htorrent : (primary, torrent) ∈ self.torrents)
    (hkey : key ∈ torrent.keys) : self.get key = some torrent := by
  rw [get, h.canonical_key_eq_some_iff.mpr ⟨torrent, htorrent, hkey⟩]
  exact (lookup_eq_some_iff_mem h.distinct).mpr htorrent

/-- Either a key is taken and nothing happens, or the record is inserted with its aliases. -/
theorem add_cases (self : TorrentRegistry) (torrent : Torrent) :
    (∃ key ∈ torrent.keys, self.contains key = true ∧ self.add torrent = (.error key, self)) ∨
      ((∀ key ∈ torrent.keys, self.canonical_key key = none) ∧
        self.add torrent = (.ok (), ⟨insert_entry self.torrents torrent.key torrent,
          (torrent.keys.filter (· ≠ torrent.key)).foldl (fun aliases key => insert_entry aliases key torrent.key)
            self.aliases⟩)) := by
  have htaken (key : TorrentKey) : ((self.torrents.lookup key).isSome || (self.aliases.lookup key).isSome) =
      self.contains key := by
    unfold contains canonical_key
    cases (self.torrents.lookup key).isSome <;> simp
  unfold add
  simp only [htaken]
  cases hfind : torrent.keys.find? self.contains with
  | some key => exact Or.inl ⟨key, List.mem_of_find?_eq_some hfind, List.find?_some hfind, rfl⟩
  | none =>
    refine Or.inr ⟨fun key hkey => ?_, rfl⟩
    have hfree := List.find?_eq_none.mp hfind key hkey
    rwa [contains, Option.not_isSome_iff_eq_none] at hfree

/-- No record has a key that is free. -/
theorem Consistent.free (h : self.Consistent) (hfree : self.canonical_key key = none)
    (htorrent : (primary, torrent) ∈ self.torrents) : key ∉ torrent.keys := by
  intro hkey
  rw [h.canonical_key_eq_some_iff.mpr ⟨torrent, htorrent, hkey⟩] at hfree
  cases hfree

theorem Consistent.add (h : self.Consistent) (torrent : Torrent) : (self.add torrent).2.Consistent := by
  rcases self.add_cases torrent with ⟨key, -, -, hadd⟩ | ⟨hfree, hadd⟩
  · rw [hadd]
    exact h
  · rw [hadd]
    have hnew {other : Torrent} {primary : TorrentKey} (hother : (primary, other) ∈ self.torrents) :
        primary ≠ torrent.key := by
      rintro rfl
      have hkey := other.key_mem_keys
      rw [h.stored _ other hother] at hkey
      exact h.free (hfree _ torrent.key_mem_keys) hother hkey
    refine ⟨nodup_insert_entry h.distinct, nodup_foldl_insert_entry _ h.distinct_aliases, ?_, ?_, ?_⟩
    · intro primary other hother
      rcases mem_insert_entry.mp hother with ⟨rfl, rfl⟩ | ⟨hother, -⟩
      · rfl
      · exact h.stored primary other hother
    · intro key primary
      rw [mem_foldl_insert_entry, h.alias_iff]
      simp only [mem_insert_entry, List.mem_filter, decide_eq_true_eq]
      constructor
      · rintro (⟨⟨hkey, hne⟩, rfl⟩ | ⟨⟨other, hother, hkey, hne⟩, -⟩)
        · exact ⟨torrent, Or.inl ⟨rfl, rfl⟩, hkey, hne⟩
        · exact ⟨other, Or.inr ⟨hother, hnew hother⟩, hkey, hne⟩
      · rintro ⟨other, ⟨rfl, rfl⟩ | ⟨hother, -⟩, hkey, hne⟩
        · exact Or.inl ⟨⟨hkey, hne⟩, rfl⟩
        · refine Or.inr ⟨⟨other, hother, hkey, hne⟩, fun hmem => ?_⟩
          exact h.free (hfree key hmem.1) hother hkey
    · rintro ⟨primary, first⟩ hfirst ⟨primary', second⟩ hsecond key hkey hkey'
      rcases mem_insert_entry.mp hfirst with ⟨rfl, rfl⟩ | ⟨hold, -⟩
      · rcases mem_insert_entry.mp hsecond with ⟨rfl, rfl⟩ | ⟨hold, -⟩
        · rfl
        · exact absurd hkey' (h.free (hfree key hkey) hold)
      · rcases mem_insert_entry.mp hsecond with ⟨rfl, rfl⟩ | ⟨hold', -⟩
        · exact absurd hkey (h.free (hfree key hkey') hold)
        · exact h.disjoint _ hold _ hold' key hkey hkey'

theorem Consistent.remove (h : self.Consistent) (key : TorrentKey) : (self.remove key).2.Consistent := by
  unfold TorrentRegistry.remove
  cases self.canonical_key key with
  | none => exact h
  | some removed =>
    refine ⟨nodup_filter h.distinct _, nodup_filter h.distinct_aliases _, ?_, ?_, ?_⟩
    · intro primary torrent htorrent
      exact h.stored primary torrent (List.mem_filter.mp htorrent).1
    · intro key primary
      simp only [List.mem_filter, decide_eq_true_eq, h.alias_iff]
      constructor
      · rintro ⟨⟨torrent, htorrent, hmem, hne⟩, hkept⟩
        exact ⟨torrent, ⟨htorrent, hkept⟩, hmem, hne⟩
      · rintro ⟨torrent, ⟨htorrent, hkept⟩, hmem, hne⟩
        exact ⟨⟨torrent, htorrent, hmem, hne⟩, hkept⟩
    · intro entry hentry other hother
      exact h.disjoint entry (List.mem_filter.mp hentry).1 other (List.mem_filter.mp hother).1

theorem Consistent.apply (h : self.Consistent) (op : Op) : (self.apply op).Consistent := by
  cases op with
  | add torrent => exact h.add torrent
  | remove key => exact h.remove key

theorem Consistent.run (h : self.Consistent) (ops : List Op) : (ops.foldl TorrentRegistry.apply self).Consistent := by
  induction ops generalizing self with
  | nil => exact h
  | cons op rest ih => exact ih (h.apply op)

/-- Removing a record by one of its keys returns it, and leaves none of its keys. -/
theorem Consistent.remove_of_mem (h : self.Consistent) (htorrent : (primary, torrent) ∈ self.torrents)
    (hkey : key ∈ torrent.keys) : (self.remove key).1 = some torrent ∧
      ∀ other ∈ torrent.keys, (self.remove key).2.contains other = false := by
  have hremoved : self.remove key = (self.torrents.lookup primary,
      ⟨self.torrents.filter fun entry => entry.1 ≠ primary, self.aliases.filter fun entry => entry.2 ≠ primary⟩) := by
    rw [TorrentRegistry.remove, h.canonical_key_eq_some_iff.mpr ⟨torrent, htorrent, hkey⟩]
  refine ⟨?_, ?_⟩
  · rw [hremoved]
    exact (lookup_eq_some_iff_mem h.distinct).mpr htorrent
  · intro other hother
    rw [contains, Option.isSome_eq_false_iff, Option.isNone_iff_eq_none, Option.eq_none_iff_forall_ne_some]
    intro found hfound
    obtain ⟨kept, hkept, hmem⟩ := (h.remove key).canonical_key_eq_some_iff.mp hfound
    rw [hremoved] at hkept
    obtain ⟨hkept, hne⟩ := List.mem_filter.mp hkept
    have hsame := h.disjoint _ htorrent _ hkept other hother hmem
    exact of_decide_eq_true hne (congrArg Prod.fst hsame).symm

end

/-- After any calls of `add` and `remove`: an alias points to a record and is not itself the key of one, every key of a
record leads to it and to no other, removing a record by any of its keys removes all of them, and an `add` that fails
changes nothing. -/
theorem after_consistent (ops : List Op) :
    (∀ key primary, (after ops).aliases.lookup key = some primary →
      ((after ops).torrents.lookup primary).isSome = true ∧ (after ops).torrents.lookup key = none) ∧
    (∀ primary torrent, (after ops).torrents.lookup primary = some torrent → ∀ key ∈ torrent.keys,
      (after ops).get key = some torrent ∧
        (∀ primary' torrent', (after ops).torrents.lookup primary' = some torrent' → key ∈ torrent'.keys →
          primary' = primary) ∧
        ((after ops).remove key).1 = some torrent ∧
        ∀ other ∈ torrent.keys, ((after ops).remove key).2.contains other = false) ∧
    ∀ torrent key, ((after ops).add torrent).1 = .error key → ((after ops).add torrent).2 = after ops := by
  have h : (after ops).Consistent := consistent_default.run ops
  refine ⟨?_, ?_, ?_⟩
  · intro key primary hlookup
    obtain ⟨torrent, htorrent, hkey, hne⟩ :=
      (h.alias_iff key primary).mp ((lookup_eq_some_iff_mem h.distinct_aliases).mp hlookup)
    refine ⟨lookup_isSome_iff_mem.mpr ⟨torrent, htorrent⟩, ?_⟩
    rw [← Option.not_isSome_iff_eq_none, lookup_isSome_iff_mem]
    rintro ⟨other, hother⟩
    have hmem := other.key_mem_keys
    rw [h.stored key other hother] at hmem
    exact hne (congrArg Prod.fst (h.disjoint _ hother _ htorrent key hmem hkey))
  · intro primary torrent hlookup key hkey
    have htorrent := (lookup_eq_some_iff_mem h.distinct).mp hlookup
    refine ⟨h.get_of_mem htorrent hkey, ?_, h.remove_of_mem htorrent hkey⟩
    intro primary' torrent' hlookup' hkey'
    have htorrent' := (lookup_eq_some_iff_mem h.distinct).mp hlookup'
    exact congrArg Prod.fst (h.disjoint _ htorrent' _ htorrent key hkey' hkey)
  · intro torrent key hfails
    rcases (after ops).add_cases torrent with ⟨_, -, -, hadd⟩ | ⟨-, hadd⟩
    · rw [hadd]
    · rw [hadd] at hfails
      cases hfails

end TorrentRegistry

end swarmotter.torrent

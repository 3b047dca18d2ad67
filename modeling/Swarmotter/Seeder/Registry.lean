import Swarmotter.Hash

namespace swarmotter

def PeerInfoHash.to_hex (hash : PeerInfoHash) : String := hex_encode hash.bytes.toList

def TorrentKey.peer_info_hash : TorrentKey → PeerInfoHash
  | .V1 hash => ⟨hash.bytes⟩
  | .V2 hash => hash.peer_info_hash

namespace seeder

/-- What the registry reads of the metainfo of a torrent that is served. -/
structure PeerServeContext where
  identity : TorrentIdentity
  info_hash : InfoHash

structure SeedRegistration where
  key : TorrentKey
  context : PeerServeContext

def PeerServeContext.primary_key (self : PeerServeContext) : TorrentKey :=
  self.identity.primary_key.getD (.V1 self.info_hash)

def SeedRegistration.expected_key (self : SeedRegistration) : TorrentKey := self.context.primary_key

/-- The hash maps of the registry, each as its lookup. -/
structure SeedRegistry where
  contexts : TorrentKey → Option PeerServeContext
  wire_index : PeerInfoHash → Option TorrentKey
  mse_index : PeerInfoHash → Option TorrentKey

namespace SeedRegistry

def default : SeedRegistry := ⟨fun _ => none, fun _ => none, fun _ => none⟩

/-- `index.retain(|_, mapped| mapped != key)`. -/
def retain_others (key : TorrentKey) (index : PeerInfoHash → Option TorrentKey) : PeerInfoHash → Option TorrentKey :=
  fun hash => (index hash).filter (· ≠ key)

/-- The context of `key` is removed, and its index entries under the key of its metainfo. -/
def remove (self : SeedRegistry) (key mapped : TorrentKey) : SeedRegistry :=
  ⟨Function.update self.contexts key none, retain_others mapped self.wire_index, retain_others mapped self.mse_index⟩

def insert (self : SeedRegistry) (wire_hash : PeerInfoHash) (registration : SeedRegistration) : SeedRegistry :=
  ⟨Function.update self.contexts registration.key (some registration.context),
    Function.update self.wire_index wire_hash (some registration.key),
    Function.update self.mse_index wire_hash (some registration.key)⟩

def register (self : SeedRegistry) (registration : SeedRegistration) : Result Unit × SeedRegistry :=
  let key := registration.key
  let expected := registration.expected_key
  if key ≠ expected then
    (.error (.InvalidArgument (s!"seeder registration key {key.to_locator} does not match metainfo " ++
      s!"primary key {expected.to_locator}")), self)
  else
    let wire_hash := key.peer_info_hash
    match (self.wire_index wire_hash).filter (· ≠ key) with
    | some existing =>
      (.error (.DuplicateTorrent (s!"peer-wire identity {wire_hash.to_hex} is already registered by " ++
        s!"torrent {existing.to_locator}")), self)
    | none =>
      match self.contexts key with
      | some previous => (.ok (), (self.remove key previous.primary_key).insert wire_hash registration)
      | none => (.ok (), self.insert wire_hash registration)

def unregister (self : SeedRegistry) (key : TorrentKey) : SeedRegistry :=
  if (self.contexts key).isSome then self.remove key key else self

inductive Operation where
  | Register (registration : SeedRegistration)
  | Unregister (key : TorrentKey)
  | Clear

def apply (self : SeedRegistry) : Operation → SeedRegistry
  | .Register registration => (self.register registration).2
  | .Unregister key => self.unregister key
  | .Clear => default

def after (self : SeedRegistry) (operations : List Operation) : SeedRegistry := operations.foldl apply self

/-- The index has the entry of every registered context and no other one. -/
structure Indexed (registry : SeedRegistry) : Prop where
  mse : registry.mse_index = registry.wire_index
  wire : ∀ hash key, registry.wire_index hash = some key ↔
    (registry.contexts key).isSome = true ∧ key.peer_info_hash = hash
  canonical : ∀ key, ∀ context ∈ registry.contexts key, context.primary_key = key

section
variable {self : SeedRegistry} {key : TorrentKey} {registration : SeedRegistration}

theorem indexed_default : default.Indexed := ⟨rfl, by simp [default], by simp [default]⟩

theorem Indexed.remove (h : self.Indexed) (key : TorrentKey) : (self.remove key key).Indexed := by
  refine ⟨by simp [SeedRegistry.remove, h.mse], fun hash other => ?_, fun other context hcontext => ?_⟩
  · simp only [SeedRegistry.remove, retain_others, Function.update_apply]
    by_cases hother : other = key <;> simp [hother, h.wire]
  · simp only [SeedRegistry.remove, Function.update_apply] at hcontext
    split at hcontext
    · cases hcontext
    · exact h.canonical other context hcontext

theorem Indexed.insert (h : self.Indexed) (hkey : registration.context.primary_key = registration.key)
    (hfree : ∀ other ∈ self.wire_index registration.key.peer_info_hash, other = registration.key) :
    (self.insert registration.key.peer_info_hash registration).Indexed := by
  refine ⟨by simp [SeedRegistry.insert, h.mse], fun hash other => ?_, fun other context hcontext => ?_⟩
  · simp only [SeedRegistry.insert, Function.update_apply]
    by_cases hother : other = registration.key
    · subst hother
      by_cases hhash : hash = registration.key.peer_info_hash
      · simp [hhash]
      · simpa [hhash, Ne.symm hhash] using fun hwire => hhash ((h.wire _ _).mp hwire).2.symm
    · by_cases hhash : hash = registration.key.peer_info_hash
      · subst hhash
        simpa [hother, Ne.symm hother, ← h.wire] using fun hwire => hother (hfree other hwire)
      · simp [hother, hhash, h.wire]
  · simp only [SeedRegistry.insert, Function.update_apply] at hcontext
    split at hcontext
    · cases hcontext
      subst_vars
      exact hkey
    · exact h.canonical other context hcontext

theorem Indexed.register (h : self.Indexed) (registration : SeedRegistration) :
    (self.register registration).2.Indexed := by
  unfold SeedRegistry.register
  dsimp only
  split
  · exact h
  · rename_i hkey
    have hkey : registration.context.primary_key = registration.key := (not_not.mp hkey).symm
    split
    · exact h
    · rename_i hfree
      have hfree : ∀ other ∈ self.wire_index registration.key.peer_info_hash, other = registration.key := by
        simpa [Option.filter_eq_none_iff] using hfree
      split
      · rename_i previous hprevious
        rw [h.canonical _ previous hprevious]
        refine (h.remove _).insert hkey fun other hother => ?_
        exact hfree other (Option.mem_filter_iff.mp hother).1
      · exact h.insert hkey hfree

theorem Indexed.after (h : self.Indexed) (operations : List Operation) : (self.after operations).Indexed := by
  induction operations generalizing self with
  | nil => exact h
  | cons operation operations ih =>
    refine ih ?_
    cases operation with
    | Register registration => exact h.register registration
    | Unregister key =>
      unfold SeedRegistry.apply unregister
      dsimp only
      split
      · exact h.remove key
      · exact h
    | Clear => exact indexed_default

end

/-- After any operations both indices have exactly the entry of each registered context, and a registration
    whose hash belongs to another key fails and changes nothing. -/
theorem registry_indexed (operations : List Operation) :
    let registry := default.after operations
    registry.mse_index = registry.wire_index ∧
      (∀ hash key, registry.wire_index hash = some key ↔
        (registry.contexts key).isSome = true ∧ key.peer_info_hash = hash) ∧
      ∀ registration other, registry.wire_index registration.key.peer_info_hash = some other →
        other ≠ registration.key → ∃ error, registry.register registration = (.error error, registry) := by
  intro registry
  have hindexed : registry.Indexed := indexed_default.after operations
  refine ⟨hindexed.mse, hindexed.wire, fun registration other hwire hother => ?_⟩
  unfold register
  dsimp only
  split
  · exact ⟨_, rfl⟩
  · rw [hwire, Option.filter_some_pos (by simpa using hother)]
    exact ⟨_, rfl⟩

end SeedRegistry

end seeder

end swarmotter

import Mathlib.Algebra.Order.BigOperators.Group.List
import Mathlib.Data.List.AList
import Swarmotter.Storage.Fs

open swarmotter.storage (Path)

namespace swarmotter.daemon

/-- The limits of a storage root, where 0 stands for none. -/
structure StorageRootAdmission where
  root : Path
  max_active_downloads : UInt64
  max_active_bytes : UInt64

structure StorageAdmissionReservation where
  root : Path
  declared_bytes : UInt64

abbrev Reservations := AList fun _ : TorrentKey => StorageAdmissionReservation

abbrev Entry := (_ : TorrentKey) × StorageAdmissionReservation

/-- The declared bytes of the reservations of a root. -/
def bytes_on (root : Path) (entries : List Entry) : List Nat :=
  (entries.filter fun entry => entry.2.root = root).map fun entry => entry.2.declared_bytes.toNat

/-- One reservation of the loop, with the downloads and the bytes that are active so far. -/
def add_active (active : Nat × Nat) (declared_bytes : Nat) : Nat × Nat :=
  (min (active.1 + 1) usize.MAX, u64.saturating_add active.2 declared_bytes)

/-- The loop over the reservations of the other keys. -/
def count_active (key : TorrentKey) (root : Path) (entries : List Entry) : Nat × Nat :=
  (bytes_on root (entries.filter fun entry => entry.1 ≠ key)).foldl add_active (0, 0)

def admit_reservation (reservations : Reservations) (key : TorrentKey) (admission : StorageRootAdmission)
    (declared_bytes : UInt64) : Result Unit × Reservations :=
  let (active_downloads, active_bytes) := count_active key admission.root reservations.entries
  let requested_bytes := u64.saturating_add active_bytes declared_bytes.toNat
  let blocked := s!"storage root admission blocked for {storage.display admission.root}: "
  if admission.max_active_downloads > 0 ∧ active_downloads ≥ admission.max_active_downloads.toNat then
    (.error (.Storage (blocked ++ s!"{active_downloads} active downloads reach configured limit " ++
      s!"{admission.max_active_downloads}")), reservations)
  else if admission.max_active_bytes > 0 ∧ requested_bytes > admission.max_active_bytes.toNat then
    (.error (.Storage (blocked ++ s!"{requested_bytes} declared active bytes would exceed configured limit " ++
      s!"{admission.max_active_bytes}")), reservations)
  else (.ok (), reservations.insert key ⟨admission.root, declared_bytes⟩)

inductive AdmissionCall where
  | Reserve (key : TorrentKey) (admission : StorageRootAdmission) (declared_bytes : UInt64)
  | Release (key : TorrentKey)
  | Clear

def AdmissionCall.apply (reservations : Reservations) : AdmissionCall → Reservations
  | .Reserve key admission declared_bytes => (admit_reservation reservations key admission declared_bytes).2
  | .Release key => reservations.erase key
  | .Clear => ∅

/-- What may be reserved on a root. -/
structure Within (downloads bytes : UInt64) (declared : List Nat) : Prop where
  downloads : 0 < downloads → declared.length ≤ downloads.toNat
  bytes : 0 < bytes → declared.sum ≤ bytes.toNat

/-- The reservations keep to the limits of every root. -/
def Bounded (limits : Path → UInt64 × UInt64) (reservations : Reservations) : Prop :=
  ∀ root, Within (limits root).1 (limits root).2 (bytes_on root reservations.entries)

section
variable {downloads bytes : UInt64} {declared fewer : List Nat} {key : TorrentKey} {root : Path}
  {entries : List Entry} {admission : StorageRootAdmission} {limits : Path → UInt64 × UInt64}
  {reservations : Reservations}

theorem Within.sublist (h : Within downloads bytes declared) (hfewer : fewer.Sublist declared) :
    Within downloads bytes fewer :=
  ⟨fun hpos => hfewer.length_le.trans (h.downloads hpos),
    fun hpos => (hfewer.sum_le_sum fun _ _ => Nat.zero_le _).trans (h.bytes hpos)⟩

/-- The sums saturate. -/
theorem foldl_add_active (declared : List Nat) (n sum : Nat) :
    declared.foldl add_active (min n usize.MAX, min sum usize.MAX) =
      (min (n + declared.length) usize.MAX, min (sum + declared.sum) usize.MAX) := by
  induction declared generalizing n sum with
  | nil => simp
  | cons declared_bytes declared ih =>
    have hstep : add_active (min n usize.MAX, min sum usize.MAX) declared_bytes =
        (min (n + 1) usize.MAX, min (sum + declared_bytes) usize.MAX) := by
      simp only [add_active, u64.saturating_add, usize.MAX, Prod.mk.injEq]
      omega
    rw [List.foldl_cons, hstep, ih, List.length_cons, List.sum_cons, Nat.add_assoc, Nat.add_assoc, Nat.add_comm 1]

/-- Once a key is erased, only others are left. -/
theorem bytes_on_kerase (hnodup : entries.NodupKeys) (key : TorrentKey) (root : Path) :
    (bytes_on root (entries.kerase key)).Sublist (bytes_on root (entries.filter fun entry => entry.1 ≠ key)) := by
  have hothers : (entries.kerase key).filter (fun entry => entry.1 ≠ key) = entries.kerase key := by
    refine List.filter_eq_self.mpr fun entry hentry => decide_eq_true fun heq => ?_
    have hkey := List.mem_keys_of_mem hentry
    rw [heq] at hkey
    exact List.notMem_keys_kerase key hnodup hkey
  rw [← hothers]
  exact (((List.kerase_sublist key entries).filter _).filter _).map _

theorem Bounded.erase (h : Bounded limits reservations) (key : TorrentKey) : Bounded limits (reservations.erase key) :=
  fun root => (h root).sublist (((List.kerase_sublist key reservations.entries).filter _).map _)

/-- What a call leaves on a root is what was there, or what has just been admitted. -/
theorem Bounded.reserve {declared_bytes : UInt64} (hlimit : admission.max_active_bytes.toNat < usize.MAX)
    (h : Bounded limits reservations)
    (hlimits : limits admission.root = (admission.max_active_downloads, admission.max_active_bytes)) :
    Bounded limits (admit_reservation reservations key admission declared_bytes).2 := by
  have hactive :=
    foldl_add_active (bytes_on admission.root (reservations.entries.filter fun entry => entry.1 ≠ key)) 0 0
  have hkept := bytes_on_kerase reservations.nodupKeys key
  simp only [Nat.zero_min, Nat.zero_add] at hactive
  simp only [admit_reservation, count_active, hactive]
  split
  · exact h
  · rename_i hdownloads
    split
    · exact h
    · rename_i hbytes
      intro root
      rw [AList.entries_insert]
      by_cases hroot : admission.root = root
      · subst hroot
        have hsum := (hkept admission.root).sum_le_sum fun _ _ => Nat.zero_le _
        have hlength := (hkept admission.root).length_le
        have hmax := admission.max_active_downloads.toNat_lt
        have hnew : bytes_on admission.root (⟨key, ⟨admission.root, declared_bytes⟩⟩ ::
            reservations.entries.kerase key) =
              declared_bytes.toNat :: bytes_on admission.root (reservations.entries.kerase key) := by
          simp [bytes_on]
        rw [hlimits, hnew]
        simp only [u64.saturating_add, usize.MAX, not_and, not_le, not_lt, ge_iff_le, gt_iff_lt] at *
        refine ⟨fun hpos => ?_, fun hpos => ?_⟩
        · have hroom := hdownloads hpos
          rw [List.length_cons]
          omega
        · have hroom := hbytes hpos
          rw [List.sum_cons]
          omega
      · have hother : bytes_on root (⟨key, ⟨admission.root, declared_bytes⟩⟩ :: reservations.entries.kerase key) =
            bytes_on root (reservations.entries.kerase key) := by
          simp [bytes_on, hroot]
        rw [hother]
        exact h.erase key root

/-- The limits hold on every root after any calls, and a call that is refused changes nothing. -/
theorem reservations_within (calls : List AdmissionCall)
    (hcalls : ∀ key admission declared_bytes, .Reserve key admission declared_bytes ∈ calls →
      limits admission.root = (admission.max_active_downloads, admission.max_active_bytes) ∧
        admission.max_active_bytes.toNat < usize.MAX) :
    Bounded limits (calls.foldl AdmissionCall.apply ∅) ∧
    ∀ reservations key admission declared_bytes error reservations',
      admit_reservation reservations key admission declared_bytes = (.error error, reservations') →
        reservations' = reservations := by
  constructor
  · induction calls using List.reverseRecOn with
    | nil => exact fun root => ⟨fun _ => Nat.zero_le _, fun _ => Nat.zero_le _⟩
    | append_singleton calls call ih =>
      have hbefore := ih fun key admission declared_bytes hmem =>
        hcalls key admission declared_bytes (List.mem_append_left _ hmem)
      rw [List.foldl_append]
      cases call with
      | Reserve key admission declared_bytes =>
        obtain ⟨hlimits, hlimit⟩ := hcalls key admission declared_bytes (by simp)
        exact Bounded.reserve hlimit hbefore hlimits
      | Release key => exact hbefore.erase key
      | Clear => exact fun root => ⟨fun _ => Nat.zero_le _, fun _ => Nat.zero_le _⟩
  · intro reservations key admission declared_bytes error reservations' h
    simp only [admit_reservation] at h
    split at h
    · exact (Prod.mk.inj h).2.symm
    · split at h
      · exact (Prod.mk.inj h).2.symm
      · cases h

end

/-- A root for one download of at most ten bytes, and two keys. -/
theorem reservations_within_one :
    let admission : StorageRootAdmission := ⟨["srv"], 1, 10⟩
    let calls : List AdmissionCall := [.Reserve (.V1 .ZERO) admission 4, .Reserve (.V2 .ZERO) admission 1]
    Within 1 10 (bytes_on ["srv"] (calls.foldl AdmissionCall.apply ∅).entries) := by
  intro admission calls
  refine (@reservations_within (fun _ => (1, 10)) calls fun key other declared_bytes hmem => ?_).1 ["srv"]
  obtain rfl : other = admission := by
    simp only [calls, List.mem_cons, AdmissionCall.Reserve.injEq, List.not_mem_nil, or_false] at hmem
    exact hmem.elim (·.2.1) (·.2.1)
  exact ⟨rfl, by decide⟩

end swarmotter.daemon

import Swarmotter.Meta.Parsed
import Mathlib.Data.List.Nodup

open swarmotter.bencode

namespace swarmotter.meta

variable {sha : Sha} {layers : Vec V2PieceLayer} {layer : V2PieceLayer} {piece_length : Nat} {root : V2InfoHash}
  {files : Vec MetaFile} {file : MetaFile} {rooted : Vec (V2InfoHash × MetaFile)}

/-- A root in `files_by_root` whose layer, if it needs one, is there and right. -/
structure RootChecked (sha : Sha) (layers : Vec V2PieceLayer) (piece_length : Nat) (root : V2InfoHash)
    (files : Vec MetaFile) : Prop where
  layered : (∃ file ∈ files, piece_length < file.length) →
    ∃ layer, layers.find? (fun layer => layer.pieces_root = root) = some layer ∧
      (∀ file ∈ files, piece_length < file.length →
        layer.hashes.length = div_ceil file.length piece_length) ∧
      v2_piece_layer_root sha layer.hashes piece_length = .ok root
  unlayered : (∀ file ∈ files, file.length ≤ piece_length) →
    layers.find? (fun layer => layer.pieces_root = root) = none

theorem check_layer_count_eq_ok_iff :
    check_layer_count layer piece_length file = .ok () ↔
      (piece_length < file.length → layer.hashes.length = div_ceil file.length piece_length) := by
  unfold check_layer_count
  split
  · rename_i hsmall
    simp only [pure_eq_ok, true_iff]
    omega
  · rename_i hlarge
    simp only [reject_if_eq_ok_iff, ne_eq, not_not]
    exact ⟨fun h _ => h, fun h => h (by omega)⟩

theorem check_root_eq_ok_iff :
    check_root sha layers piece_length root files = .ok () ↔ RootChecked sha layers piece_length root files := by
  unfold check_root
  by_cases hlarge : ∃ file ∈ files, piece_length < file.length
  · have hany : files.any (fun file => decide (file.length > piece_length)) = true := by
      simpa using hlarge
    simp only [hany, if_true, eq_ok_iff, ne_eq, not_not]
    constructor
    · rintro ⟨layer, hlayer, ⟨⟩, hcounts, computed, hroot, rfl⟩
      refine ⟨fun _ => ⟨layer, hlayer, fun file hfile => ?_, hroot⟩, fun hsmall => ?_⟩
      · exact check_layer_count_eq_ok_iff.mp (forM_eq_ok_iff.mp hcounts file hfile)
      · obtain ⟨file, hfile, hlt⟩ := hlarge
        have := hsmall file hfile
        omega
    · intro h
      obtain ⟨layer, hlayer, hcounts, hroot⟩ := h.layered hlarge
      refine ⟨layer, hlayer, (), forM_eq_ok_iff.mpr fun file hfile => ?_, root, hroot, rfl⟩
      exact check_layer_count_eq_ok_iff.mpr (hcounts file hfile)
  · have hany : files.any (fun file => decide (file.length > piece_length)) = false := by
      simpa using hlarge
    have hsmall : ∀ file ∈ files, file.length ≤ piece_length := by simpa using hlarge
    simp only [hany, Bool.false_eq_true, if_false, reject_if_eq_ok_iff, Bool.not_eq_true,
      Option.isSome_eq_false_iff, Option.isNone_iff_eq_none]
    exact ⟨fun h => ⟨fun hbig => absurd hbig hlarge, fun _ => h⟩, fun h => h.unlayered hsmall⟩

/-- The checks of version 2 metadata that do not look at piece layers. -/
structure FilesChecked (v2 : V2TorrentMeta) (piece_length total_length : Nat)
    (rooted : Vec (V2InfoHash × MetaFile)) : Prop where
  version : v2.meta_version = 2
  piece_length : validate_v2_piece_length piece_length = .ok ()
  files : validate_file_list v2.files total_length "BEP 52 file tree" = .ok ()
  rooted : rooted_files v2.files = .ok rooted

/-- The checks of version 2 metadata on its piece layers. -/
structure LayersChecked (sha : Sha) (layers : Vec V2PieceLayer) (piece_length : Nat)
    (rooted : Vec (V2InfoHash × MetaFile)) : Prop where
  nodup : (layers.map V2PieceLayer.pieces_root).Nodup
  roots : ∀ root ∈ rooted.map Prod.fst, RootChecked sha layers piece_length root (files_under rooted root)
  known : ∀ layer ∈ layers, layer.pieces_root ∈ rooted.map Prod.fst

theorem validate_v2_metadata_eq_ok_iff {v2 : V2TorrentMeta} {total_length : Nat} :
    validate_v2_metadata sha v2 piece_length total_length = .ok () ↔
      ∃ rooted, FilesChecked v2 piece_length total_length rooted ∧
        (v2.piece_layers_verified = false → v2.piece_layers = []) ∧
        (v2.piece_layers_verified = true → LayersChecked sha v2.piece_layers piece_length rooted) := by
  simp only [validate_v2_metadata, eq_ok_iff, ne_eq, not_not]
  cases hverified : v2.piece_layers_verified with
  | false =>
    simp only [if_true, reject_if_eq_ok_iff, not_not, Bool.false_eq_true, false_imp_iff, and_true, true_imp_iff]
    constructor
    · rintro ⟨-, hversion, ⟨⟩, hlength, ⟨⟩, hfiles, rooted, hrooted, hlayers⟩
      exact ⟨rooted, ⟨hversion, hlength, hfiles, hrooted⟩, hlayers⟩
    · rintro ⟨rooted, hchecked, hlayers⟩
      exact ⟨(), hchecked.version, (), hchecked.piece_length, (), hchecked.files, rooted,
        hchecked.rooted, hlayers⟩
  | true =>
    simp only [Bool.true_eq_false, if_false, eq_ok_iff, not_not, false_imp_iff, true_imp_iff, true_and]
    constructor
    · rintro ⟨-, hversion, ⟨⟩, hlength, ⟨⟩, hfiles, rooted, hrooted, -, hnodup, ⟨⟩, hroots, hknown⟩
      refine ⟨rooted, ⟨hversion, hlength, hfiles, hrooted⟩, hnodup, fun root hroot => ?_,
        fun layer hlayer => ?_⟩
      · exact check_root_eq_ok_iff.mp (forM_eq_ok_iff.mp hroots root (List.mem_eraseDups.mpr hroot))
      · have hmem := forM_eq_ok_iff.mp hknown layer hlayer
        simpa using hmem
    · rintro ⟨rooted, hchecked, hlayers⟩
      refine ⟨(), hchecked.version, (), hchecked.piece_length, (), hchecked.files, rooted,
        hchecked.rooted, (), hlayers.nodup, (), forM_eq_ok_iff.mpr fun root hroot => ?_,
        forM_eq_ok_iff.mpr fun layer hlayer => ?_⟩
      · exact check_root_eq_ok_iff.mpr (hlayers.roots root (List.mem_eraseDups.mp hroot))
      · have hmem := hlayers.known layer hlayer
        simpa using hmem

/-- A torrent with a version 2 identity is valid only with valid version 2 metadata. -/
theorem validate_v2_metadata_of_validate {torrent : TorrentMeta} {identity : V2InfoHash}
    (h : torrent.validate sha = .ok ()) (hidentity : torrent.identity.v2_info_hash = some identity) :
    ∃ v2, torrent.v2 = some v2 ∧ validate_v2_metadata sha v2 torrent.piece_length torrent.total_length = .ok () := by
  simp only [TorrentMeta.validate, bind_eq_ok_iff] at h
  obtain ⟨-, -, -, -, -, -, -, -, -, -, -, -, -, -, -, -, h⟩ := h
  cases hcase : torrent.identity with
  | Unknown => simp [hcase, TorrentIdentity.v2_info_hash] at hidentity
  | V1 v1 => simp [hcase, TorrentIdentity.v2_info_hash] at hidentity
  | V2 hash =>
    simp only [validate_identity, hcase, eq_ok_iff] at h
    obtain ⟨-, -, -, -, v2, hv2, ⟨⟩, hvalid, -⟩ := h
    exact ⟨v2, hv2, hvalid⟩
  | Hybrid v1 hash =>
    simp only [validate_identity, hcase, eq_ok_iff] at h
    obtain ⟨-, -, -, -, v2, hv2, ⟨⟩, hvalid, -⟩ := h
    exact ⟨v2, hv2, hvalid⟩

theorem rooted_files_eq_ok (h : rooted_files files = .ok rooted) :
    rooted.map Prod.snd = files.filter (fun file => file.length ≠ 0) ∧
      ∀ entry ∈ rooted, entry.2.pieces_root = some entry.1 := by
  rw [rooted_files, mapM_eq_ok_iff] at h
  generalize files.filter (fun file => file.length ≠ 0) = files at h ⊢
  induction h with
  | nil => simp
  | cons hentry _ ih =>
    simp only [eq_ok_iff] at hentry
    obtain ⟨root, hroot, rfl⟩ := hentry
    exact ⟨congrArg _ ih.1, List.forall_mem_cons.mpr ⟨hroot, ih.2⟩⟩

theorem exists_root_of_rooted_files (h : rooted_files files = .ok rooted) (hfile : file ∈ files)
    (hne : file.length ≠ 0) : ∃ root, file.pieces_root = some root ∧ (root, file) ∈ rooted := by
  obtain ⟨hfiles, hroots⟩ := rooted_files_eq_ok h
  have hmem : file ∈ rooted.map Prod.snd := hfiles ▸ List.mem_filter.mpr ⟨hfile, by simpa using hne⟩
  obtain ⟨⟨root, _⟩, hentry, rfl⟩ := List.mem_map.mp hmem
  exact ⟨root, hroots _ hentry, hentry⟩

theorem mem_rooted_files (h : rooted_files files = .ok rooted) :
    (root, file) ∈ rooted ↔ file ∈ files ∧ file.length ≠ 0 ∧ file.pieces_root = some root := by
  constructor
  · intro hentry
    obtain ⟨hfiles, hroots⟩ := rooted_files_eq_ok h
    have hmem : file ∈ files.filter _ := hfiles ▸ List.mem_map.mpr ⟨_, hentry, rfl⟩
    simpa [and_assoc] using And.intro (List.mem_filter.mp hmem) (hroots _ hentry)
  · intro ⟨hfile, hne, hroot⟩
    obtain ⟨other, hother, hentry⟩ := exists_root_of_rooted_files h hfile hne
    obtain rfl : root = other := Option.some.inj (hroot.symm.trans hother)
    exact hentry

theorem mem_files_under : file ∈ files_under rooted root ↔ (root, file) ∈ rooted := by
  simp [files_under]

/-- The keys of a `BTreeMap` ascend. -/
def Ascending (entries : Vec (V2InfoHash × Nat)) : Prop :=
  entries.Pairwise fun left right => left.1.ord_key < right.1.ord_key

theorem mem_of_mem_btree_insert {count : Nat} {entries : Vec (V2InfoHash × Nat)}
    {entry : V2InfoHash × Nat} (h : entry ∈ btree_insert root count entries) :
    entry = (root, count) ∨ entry ∈ entries := by
  induction entries with
  | nil => simpa [btree_insert] using h
  | cons first entries ih =>
    rw [btree_insert] at h
    split at h
    · rcases List.mem_cons.mp h with rfl | hrest
      · exact Or.inl rfl
      · exact Or.inr (List.mem_cons_of_mem _ hrest)
    · split at h
      · exact List.mem_cons.mp h
      · rcases List.mem_cons.mp h with rfl | hrest
        · exact Or.inr List.mem_cons_self
        · exact (ih hrest).imp_right (List.mem_cons_of_mem _)

theorem mem_btree_insert {count : Nat} {entries : Vec (V2InfoHash × Nat)}
    (hsame : ∀ entry ∈ entries, entry.1 = root → entry.2 = count) {entry : V2InfoHash × Nat} :
    entry ∈ btree_insert root count entries ↔ entry = (root, count) ∨ entry ∈ entries := by
  refine ⟨mem_of_mem_btree_insert, ?_⟩
  induction entries with
  | nil => simp [btree_insert]
  | cons first entries ih =>
    obtain ⟨key, value⟩ := first
    have hrest := ih fun entry hentry => hsame entry (List.mem_cons_of_mem _ hentry)
    rw [btree_insert]
    split
    · rename_i hkey
      have hvalue : value = count := hsame (key, value) List.mem_cons_self hkey.symm
      subst hkey hvalue
      simp
    · split
      · exact List.mem_cons.mpr
      · rintro (rfl | hentry)
        · exact List.mem_cons_of_mem _ (hrest (Or.inl rfl))
        · rcases List.mem_cons.mp hentry with rfl | hentry
          · exact List.mem_cons_self
          · exact List.mem_cons_of_mem _ (hrest (Or.inr hentry))

theorem Ascending.btree_insert {count : Nat} {entries : Vec (V2InfoHash × Nat)}
    (h : Ascending entries) : Ascending (btree_insert root count entries) := by
  induction entries with
  | nil => exact List.pairwise_singleton _ _
  | cons first entries ih =>
    obtain ⟨key, value⟩ := first
    obtain ⟨hfirst, hrest⟩ := List.pairwise_cons.mp h
    rw [meta.btree_insert]
    split
    · rename_i hkey
      subst hkey
      exact List.pairwise_cons.mpr ⟨hfirst, hrest⟩
    · rename_i hne
      split
      · rename_i hlt
        refine List.pairwise_cons.mpr ⟨fun entry hentry => ?_, h⟩
        rcases List.mem_cons.mp hentry with rfl | hentry
        · exact hlt
        · exact hlt.trans (hfirst entry hentry)
      · rename_i hge
        have hgt : key.ord_key < root.ord_key :=
          lt_of_le_of_ne (not_lt.mp hge) fun heq => hne (V2InfoHash.ord_key_injective heq).symm
        refine List.pairwise_cons.mpr ⟨fun entry hentry => ?_, ih hrest⟩
        rcases mem_of_mem_btree_insert hentry with rfl | hentry
        · exact hgt
        · exact hfirst entry hentry

theorem Ascending.nodup {entries : Vec (V2InfoHash × Nat)} (h : Ascending entries) : (entries.map Prod.fst).Nodup := by
  rw [List.Nodup, List.pairwise_map]
  exact h.imp fun hlt heq => absurd (congrArg V2InfoHash.ord_key heq) (ne_of_lt hlt)

/-- A file that spans several pieces, so that its root needs a layer. -/
def NeedsLayer (piece_length : Nat) (file : MetaFile) (root : V2InfoHash) : Prop :=
  piece_length < file.length ∧ file.pieces_root = some root

/-- The loop of `required_piece_layers` ends over files that agree on the hashes under each root. -/
theorem require_layers_total (count : V2InfoHash → Nat) {layers : Vec (V2InfoHash × Nat)}
    (hfiles : ∀ file ∈ files, piece_length < file.length →
      ∃ root, file.pieces_root = some root ∧ div_ceil file.length piece_length = count root)
    (hlayers : ∀ entry ∈ layers, entry.2 = count entry.1) :
    ∃ required, require_layers piece_length files layers = .ok required := by
  induction files generalizing layers with
  | nil => exact ⟨layers, rfl⟩
  | cons file files ih =>
    obtain ⟨hfile, hrest⟩ := List.forall_mem_cons.mp hfiles
    rw [require_layers]
    split
    · exact ih hrest hlayers
    · obtain ⟨root, hroot, hcount⟩ := hfile (by omega)
      have hagree : ¬ ∃ previous ∈ layers, previous.1 = root ∧
          previous.2 ≠ div_ceil file.length piece_length := by
        rintro ⟨previous, hprevious, rfl, hne⟩
        exact hne ((hlayers previous hprevious).trans hcount.symm)
      simp only [hroot, ok_or, bind_ok, reject_if, if_neg hagree]
      refine ih hrest fun entry hentry => ?_
      rcases mem_of_mem_btree_insert hentry with rfl | hentry
      · exact hcount
      · exact hlayers entry hentry

/-- What the loop returns: the layers it was given and those of the large files. -/
theorem require_layers_ok {layers required : Vec (V2InfoHash × Nat)}
    (hascending : Ascending layers) (h : require_layers piece_length files layers = .ok required) :
    Ascending required ∧ ∀ entry, entry ∈ required ↔ entry ∈ layers ∨ ∃ file ∈ files,
        NeedsLayer piece_length file entry.1 ∧ entry.2 = div_ceil file.length piece_length := by
  induction files generalizing layers with
  | nil =>
    obtain rfl := Except.ok.inj h
    exact ⟨hascending, by simp⟩
  | cons file files ih =>
    rw [require_layers] at h
    split at h
    · rename_i hsmall
      obtain ⟨hsorted, hmem⟩ := ih hascending h
      have hnot : ∀ root, ¬ NeedsLayer piece_length file root := fun root hneeds => by
        have := hneeds.1
        omega
      exact ⟨hsorted, fun entry => by simp [hmem, hnot]⟩
    · rename_i hlarge
      simp only [eq_ok_iff] at h
      obtain ⟨root, hroot, -, hagree, h⟩ := h
      have hsame : ∀ entry ∈ layers, entry.1 = root → entry.2 = div_ceil file.length piece_length := by
        intro entry hentry heq
        by_contra hne
        exact hagree ⟨entry, hentry, heq, hne⟩
      obtain ⟨hsorted, hmem⟩ := ih hascending.btree_insert h
      refine ⟨hsorted, fun entry => ?_⟩
      have hneeds : NeedsLayer piece_length file entry.1 ↔ entry.1 = root := by
        rw [NeedsLayer, hroot, Option.some.injEq, eq_comm (a := root)]
        exact and_iff_right (by omega)
      rw [hmem, mem_btree_insert hsame, List.exists_mem_cons_iff, hneeds, Prod.ext_iff, or_assoc, or_left_comm]

theorem find_layer_eq_some_iff (hnodup : (layers.map V2PieceLayer.pieces_root).Nodup) :
    layers.find? (fun layer => layer.pieces_root = root) = some layer ↔ layer ∈ layers ∧ layer.pieces_root = root := by
  constructor
  · intro hfind
    exact ⟨List.mem_of_find?_eq_some hfind, by simpa using List.find?_some hfind⟩
  · rintro ⟨hmem, hroot⟩
    cases hfind : layers.find? (fun layer => layer.pieces_root = root) with
    | none =>
      have hnone := List.find?_eq_none.mp hfind layer hmem
      simp [hroot] at hnone
    | some found =>
      have hfound : found.pieces_root = root := by simpa using List.find?_some hfind
      rw [List.inj_on_of_nodup_map hnodup (List.mem_of_find?_eq_some hfind) hmem (hfound.trans hroot.symm)]

/-- The layers of a valid torrent are those of the roots with a file of several pieces, one for each. A layer has as
    many hashes as its files have pieces, under its root. -/
theorem layersChecked_iff (hrooted : rooted_files files = .ok rooted) :
    LayersChecked sha layers piece_length rooted ↔ (layers.map V2PieceLayer.pieces_root).Nodup ∧
      (∀ file ∈ files, ∀ root, NeedsLayer piece_length file root → ∃ layer ∈ layers,
        layer.pieces_root = root ∧ layer.hashes.length = div_ceil file.length piece_length) ∧
      ∀ layer ∈ layers, (∃ file ∈ files, NeedsLayer piece_length file layer.pieces_root) ∧
        v2_piece_layer_root sha layer.hashes piece_length = .ok layer.pieces_root := by
  have hunder : ∀ {file root}, NeedsLayer piece_length file root →
      (file ∈ files ↔ file ∈ files_under rooted root) := by
    intro file root hneeds
    rw [mem_files_under, mem_rooted_files hrooted, and_iff_left]
    exact ⟨Nat.ne_of_gt (Nat.zero_lt_of_lt hneeds.1), hneeds.2⟩
  have hroot_of : ∀ {file root}, file ∈ files_under rooted root → file.pieces_root = some root :=
    fun hfile => ((mem_rooted_files hrooted).mp (mem_files_under.mp hfile)).2.2
  have hkey : ∀ {root}, root ∈ rooted.map Prod.fst ↔ ∃ file, file ∈ files_under rooted root := by
    simp [mem_files_under]
  constructor
  · intro h
    refine ⟨h.nodup, fun file hfile root hneeds => ?_, fun layer hlayer => ?_⟩
    · have hfile := (hunder hneeds).mp hfile
      obtain ⟨layer, hfind, hcounts, -⟩ := (h.roots root (hkey.mpr ⟨file, hfile⟩)).layered ⟨file, hfile, hneeds.1⟩
      obtain ⟨hlayer, hroot⟩ := (find_layer_eq_some_iff h.nodup).mp hfind
      exact ⟨layer, hlayer, hroot, hcounts file hfile hneeds.1⟩
    · have hchecked := h.roots _ (h.known layer hlayer)
      have hfind := (find_layer_eq_some_iff h.nodup).mpr ⟨hlayer, rfl⟩
      have hlarge : ∃ file ∈ files_under rooted layer.pieces_root, piece_length < file.length := by
        by_contra! hsmall
        simp [hchecked.unlayered hsmall] at hfind
      obtain ⟨found, hfound, -, hroot⟩ := hchecked.layered hlarge
      obtain rfl : found = layer := Option.some.inj (hfound.symm.trans hfind)
      obtain ⟨file, hfile, hlength⟩ := hlarge
      have hneeds : NeedsLayer piece_length file found.pieces_root := ⟨hlength, hroot_of hfile⟩
      exact ⟨⟨file, (hunder hneeds).mpr hfile, hneeds⟩, hroot⟩
  · intro ⟨hnodup, hfiles, hlayers⟩
    have hcount : ∀ {file root}, file ∈ files_under rooted root → piece_length < file.length →
        ∃ layer ∈ layers, layer.pieces_root = root ∧ layer.hashes.length = div_ceil file.length piece_length := by
      intro file root hfile hlarge
      have hneeds : NeedsLayer piece_length file root := ⟨hlarge, hroot_of hfile⟩
      exact hfiles file ((hunder hneeds).mpr hfile) root hneeds
    refine ⟨hnodup, fun root _ => ⟨?_, fun hsmall => ?_⟩, fun layer hlayer => ?_⟩
    · intro ⟨file, hfile, hlarge⟩
      obtain ⟨layer, hlayer, rfl, -⟩ := hcount hfile hlarge
      refine ⟨layer, (find_layer_eq_some_iff hnodup).mpr ⟨hlayer, rfl⟩, ?_, (hlayers layer hlayer).2⟩
      intro other hother hlength
      obtain ⟨layer', hlayer', hsame, hcount'⟩ := hcount hother hlength
      rw [← List.inj_on_of_nodup_map hnodup hlayer' hlayer hsame, hcount']
    · rw [List.find?_eq_none]
      intro layer hlayer hroot
      obtain ⟨file, hfile, hneeds⟩ := (hlayers layer hlayer).1
      obtain rfl : layer.pieces_root = root := by simpa using hroot
      exact absurd (hsmall file ((hunder hneeds).mp hfile)) (Nat.not_le.mpr hneeds.1)
    · obtain ⟨file, hfile, hneeds⟩ := (hlayers layer hlayer).1
      exact hkey.mpr ⟨file, (hunder hneeds).mp hfile⟩

/-- Only the set of layers counts, not the order in which they are listed. -/
theorem LayersChecked.congr (h : LayersChecked sha layers piece_length rooted)
    (hrooted : rooted_files files = .ok rooted) {others : Vec V2PieceLayer}
    (hnodup : (others.map V2PieceLayer.pieces_root).Nodup) (hmem : ∀ layer, layer ∈ others ↔ layer ∈ layers) :
    LayersChecked sha others piece_length rooted := by
  rw [layersChecked_iff hrooted] at h ⊢
  simpa only [hmem, hnodup, true_and] using h.2

/-- What validation says of each layer: as many hashes as its files have pieces, under its root. -/
theorem LayersChecked.count (h : LayersChecked sha layers piece_length rooted)
    (hrooted : rooted_files files = .ok rooted) (hlayer : layer ∈ layers)
    (hfile : file ∈ files) (hneeds : NeedsLayer piece_length file layer.pieces_root) :
    layer.hashes.length = div_ceil file.length piece_length := by
  obtain ⟨hnodup, hfiles, -⟩ := (layersChecked_iff hrooted).mp h
  obtain ⟨found, hfound, hsame, hcount⟩ := hfiles file hfile _ hneeds
  rw [← List.inj_on_of_nodup_map hnodup hfound hlayer hsame, hcount]

/-- A file that is longer than a piece has at least two. -/
theorem two_le_div_ceil {length : Nat} (hpos : 0 < piece_length) (h : piece_length < length) :
    2 ≤ div_ceil length piece_length := by
  have hlt : 1 < (length + piece_length - 1) / piece_length := (slices.lt_div_ceil_iff hpos).mpr (by omega)
  exact hlt

/-- A valid layer has at least two hashes, and its root is the root of the tree over them. -/
theorem LayersChecked.two_le (h : LayersChecked sha layers piece_length rooted)
    (hrooted : rooted_files files = .ok rooted) (hpositive : 0 < piece_length) (hlayer : layer ∈ layers) :
    2 ≤ layer.hashes.length ∧ v2_piece_layer_root sha layer.hashes piece_length = .ok layer.pieces_root := by
  obtain ⟨⟨file, hfile, hneeds⟩, hroot⟩ := ((layersChecked_iff hrooted).mp h).2.2 layer hlayer
  rw [h.count hrooted hlayer hfile hneeds]
  exact ⟨two_le_div_ceil hpositive hneeds.1, hroot⟩

/-- A torrent with valid layers requires exactly those layers. -/
theorem LayersChecked.required (h : LayersChecked sha layers piece_length rooted)
    (hrooted : rooted_files files = .ok rooted) :
    ∃ required, require_layers piece_length files [] = .ok required ∧ Ascending required ∧
      ∀ root n, (root, n) ∈ required ↔ ∃ layer ∈ layers, layer.pieces_root = root ∧ layer.hashes.length = n := by
  let count (root : V2InfoHash) : Nat :=
    ((layers.find? fun layer => layer.pieces_root = root).map fun layer => layer.hashes.length).getD 0
  obtain ⟨hnodup, hfiles, hlayers⟩ := (layersChecked_iff hrooted).mp h
  obtain ⟨required, hok⟩ : ∃ required, require_layers piece_length files [] = .ok required := by
    refine require_layers_total count (fun file hfile hlarge => ?_) (by simp)
    obtain ⟨root, hroot, -⟩ := exists_root_of_rooted_files hrooted hfile (by omega)
    obtain ⟨layer, hlayer, rfl, hcount⟩ := hfiles file hfile root ⟨hlarge, hroot⟩
    refine ⟨_, hroot, ?_⟩
    simp only [count, (find_layer_eq_some_iff hnodup).mpr ⟨hlayer, rfl⟩, Option.map_some, Option.getD_some, hcount]
  obtain ⟨hascending, hentries⟩ := require_layers_ok (show Ascending [] from List.Pairwise.nil) hok
  refine ⟨required, hok, hascending, fun root n => ?_⟩
  rw [hentries, or_iff_right List.not_mem_nil]
  constructor
  · rintro ⟨file, hfile, hneeds, rfl⟩
    exact hfiles file hfile root hneeds
  · rintro ⟨layer, hlayer, rfl, rfl⟩
    obtain ⟨file, hfile, hneeds⟩ := (hlayers layer hlayer).1
    exact ⟨file, hfile, hneeds, h.count hrooted hlayer hfile hneeds⟩

/-- Layers that answer the requirements of a file list, one for each root, are the layers it needs. -/
theorem LayersChecked.of_required {required : Vec (V2InfoHash × Nat)} (hrooted : rooted_files files = .ok rooted)
    (hrequired : require_layers piece_length files [] = .ok required)
    (hexact : (layers.map fun layer => (layer.pieces_root, layer.hashes.length)).Perm required)
    (hroots : ∀ layer ∈ layers, v2_piece_layer_root sha layer.hashes piece_length = .ok layer.pieces_root) :
    LayersChecked sha layers piece_length rooted := by
  obtain ⟨hascending, hentries⟩ := require_layers_ok (show Ascending [] from List.Pairwise.nil) hrequired
  have hmem : ∀ entry, (∃ layer ∈ layers, (layer.pieces_root, layer.hashes.length) = entry) ↔ ∃ file ∈ files,
      NeedsLayer piece_length file entry.1 ∧ entry.2 = div_ceil file.length piece_length := by
    intro entry
    rw [← List.mem_map, hexact.mem_iff, hentries, or_iff_right List.not_mem_nil]
  rw [layersChecked_iff hrooted]
  refine ⟨?_, fun file hfile root hneeds => ?_, fun layer hlayer => ⟨?_, hroots layer hlayer⟩⟩
  · have hfirst := (hexact.map Prod.fst).nodup_iff.mpr hascending.nodup
    rwa [List.map_map] at hfirst
  · simpa only [Prod.mk.injEq] using (hmem (root, div_ceil file.length piece_length)).mpr ⟨file, hfile, hneeds, rfl⟩
  · obtain ⟨file, hfile, hneeds, -⟩ := (hmem _).mp ⟨layer, hlayer, rfl⟩
    exact ⟨file, hfile, hneeds⟩

end swarmotter.meta

import Hausboot.Fat.Tree
import Hausboot.FatEdit.Addressing
import Hausboot.Lib.Prog

/-! # The fatedit Tool: Sessions as Volumes

    A session has a volume in memory: the FAT that it has loaded and changed,
    and the clusters of the image file. The image file alone gives the volume
    on disk. This module says what the primitives of `FatReader` do to the
    volume in memory. -/

open ByteLib Prog

namespace Hausboot

/-- The super block of an image. -/
def imageSuper (image : FatEdit.ByteVec) : FatSuper := ⟨image.bytes.read 0 512⟩

end Hausboot

namespace Hausboot.FatEdit

/-! ## Section 1: Geometry -/

/-- Number of data clusters. -/
def dataClusters (super : FatSuper) : Nat :=
  (super.sectorCount - super.numFats * super.sectorsPerFat - super.reservedSectors) /
    super.sectorsPerCluster

/-- Number of entries of a FAT. -/
def fatEntries (super : FatSuper) : Nat := super.sectorsPerFat * super.bytesPerSector / 4

def fatStart (super : FatSuper) : Nat := super.reservedSectors * super.bytesPerSector

def dataStart (super : FatSuper) : Nat :=
  (super.reservedSectors + super.numFats * super.sectorsPerFat) * super.bytesPerSector

/-- The geometry of a FAT32 volume below 4 GiB, in an image of `size` bytes. -/
structure Layout (super : FatSuper) (size : Nat) : Prop where
  sectorsPerCluster_pos : 0 < super.sectorsPerCluster
  bytesPerSector_ge : 512 ≤ super.bytesPerSector
  numFats_pos : 0 < super.numFats
  area : super.reservedSectors + super.numFats * super.sectorsPerFat ≤ super.sectorCount
  small : super.sectorCount * super.bytesPerSector < 2 ^ 32
  fits : super.sectorCount * super.bytesPerSector ≤ size
  /-- The FAT has an entry for every data cluster. -/
  entries : dataClusters super + 2 ≤ fatEntries super

theorem bytesPerCluster_lt (super : FatSuper) : bytesPerCluster super < 2 ^ 32 := by
  have h1 := super.sectorsPerCluster_lt
  have h2 := super.bytesPerSector_lt
  have hmul := Nat.mul_le_mul (Nat.le_of_lt h1) (Nat.le_of_lt h2)
  rw [bytesPerCluster]
  omega

theorem searchRange_eq_dataClusters {super : FatSuper} (hpos : 0 < super.sectorsPerCluster)
    (harea : super.reservedSectors + super.numFats * super.sectorsPerFat ≤ super.sectorCount) :
    searchRange super = dataClusters super := by
  have hcount := super.sectorCount_lt
  have hfats : u32 (super.sectorsPerFat * super.numFats) = super.numFats * super.sectorsPerFat := by
    rw [Nat.mul_comm, u32_of_lt (by omega)]
  simp only [searchRange, dataClusters, hfats]
  split
  · rw [Nat.div_eq_of_lt (by omega)]
  · split
    · rw [Nat.div_eq_of_lt (by omega)]
    · rfl

namespace Layout

variable {super : FatSuper} {size : Nat}

theorem bytesPerCluster_pos (hl : Layout super size) : 0 < bytesPerCluster super :=
  Nat.mul_pos hl.sectorsPerCluster_pos (Nat.lt_of_lt_of_le (by decide) hl.bytesPerSector_ge)

theorem bytesPerCluster_ge (hl : Layout super size) : 512 ≤ bytesPerCluster super :=
  hl.bytesPerSector_ge.trans (Nat.le_mul_of_pos_left _ hl.sectorsPerCluster_pos)

/-- The data clusters lie in the volume. -/
theorem clusters_le (hl : Layout super size) :
    dataStart super + dataClusters super * bytesPerCluster super ≤
      super.sectorCount * super.bytesPerSector := by
  have hdiv : dataClusters super * super.sectorsPerCluster ≤
      super.sectorCount - super.numFats * super.sectorsPerFat - super.reservedSectors :=
    Nat.div_mul_le_self _ _
  have harea := hl.area
  have hsectors : super.reservedSectors + super.numFats * super.sectorsPerFat +
      dataClusters super * super.sectorsPerCluster ≤ super.sectorCount := by omega
  calc dataStart super + dataClusters super * bytesPerCluster super
      = (super.reservedSectors + super.numFats * super.sectorsPerFat +
          dataClusters super * super.sectorsPerCluster) * super.bytesPerSector := by
        rw [dataStart, bytesPerCluster]
        ring
    _ ≤ super.sectorCount * super.bytesPerSector := Nat.mul_le_mul_right _ hsectors

/-- A data cluster lies between the FATs and the end of the image. -/
theorem cluster_le (hl : Layout super size) {c : Nat} (hc : c < dataClusters super + 2)
    (h2 : 2 ≤ c) :
    dataStart super + (c - 2) * bytesPerCluster super + bytesPerCluster super ≤
      super.sectorCount * super.bytesPerSector := by
  have hmul : (c - 2 + 1) * bytesPerCluster super ≤ dataClusters super * bytesPerCluster super :=
    Nat.mul_le_mul_right _ (by omega)
  rw [Nat.succ_mul] at hmul
  have hall := hl.clusters_le
  omega

theorem dataClusters_lt (hl : Layout super size) : dataClusters super + 2 ≤ endMark := by
  have hall := hl.clusters_le
  have hsmall := hl.small
  have hge : dataClusters super * 512 ≤ dataClusters super * bytesPerCluster super :=
    Nat.mul_le_mul_left _ hl.bytesPerCluster_ge
  unfold endMark
  omega

/-- The FAT lies in front of the data clusters. -/
theorem fat_le (hl : Layout super size) :
    fatStart super + super.sectorsPerFat * super.bytesPerSector ≤ dataStart super := by
  have hone : super.sectorsPerFat ≤ super.numFats * super.sectorsPerFat :=
    Nat.le_mul_of_pos_left _ hl.numFats_pos
  calc fatStart super + super.sectorsPerFat * super.bytesPerSector
      = (super.reservedSectors + super.sectorsPerFat) * super.bytesPerSector := by
        rw [fatStart]
        ring
    _ ≤ dataStart super := Nat.mul_le_mul_right _ (by omega)

theorem fat_lt (hl : Layout super size) :
    super.sectorsPerFat * super.bytesPerSector < 2 ^ 32 := by
  have hfat := hl.fat_le
  have hall := hl.clusters_le
  have hsmall := hl.small
  omega

theorem entries_mul_le (super : FatSuper) :
    4 * fatEntries super ≤ super.sectorsPerFat * super.bytesPerSector := by
  rw [fatEntries]
  omega

/-- The loop of `FindFreeCluster` runs over as many indices as there are
    clusters. -/
theorem searchRange_eq (hl : Layout super size) : searchRange super = dataClusters super :=
  searchRange_eq_dataClusters hl.sectorsPerCluster_pos hl.area

theorem dataClusters_eq (super : FatSuper) : dataClusters super = super.clusterCount := by
  rw [dataClusters, FatSuper.clusterCount, FatSuper.firstSector]
  congr 1
  omega

theorem holds (hl : Layout super size) : super.Holds (dataClusters super) := by
  rw [dataClusters_eq]
  exact FatSuper.Describes.holds ⟨hl.sectorsPerCluster_pos, hl.numFats_pos, hl.area⟩

theorem clusterOffset_eq (super : FatSuper) (c : Nat) :
    clusterOffset super c = dataStart super + (c - 2) * bytesPerCluster super := by
  rw [clusterOffset, FatSuper.firstSector, dataStart, bytesPerCluster]
  ring

/-- The offset of a data cluster in the image; nothing overflows. -/
theorem clusterFileOffset_eq (hl : Layout super size) {c : Nat}
    (hc : c < dataClusters super + 2) (h2 : 2 ≤ c) :
    clusterFileOffset super c = dataStart super + (c - 2) * bytesPerCluster super := by
  have hend := hl.cluster_le hc h2
  have hsmall := hl.small
  rw [clusterFileOffset_eq_u32 hl.holds h2 hc, clusterOffset_eq, u32_of_lt (by omega)]

end Layout

/-! ## Section 2: Views -/

/-- The bytes of a data cluster. -/
def clusterData (super : FatSuper) (f : ByteVec) (c : Nat) : Bytes :=
  if c < 2 then [] else
    f.bytes.read (dataStart super + (c - 2) * bytesPerCluster super) (bytesPerCluster super)

/-- The volume with the FAT at offset `fat` of a byte vector. -/
def viewWith (super : FatSuper) (table : Store) (fat : Nat) (f : ByteVec) : Vol where
  count := dataClusters super
  clusterSize := bytesPerCluster super
  root := super.rootDirIndex
  entry n := if n < fatEntries super then table.readLE (fat + 4 * n) 4 else 0
  data := clusterData super f

/-- The volume that the session sees. -/
def memView (super : FatSuper) (s : Session) : Vol := viewWith super s.fatRaw.bytes 0 s.file

/-- The volume that the image file holds, by its first FAT. -/
def diskView (super : FatSuper) (f : ByteVec) : Vol := viewWith super f.bytes (fatStart super) f

/-- A session on an image with a proper geometry. -/
structure Session.Ok (super : FatSuper) (s : Session) : Prop where
  layout : Layout super s.file.size
  fatSize : s.fatRaw.size = super.sectorsPerFat * super.bytesPerSector

/-- What no command changes: everything in front of the data clusters, and the
    sizes. -/
structure Session.Kept (super : FatSuper) (s s' : Session) : Prop where
  front : ∀ i, i < dataStart super → s'.file.bytes i = s.file.bytes i
  size : s'.file.size = s.file.size
  fatSize : s'.fatRaw.size = s.fatRaw.size
  fsinfo : s'.fsinfo = s.fsinfo

namespace Session

variable {super : FatSuper} {s s' s'' : Session}

theorem Kept.rfl : Kept super s s := ⟨fun _ _ => Eq.refl _, Eq.refl _, Eq.refl _, Eq.refl _⟩

theorem Kept.trans (h : Kept super s s') (h' : Kept super s' s'') : Kept super s s'' where
  front i hi := (h'.front i hi).trans (h.front i hi)
  size := h'.size.trans h.size
  fatSize := h'.fatSize.trans h.fatSize
  fsinfo := h'.fsinfo.trans h.fsinfo

theorem Ok.kept (hs : s.Ok super) (h : Kept super s s') : s'.Ok super where
  layout := by
    rw [h.size]
    exact hs.layout
  fatSize := h.fatSize.trans hs.fatSize

theorem length_data (super : FatSuper) (s : Session) {c : Nat} (hc : 2 ≤ c) :
    ((memView super s).data c).length = bytesPerCluster super := by
  show (clusterData super s.file c).length = _
  rw [clusterData, if_neg (by omega), Store.length_read]

/-- The geometric part of sanity. -/
theorem Ok.sane (hs : s.Ok super) (h0 : (memView super s).next 0 ≠ 0)
    (h1 : (memView super s).next 1 ≠ 0) : (memView super s).Sane where
  clusterSize_pos := hs.layout.bytesPerCluster_pos
  count_lt := hs.layout.dataClusters_lt
  length_data _ hc := Session.length_data super s hc
  reserved0 := h0
  reserved1 := h1

/-! ## Section 3: The FAT in memory -/

/-- The link of cluster `N` in the FAT in memory. -/
def link (s : Session) (N : Nat) : Nat := s.fatRaw.bytes.readLE (4 * N) 4 % 2 ^ 28

theorem nextClusterInFile_link {N : Nat} (hN : 4 * N + 4 ≤ s.fatRaw.size)
    (hsize : s.fatRaw.size < 2 ^ 32) : nextClusterInFile s N = .ok (s.link N) := by
  have hidx : u32 (N * 4) = 4 * N := by rw [Nat.mul_comm, u32_of_lt (by omega)]
  simp only [nextClusterInFile, hidx]
  exact if_pos (by omega)

theorem next_eq_link {N : Nat} (hN : N < fatEntries super) :
    (memView super s).next N = s.link N := by
  have hentry : (memView super s).entry N = s.fatRaw.bytes.readLE (0 + 4 * N) 4 := if_pos hN
  rw [Vol.next, hentry, Nat.zero_add, link]

theorem Ok.entry_le (hs : s.Ok super) {N : Nat} (hN : N < fatEntries super) :
    4 * N + 4 ≤ s.fatRaw.size := by
  have hmul := Layout.entries_mul_le super
  rw [hs.fatSize]
  omega

theorem Ok.fatRaw_lt (hs : s.Ok super) : s.fatRaw.size < 2 ^ 32 := by
  rw [hs.fatSize]
  exact hs.layout.fat_lt

theorem next_spec (hs : s.Ok super) {N : Nat} (hN : N < fatEntries super) :
    nextClusterInFile s N = .ok ((memView super s).next N) := by
  rw [next_eq_link hN]
  exact nextClusterInFile_link (hs.entry_le hN) hs.fatRaw_lt

theorem next_valid (hs : s.Ok super) {N : Nat} (hN : (memView super s).Valid N) :
    nextClusterInFile s N = .ok ((memView super s).next N) :=
  next_spec hs (Nat.lt_of_lt_of_le hN.2 hs.layout.entries)

theorem setEntry_spec (hs : s.Ok super) {N : Nat} (hN : N < fatEntries super) (value : Nat) :
    ∃ s', setEntry N value s = .ok () s' ∧ s'.file = s.file ∧ Kept super s s' ∧
      memView super s' = (memView super s).setEntry N (value % 2 ^ 28) := by
  have hmul := Layout.entries_mul_le super
  have hsize := hs.fatSize
  have hif : (decide (s.fatRaw.size < 4) || decide (N * 4 ≥ s.fatRaw.size - 3)) = false := by
    rw [Bool.or_eq_false_iff, decide_eq_false_iff_not, decide_eq_false_iff_not]
    omega
  refine ⟨{ s with fatRaw := { s.fatRaw with
    bytes := s.fatRaw.bytes.writeLE (N * 4) 4 (value % 2 ^ 28) } }, ?_, rfl,
    ⟨fun _ _ => rfl, rfl, rfl, rfl⟩, ?_⟩
  · show EStateM.Result.ok () _ = _
    simp only [hif, Bool.false_eq_true, if_false]
  · have hentry : (memView super { s with fatRaw := { s.fatRaw with
        bytes := s.fatRaw.bytes.writeLE (N * 4) 4 (value % 2 ^ 28) } }).entry =
        Function.update (memView super s).entry N (value % 2 ^ 28) := by
      funext n
      simp only [memView, viewWith, Nat.zero_add]
      by_cases hn : n = N
      · subst hn
        rw [Function.update_self, if_pos hN, Nat.mul_comm, Store.readLE_writeLE_same]
        exact Nat.mod_eq_of_lt (by have := Nat.mod_lt value (show 0 < 2 ^ 28 by decide); omega)
      · rw [Function.update_of_ne hn, Store.readLE_writeLE_disjoint (by omega)]
    exact congrArg (fun entry => { memView super s with entry := entry }) hentry

/-- The search returns the first free cluster, if there is one. -/
theorem findFreeLoop_link (hsize : s.fatRaw.size < 2 ^ 32) (n i : Nat)
    (hle : 4 * (i + n) ≤ s.fatRaw.size) :
    (∃ x, i ≤ x ∧ x < i + n ∧ s.link x = 0 ∧ (∀ y, i ≤ y → y < x → s.link y ≠ 0) ∧
      findFreeLoop s n i = .ok x) ∨
    ((∀ x, i ≤ x → x < i + n → s.link x ≠ 0) ∧ findFreeLoop s n i = .ok noCluster) := by
  induction n generalizing i with
  | zero => exact .inr ⟨fun x h h' => absurd h' (by omega), rfl⟩
  | succ n ih =>
    have hnext := nextClusterInFile_link (N := i) (by omega) hsize
    by_cases hfree : s.link i = 0
    · refine .inl ⟨i, Nat.le_refl _, by omega, hfree, fun y h h' => absurd h' (by omega), ?_⟩
      rw [findFreeLoop, hnext, hfree]
      rfl
    · have hstep : findFreeLoop s (n + 1) i = findFreeLoop s n (i + 1) := by
        rw [findFreeLoop, hnext]
        simp only [bind, Except.bind, if_neg hfree]
      -- entry `i` is taken, so below the next free one all are
      have hfrom : ∀ y, i ≤ y → (i + 1 ≤ y → s.link y ≠ 0) → s.link y ≠ 0 := by
        intro y hle hrest
        rcases Nat.eq_or_lt_of_le hle with rfl | hlt
        · exact hfree
        · exact hrest hlt
      rw [hstep]
      rcases ih (i + 1) (by omega) with ⟨x, hlo, hx, hfx, hfirst, heq⟩ | ⟨hnone, heq⟩
      · exact .inl ⟨x, by omega, by omega, hfx,
          fun y hle hlt => hfrom y hle fun hle' => hfirst y hle' hlt, heq⟩
      · exact .inr ⟨fun y hle hlt => hfrom y hle fun hle' => hnone y hle' (by omega), heq⟩

theorem findFreeLoop_spec (hs : s.Ok super) (n i : Nat) (hle : i + n ≤ fatEntries super) :
    (∃ x, x < i + n ∧ (memView super s).next x = 0 ∧ findFreeLoop s n i = .ok x) ∨
    ((∀ x, i ≤ x → x < i + n → (memView super s).next x ≠ 0) ∧
      findFreeLoop s n i = .ok noCluster) := by
  have hmul := Layout.entries_mul_le super
  have hfat := hs.fatSize
  rcases findFreeLoop_link hs.fatRaw_lt n i (by omega) with ⟨x, -, hx, hfree, -, heq⟩ | ⟨hnone, heq⟩
  · refine .inl ⟨x, hx, ?_, heq⟩
    rwa [next_eq_link (by omega)]
  · refine .inr ⟨fun x hlo hx => ?_, heq⟩
    rw [next_eq_link (by omega)]
    exact hnone x hlo hx

theorem findFreeCluster_spec (hs : s.Ok super) :
    (∃ x, x < dataClusters super ∧ (memView super s).next x = 0 ∧
      findFreeCluster super s = .ok x) ∨
    ((memView super s).freeSet = ∅ ∧ findFreeCluster super s = .ok noCluster) := by
  have hentries := hs.layout.entries
  rw [findFreeCluster, hs.layout.searchRange_eq]
  rcases findFreeLoop_spec hs (dataClusters super) 0 (by omega) with ⟨x, hx, hfree, heq⟩ | ⟨hnone, heq⟩
  · exact .inl ⟨x, by omega, hfree, heq⟩
  · refine .inr ⟨?_, heq⟩
    apply Finset.filter_eq_empty_iff.mpr
    intro x hx
    exact hnone x (Nat.zero_le _) (by have := Finset.mem_range.mp hx; rw [Nat.zero_add]; exact this)

/-! ## Section 4: Allocation -/

theorem holds_reading {α : Type} {f : Session → Except Fail α} {Q : α → Session → Prop}
    {E : Fail → Session → Prop} (hok : ∀ a, f s = .ok a → Q a s) (herr : ∀ e, f s = .error e → E e s) :
    Holds (reading f) s Q E := by
  cases h : f s with
  | ok a => exact holds_of_ok (by simp [reading, h]) (hok a h)
  | error e => exact holds_of_error (by simp [reading, h]) (herr e h)

theorem holds_reading_ok {α : Type} {f : Session → Except Fail α} {a : α}
    {Q : α → Session → Prop} {E : Fail → Session → Prop} (h : f s = .ok a) (hq : Q a s) :
    Holds (reading f) s Q E :=
  holds_of_ok (by simp [reading, h]) hq

theorem reading_eq_ok {α : Type} {f : Session → Except Fail α} {a : α} :
    reading f s = .ok a s' ↔ f s = .ok a ∧ s' = s := by
  unfold reading
  cases f s with
  | ok b => simp [eq_comm]
  | error e => simp

/-- `AllocateCluster` takes a free cluster, or throws and changes nothing. -/
theorem allocateCluster_spec (hs : s.Ok super) :
    Holds (allocateCluster super) s
      (fun x s' => x < dataClusters super ∧ (memView super s).next x = 0 ∧ s'.file = s.file ∧
        Kept super s s' ∧ memView super s' = (memView super s).setEntry x endMark)
      (fun e s' => e = .throw .noFreeCluster ∧ s' = s ∧ (memView super s).freeSet = ∅) := by
  have hcount := hs.layout.dataClusters_lt
  have hentries := hs.layout.entries
  unfold allocateCluster
  apply holds_bind
  rcases findFreeCluster_spec hs with ⟨x, hx, hfree, heq⟩ | ⟨hnone, heq⟩
  · apply holds_reading_ok heq
    obtain ⟨s', hset, hfile, hkept, hview⟩ := setEntry_spec hs (N := x) (by omega) endMark
    rw [if_neg (by unfold endMark at *; omega)]
    apply holds_bind
    apply holds_of_ok hset
    exact ⟨hx, hfree, hfile, hkept, hview⟩
  · apply holds_reading_ok heq
    exact ⟨rfl, rfl, hnone⟩

theorem allocateClusterAfter_spec (hs : s.Ok super) {last : Nat}
    (hlast : (memView super s).Valid last) :
    Holds (allocateClusterAfter super last) s
      (fun x s' => x < dataClusters super ∧ (memView super s).next x = 0 ∧ s'.file = s.file ∧
        Kept super s s' ∧ memView super s' = (memView super s).link last x)
      (fun e s' => e = .throw .noFreeCluster ∧ s' = s ∧ (memView super s).freeSet = ∅) := by
  have hentries := hs.layout.entries
  have hcount := hs.layout.dataClusters_lt
  unfold allocateClusterAfter
  apply holds_bind
  apply (allocateCluster_spec hs).mono
  · intro x s₁ hx
    obtain ⟨hx, hfree, hfile, hkept, hview⟩ := hx
    obtain ⟨s', hset, hfile', hkept', hview'⟩ := setEntry_spec (hs.kept hkept) (N := last)
      (Nat.lt_of_lt_of_le hlast.2 hentries) x
    apply holds_bind
    apply holds_of_ok hset
    refine ⟨hx, hfree, hfile'.trans hfile, hkept.trans hkept', ?_⟩
    rw [hview', hview, Nat.mod_eq_of_lt (by unfold endMark at hcount; omega)]
    rfl
  · intro e s₁ he
    exact he

/-! ## Section 5: The clusters of the image -/

/-- Reading inside of a data cluster. -/
theorem readCluster_spec (hs : s.Ok super) {c : Nat} (hc : (memView super s).Valid c) {o n : Nat}
    (hon : o + n ≤ bytesPerCluster super) :
    s.file.readAt (clusterFileOffset super c + o) n =
      .ok (slice ((memView super s).data c) o n) := by
  have hend := hs.layout.cluster_le hc.2 hc.1
  have hfits := hs.layout.fits
  have hsmall := hs.layout.small
  have hdata : (memView super s).data c = s.file.bytes.read
      (dataStart super + (c - 2) * bytesPerCluster super) (bytesPerCluster super) :=
    if_neg (by have := hc.1; omega)
  rw [hs.layout.clusterFileOffset_eq hc.2 hc.1, hdata, Store.slice_read _ hon, ByteVec.readAt]
  by_cases hn : n = 0
  · rw [if_pos hn, hn]
    rfl
  · rw [if_neg hn, if_neg (by omega), if_pos (by omega)]

/-- Writing inside of a data cluster. -/
theorem writeCluster_spec (hs : s.Ok super) {c : Nat} (hc : (memView super s).Valid c) {o : Nat}
    {d : Bytes} (hod : o + d.length ≤ bytesPerCluster super) (hd : d ≠ []) :
    ∃ s', writeFile (clusterFileOffset super c + o) d s = .ok () s' ∧ s'.fatRaw = s.fatRaw ∧
      Kept super s s' ∧
      memView super s' = (memView super s).setData c (splice ((memView super s).data c) o d) := by
  have hend := hs.layout.cluster_le hc.2 hc.1
  have hfits := hs.layout.fits
  have hsmall := hs.layout.small
  have h2 := hc.1
  rw [hs.layout.clusterFileOffset_eq hc.2 hc.1]
  generalize hbase : dataStart super + (c - 2) * bytesPerCluster super = base at hend ⊢
  have hwrite : s.file.writeAt (base + o) d =
      .ok { bytes := s.file.bytes.write (base + o) d, size := s.file.size } := by
    rw [ByteVec.writeAt, if_neg hd, if_neg (by omega), Nat.max_eq_left (by omega)]
  refine ⟨{ s with file := { bytes := s.file.bytes.write (base + o) d, size := s.file.size } }, ?_,
    rfl, ⟨fun i hi => Store.write_apply_of_not_mem (by omega), rfl, rfl, rfl⟩, ?_⟩
  · simp only [writeFile, hwrite]
  · have hdata : clusterData super { bytes := s.file.bytes.write (base + o) d, size := s.file.size } =
        Function.update (clusterData super s.file) c (splice (clusterData super s.file c) o d) := by
      funext x
      by_cases hx : x = c
      · subst hx
        rw [Function.update_self, clusterData, clusterData, if_neg (by omega), if_neg (by omega),
          hbase]
        exact Store.read_write_splice hod
      · rw [Function.update_of_ne hx, clusterData, clusterData]
        by_cases hx2 : x < 2
        · rw [if_pos hx2, if_pos hx2]
        · rw [if_neg hx2, if_neg hx2]
          apply Store.read_write_disjoint
          -- different clusters lie apart
          rcases Nat.lt_or_gt_of_ne hx with hlt | hgt
          · have hmul : (x - 2 + 1) * bytesPerCluster super ≤ (c - 2) * bytesPerCluster super :=
              Nat.mul_le_mul_right _ (by omega)
            rw [Nat.succ_mul] at hmul
            omega
          · have hmul : (c - 2 + 1) * bytesPerCluster super ≤ (x - 2) * bytesPerCluster super :=
              Nat.mul_le_mul_right _ (by omega)
            rw [Nat.succ_mul] at hmul
            omega
    exact congrArg (fun data => { memView super s with data := data }) hdata

end Session

/-! ## Section 6: The start of a session -/

/-- `ReadAt` returns what stands in the file. -/
theorem readAt_ok {f : ByteVec} {offset n : Nat} {d : Bytes} (h : f.readAt offset n = .ok d) :
    d = f.bytes.read offset n := by
  unfold ByteVec.readAt at h
  by_cases hzero : n = 0
  · rw [if_pos hzero] at h
    rw [hzero, ← Except.ok.inj h, Store.read, List.range_zero, List.map_nil]
  rw [if_neg hzero] at h
  by_cases hbad : offset ≥ 2 ^ 63
  · rw [if_pos hbad] at h
    cases h
  rw [if_neg hbad] at h
  by_cases hend : offset + n ≤ f.size
  · rw [if_pos hend] at h
    exact (Except.ok.inj h).symm
  · rw [if_neg hend] at h
    cases h

/-- What `LoadFromImage` leaves behind where it does not throw. -/
theorem loadFromImage_ok {super : FatSuper} {file : ByteVec} {s : Session}
    (h : loadFromImage super file = .ok s) :
    ∃ raw, file.readAt (u64OfInt (i32 (super.reservedSectors * super.bytesPerSector)))
        (u32 (super.sectorsPerFat * super.bytesPerSector)) = .ok raw ∧
      s.file = file ∧
      s.fatRaw.bytes = Store.write (fun _ => 0) 0 raw ∧
      s.fatRaw.size = u32 (super.sectorsPerFat * super.bytesPerSector) := by
  unfold loadFromImage at h
  split at h
  · cases h
  obtain ⟨fsinfo, -, h⟩ := except_bind_eq_ok.mp h
  split at h
  · cases h
  obtain ⟨raw, hraw, h⟩ := except_bind_eq_ok.mp h
  obtain rfl := Except.ok.inj h
  exact ⟨raw, hraw, rfl, rfl, rfl⟩

/-! ## Section 7: Sample images -/

/-- A file with these parts, and zeros elsewhere. -/
def sparseFile (size : Nat) (parts : List (Nat × Bytes)) : ByteVec where
  bytes := parts.foldl (fun m part => m.write part.1 part.2) fun _ => 0
  size := size

/-- A super block for 512-byte sectors, one per cluster, and one FAT. -/
def smallSuper (reserved sectors fatSectors : Nat) : Bytes :=
  List.replicate 11 0 ++ leBytes 2 512 ++ leBytes 1 1 ++ leBytes 2 reserved ++ leBytes 1 1 ++
    List.replicate 15 0 ++ leBytes 4 sectors ++ leBytes 4 fatSectors ++ List.replicate 4 0 ++
    leBytes 4 2 ++ leBytes 2 1

def fsInfoParts : List (Nat × Bytes) :=
  [(512, leBytes 4 0x41615252), (512 + 484, leBytes 4 0x61417272), (512 + 508, leBytes 4 0xAA550000)]

end Hausboot.FatEdit

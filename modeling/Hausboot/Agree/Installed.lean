import Hausboot.Agree.Tree
import Hausboot.Install.Vbr

/-! # Loader and Tools: An Image that Boots

    `installfat` and `fatedit` work on one image. `installfat` stays in the
    reserved sectors and keeps the geometry, so the files are those of before,
    also where a write of it fails half way. It makes sector 1 the only sector
    that `fatedit` writes back behind the boot sector, so later sessions leave
    stage 2 alone (`enters_edited`). An image that has been installed and then
    edited boots as the installed one does, and has the edited tree
    (`reads_edited`). -/

open ByteLib DirTree Prog

namespace Hausboot

/-! ## Section 1: What a session leaves alone -/

namespace FatEdit

open Session

variable {super : FatSuper} {s s' : Session} {image image' : ByteVec}

/-- A byte that is not among the 512 bytes at `a`. -/
def OutsideSector (a i : ℕ) : Prop := i < a ∨ a + 512 ≤ i

/-- A byte of the reserved area that is in none of the sectors that are written
    back. -/
structure Spared (super : FatSuper) (i : ℕ) : Prop where
  reserved : i < fatStart super
  first : OutsideSector 0 i
  fsInfo : OutsideSector (super.fsInfoIndex * super.bytesPerSector) i
  backup : 0 < super.backupIndex → super.backupIndex < super.reservedSectors →
    OutsideSector (super.backupIndex * super.bytesPerSector) i

/-- A sector that is written, at an offset of type `int`. -/
theorem writeFile_spares {a i : ℕ} {d : Bytes} (ha : a < 2 ^ 32) (hd : d.length = 512)
    (hi : i < 2 ^ 32) (hout : OutsideSector a i)
    (h : writeFile (u64OfInt (i32 a)) d s = .ok () s') : s'.file.bytes i = s.file.bytes i := by
  have hne : d ≠ [] := List.ne_nil_of_length_pos (by omega)
  rw [writeFile_bytes hne h]
  apply Store.write_apply_of_not_mem
  unfold OutsideSector at hout
  rcases u64OfInt_i32 ha with heq | hbad
  · rw [heq, hd]
    exact hout
  · exact .inl (by omega)

theorem writeToImage_spares (hs : s.Started super) (h : writeToImage super s = .ok () s') {i : ℕ}
    (hi : i < fatStart super) (hout : OutsideSector (super.fsInfoIndex * super.bytesPerSector) i) :
    s'.file.bytes i = s.file.bytes i := by
  have hl := hs.layout
  have hstart := dataStart_eq hs.toOk
  have hall := hl.clusters_le
  have hsmall := hl.small
  have hfits := hl.fits
  have hsector := reserved_le hl hs.fsInfoIndex
  unfold writeToImage at h
  obtain ⟨_, s₁, hfats, h⟩ := bind_eq_ok.mp h
  have hpos : 0 < s.fatRaw.size := by
    rw [hs.fatSize]
    exact fat_pos hl
  obtain ⟨m, rfl, hframe, -⟩ :=
    writeFats_ok hpos (show fatStart super + super.numFats * s.fatRaw.size ≤ s.file.size by omega)
      (by omega) hfats
  obtain ⟨next, s₂, hnext, h⟩ := bind_eq_ok.mp h
  obtain ⟨-, rfl⟩ := reading_eq_ok.mp hnext
  obtain ⟨free, s₃, hfree, h⟩ := bind_eq_ok.mp h
  obtain ⟨-, rfl⟩ := reading_eq_ok.mp hfree
  obtain ⟨s₄, s₅, hget, h⟩ := bind_eq_ok.mp h
  obtain ⟨rfl, rfl⟩ := EStateM.Result.ok.inj hget
  obtain ⟨_, s₆, hmod, h⟩ := bind_eq_ok.mp h
  obtain rfl := (EStateM.Result.ok.inj hmod).2
  have hlen := (countedSector_spec hs.fsinfo next free).1
  exact (writeFile_spares (by omega) hlen (by omega) hout h).trans (hframe i (.inl hi))

theorem finish_spares (hs : s.Started super) (h : finish super s = .ok () s') {i : ℕ}
    (hi : Spared super i) : s'.file.bytes i = s.file.bytes i := by
  have hl := hs.layout
  have hfirst := fatStart_lt hl
  have hreserved := hi.reserved
  unfold finish at h
  obtain ⟨_, s₁, himage, h⟩ := bind_eq_ok.mp h
  obtain ⟨_, s₂, hsuper, h⟩ := bind_eq_ok.mp h
  have h₁ := writeToImage_spares hs himage hreserved hi.fsInfo
  have h₂ : s₂.file.bytes i = s₁.file.bytes i :=
    writeFile_spares (a := 0) (by decide) hs.raw (by omega) hi.first hsuper
  split at h
  · next hbackup =>
    simp only [Bool.and_eq_true, decide_eq_true_eq] at hbackup
    have hsector := reserved_le hl hbackup.2
    have h₃ := writeFile_spares (by omega) hs.raw (by omega) (hi.backup hbackup.1 hbackup.2) h
    exact h₃.trans (h₂.trans h₁)
  · obtain ⟨-, rfl⟩ := pure_eq_ok.mp h
    exact h₂.trans h₁

/-- **A session** that comes to its end leaves the rest of the reserved area
    alone. -/
theorem main_spares (hl : Layout (imageSuper image) image.size)
    (hwf : (diskView (imageSuper image) image).WellFormed) {input : List (Bytes × Host)}
    (h : main image input = .ok () image') {i : ℕ} (hi : Spared (imageSuper image) i) :
    image'.bytes i = image.bytes i := by
  obtain ⟨super, s, s₁, s₂, hstart, hlines, hfinish, rfl⟩ := main_ok h
  obtain ⟨rfl, hstarted, rfl, hview⟩ := start_ok hl hstart
  rw [← hview] at hwf
  have hkept := runLines_kept ⟨hstarted.toOk, hwf⟩ hlines
  rw [finish_spares (hstarted.kept hkept) hfinish hi]
  apply hkept.front
  have hle : fatStart (imageSuper s.file) ≤ dataStart (imageSuper s.file) := by
    rw [dataStart_eq hstarted.toOk]
    exact Nat.le_add_right _ _
  exact Nat.lt_of_lt_of_le hi.reserved hle

/-- So does any sequence of sessions, and the boot sector stays the same. -/
theorem sessions_spares {inputs : List (List (Bytes × Host))} {outs : List (Bytes × Bytes)}
    (hl : Layout (imageSuper image) image.size)
    (hwf : (diskView (imageSuper image) image).WellFormed)
    (h : sessions image inputs = some (outs, image')) :
    imageSuper image' = imageSuper image ∧
      ∀ i, Spared (imageSuper image) i → image'.bytes i = image.bytes i := by
  induction inputs generalizing image outs with
  | nil =>
    obtain ⟨-, rfl⟩ := Prod.mk.inj (Option.some.inj h)
    exact ⟨rfl, fun _ _ => rfl⟩
  | cons input inputs ih =>
    obtain ⟨image₁, out, outs₁, hmain, -, hrest, -⟩ := sessions_cons.mp h
    obtain ⟨hsuper, hsize, s, s', -, hsound, -, hlines, hview'⟩ := main_view hl hwf hmain
    have hspared := fun i => main_spares hl hwf hmain (i := i)
    have hwf' := (runLines_sound hsound hlines).wellFormed
    rw [← hview'] at hwf'
    rw [← hsuper, ← hsize] at hl
    obtain ⟨hsuper', hspared'⟩ := ih hl hwf' hrest
    refine ⟨hsuper'.trans hsuper, fun i hi => ?_⟩
    rw [← hspared i hi]
    rw [← hsuper] at hi
    exact hspared' i hi

end FatEdit

/-! ## Section 2: The geometry of a volume -/

namespace FatEdit

/-- The boot sectors agree on where the FATs and the clusters are. -/
structure SameGeometry (super super' : FatSuper) : Prop where
  bytesPerSector : super'.bytesPerSector = super.bytesPerSector
  sectorsPerCluster : super'.sectorsPerCluster = super.sectorsPerCluster
  reservedSectors : super'.reservedSectors = super.reservedSectors
  numFats : super'.numFats = super.numFats
  sectorCount : super'.sectorCount = super.sectorCount
  sectorsPerFat : super'.sectorsPerFat = super.sectorsPerFat
  rootDirIndex : super'.rootDirIndex = super.rootDirIndex

namespace SameGeometry

variable {super super' : FatSuper}

theorem dataClusters (h : SameGeometry super super') :
    dataClusters super' = dataClusters super := by
  simp only [FatEdit.dataClusters, h.sectorCount, h.numFats, h.sectorsPerFat, h.reservedSectors,
    h.sectorsPerCluster]

theorem fatEntries (h : SameGeometry super super') : fatEntries super' = fatEntries super := by
  simp only [FatEdit.fatEntries, h.sectorsPerFat, h.bytesPerSector]

theorem layout (h : SameGeometry super super') {n : ℕ} (hl : Layout super n) :
    Layout super' n where
  sectorsPerCluster_pos := by rw [h.sectorsPerCluster]; exact hl.sectorsPerCluster_pos
  bytesPerSector_ge := by rw [h.bytesPerSector]; exact hl.bytesPerSector_ge
  numFats_pos := by rw [h.numFats]; exact hl.numFats_pos
  area := by rw [h.reservedSectors, h.numFats, h.sectorsPerFat, h.sectorCount]; exact hl.area
  small := by rw [h.sectorCount, h.bytesPerSector]; exact hl.small
  fits := by rw [h.sectorCount, h.bytesPerSector]; exact hl.fits
  entries := by rw [h.dataClusters, h.fatEntries]; exact hl.entries

/-- The volume is the same if nothing changes behind the reserved sectors. -/
theorem diskView_eq (h : SameGeometry super super') {f f' : ByteVec}
    (hbytes : ∀ i, fatStart super ≤ i → f'.bytes i = f.bytes i) :
    diskView super' f' = diskView super f := by
  have hstart : fatStart super' = fatStart super := by
    rw [fatStart, fatStart, h.reservedSectors, h.bytesPerSector]
  have hdata : dataStart super' = dataStart super := by
    simp only [dataStart, h.reservedSectors, h.numFats, h.sectorsPerFat, h.bytesPerSector]
  have hcluster : bytesPerCluster super' = bytesPerCluster super := by
    rw [bytesPerCluster, bytesPerCluster, h.sectorsPerCluster, h.bytesPerSector]
  have hle : fatStart super ≤ dataStart super :=
    Nat.mul_le_mul_right _ (Nat.le_add_right _ _)
  have hentry : (diskView super' f').entry = (diskView super f).entry := by
    funext n
    show (if n < FatEdit.fatEntries super' then f'.bytes.readLE (fatStart super' + 4 * n) 4 else 0) =
      if n < FatEdit.fatEntries super then f.bytes.readLE (fatStart super + 4 * n) 4 else 0
    rw [h.fatEntries, hstart, Store.readLE_congr fun i hi _ => hbytes i (by omega)]
  have hclusters : (diskView super' f').data = (diskView super f).data := by
    funext c
    show clusterData super' f' c = clusterData super f c
    unfold clusterData
    rw [hdata, hcluster, Store.read_congr fun i hi _ => hbytes i (by omega)]
  rw [diskView, diskView, viewWith, viewWith, Vol.mk.injEq]
  exact ⟨h.dataClusters, hcluster, h.rootDirIndex, hentry, hclusters⟩

end SameGeometry

end FatEdit

/-! ## Section 3: What installfat changes -/

namespace Install

open FatEdit (ByteVec Layout FileTree ImageShows sessions SameGeometry diskView fatStart)

variable {h : Host} {super : FatSuper} {fsinfo : Bytes} {s : State}

/-- The image is the one that the run has found, behind the writes. -/
structure State.Logs (h : Host) (s : State) : Prop where
  bytes : s.image.bytes = h.image.bytes.writes s.written
  size : ∀ n, h.image.size ≤ n → (∀ w ∈ s.written, w.2 ≠ [] → w.1 + w.2.length ≤ n) →
    h.image.size ≤ s.image.size ∧ s.image.size ≤ n

theorem State.Logs.after (hs : s.Logs h) (offset : ℕ) (d : Bytes) :
    (s.after h offset d).Logs h where
  bytes := by
    show (store s.image offset _).bytes = h.image.bytes.writes (s.written ++ [_])
    rw [bytes_store, hs.bytes, Store.writes_append]
    rfl
  size n hn hall := by
    obtain ⟨hlow, hhigh⟩ :=
      hs.size n hn fun w hw => hall w (List.mem_append_left _ hw)
    have hlast := hall (offset, d.take (h.transfers s.written.length d.length))
      (List.mem_append_right _ List.mem_cons_self)
    show _ ≤ (store s.image offset _).size ∧ (store s.image offset _).size ≤ n
    unfold store
    split
    · exact ⟨hlow, hhigh⟩
    · next hne =>
      have hroom := hlast hne
      dsimp only at hroom ⊢
      omega

/-- **Runs of installfat**, to whatever end: the image is the old one behind
    the writes of the log. -/
theorem main_logs (h : Host) : (main h).2.Logs h := by
  have hstart : (start h).Logs h := ⟨rfl, fun n hn _ => ⟨Nat.le_refl _, hn⟩⟩
  rw [main_state, install_eq]
  cases prepare h with
  | error e => exact hstart
  | ok r =>
    obtain ⟨super, fsinfo⟩ := r
    have h₁ : (withSuper h super).Logs h := hstart.after _ _
    have h₂ : (withFsInfo h super fsinfo).Logs h := h₁.after _ _
    dsimp only
    by_cases hcut₁ : h.transfers 0 super.raw.length < super.raw.length
    · rw [if_pos hcut₁]
      exact h₁
    rw [if_neg hcut₁]
    by_cases hcut₂ : h.transfers 1 fsinfo.length < fsinfo.length
    · rw [if_pos hcut₂]
      exact h₂
    rw [if_neg hcut₂]
    cases loadStage2 h super with
    | error e => exact h₂
    | ok stage2 =>
      have h₃ : (withStage2 h super fsinfo stage2).Logs h := h₂.after _ _
      dsimp only
      by_cases hcut₃ : h.transfers 2 stage2.length < stage2.length
      · rw [if_pos hcut₃]
        exact h₃
      · rw [if_neg hcut₃]
        exact h₃

/-- A write is a part of the new boot sector, or it starts behind it. -/
theorem mem_written {w : ℕ × Bytes} (hw : w ∈ (main h).2.written) :
    ∃ super fsinfo, ImageRead h super fsinfo ∧
      ((∃ vbr, w.1 = 0 ∧ w.2 <+: (newSuper super vbr).raw) ∨ super.bytesPerSector ≤ w.1) := by
  rcases imageRead_cases h with ⟨super, fsinfo, hr⟩ | ⟨-, e, hprep, -⟩
  swap
  · rw [written_of_error hprep] at hw
    cases hw
  refine ⟨super, fsinfo, hr, ?_⟩
  have hprep := hr.prepare_eq
  rcases readAll_cases .vbr h.vbr 420 with ⟨f, hv, hfits⟩ | ⟨f, hv, hbig⟩ | ⟨-, e, he, -⟩
  · rw [written_of_fits hr hv hfits] at hw
    rcases List.mem_cons.mp hw with rfl | hw
    · exact .inl ⟨f.contents, rfl, List.take_prefix _ _⟩
    apply Or.inr
    split at hw
    · cases hw
    rcases List.mem_cons.mp hw with rfl | hw
    · exact Nat.le_refl _
    split at hw
    · cases hw
    split at hw
    · cases hw
    · obtain rfl := List.mem_singleton.mp hw
      exact Nat.le_mul_of_pos_left _ (by decide)
  · rw [hv, readAll_of_tooBig hbig] at hprep
    rw [written_of_error hprep] at hw
    cases hw
  · rw [he] at hprep
    rw [written_of_error hprep] at hw
    cases hw

theorem ImageRead.super_eq (hr : ImageRead h super fsinfo) : super = imageSuper h.image := by
  have hraw := FatEdit.readAt_ok hr.superBytes
  rw [imageSuper, ← hraw]

/-- Behind the reserved sectors, nothing changes. -/
theorem bytes_behind (hin : WritesInside h) {i : ℕ} (hi : fatStart (imageSuper h.image) ≤ i) :
    (main h).2.image.bytes i = h.image.bytes i := by
  rw [(main_logs h).bytes]
  apply Store.writes_apply
  intro w hw hlow hhigh
  obtain ⟨super, fsinfo, hr, -⟩ := mem_written hw
  obtain rfl := hr.super_eq
  have hne : w.2 ≠ [] := by
    rintro hnil
    rw [hnil, List.length_nil] at hhigh
    omega
  have hroom := hin _ fsinfo hr w hw hne
  rw [fatStart] at hi
  omega

/-- The fields from the sector size to the root directory keep their values. -/
theorem bytes_fields (hl : Layout (imageSuper h.image) h.image.size) {i : ℕ} (h11 : 11 ≤ i) (h48 : i < 48) :
    (main h).2.image.bytes i = h.image.bytes i := by
  rw [(main_logs h).bytes]
  apply Store.writes_apply
  intro w hw hlow hhigh
  obtain ⟨super, fsinfo, hr, ⟨vbr, hzero, hfront⟩ | hbehind⟩ := mem_written hw
  · -- the new boot sector has the same bytes there
    have hfield := slice_newSuper hr.length_super vbr (o := i) (n := 1) h11 (by omega)
    have hlen := length_newSuper hr.length_super vbr
    have hlen' := hr.length_super
    have hraw := FatEdit.readAt_ok hr.superBytes
    obtain ⟨post, hpost⟩ := hfront
    rw [hzero, Nat.zero_add] at hhigh
    rw [hzero, Nat.sub_zero]
    have hnew : w.2.getD i 0 = (newSuper super vbr).raw.getD i 0 := by
      rw [← hpost, List.getD_append _ _ _ _ hhigh]
    have hold : super.raw.getD i 0 = h.image.bytes i := by
      rw [hraw, List.getD_eq_getElem?_getD, Store.getElem?_read, if_pos (by omega), Nat.zero_add]
      rfl
    rw [hnew, ← hold, List.getD_eq_getElem?_getD, List.getD_eq_getElem?_getD]
    have hhead : ∀ d : Bytes, (slice d i 1)[0]? = d[i]? := by
      intro d
      rw [slice, List.getElem?_take_of_lt (by decide), List.getElem?_drop, Nat.add_zero]
    rw [← hhead, hfield, hhead]
  · obtain rfl := hr.super_eq
    have hge := hl.bytesPerSector_ge
    omega

theorem size_main (hl : Layout (imageSuper h.image) h.image.size) (hin : WritesInside h) :
    (main h).2.image.size = h.image.size := by
  have hfits := hl.fits
  have harea := hl.area
  have hmul : (imageSuper h.image).reservedSectors * (imageSuper h.image).bytesPerSector ≤
      (imageSuper h.image).sectorCount * (imageSuper h.image).bytesPerSector :=
    Nat.mul_le_mul_right _ (by omega)
  obtain ⟨hlow, hhigh⟩ := (main_logs h).size h.image.size (Nat.le_refl _) fun w hw hne => by
    obtain ⟨super, fsinfo, hr, -⟩ := mem_written hw
    obtain rfl := hr.super_eq
    exact (hin _ fsinfo hr w hw hne).trans (hmul.trans hfits)
  omega

/-- So the geometry is the same. -/
theorem sameGeometry_main (hl : Layout (imageSuper h.image) h.image.size) :
    SameGeometry (imageSuper h.image) (imageSuper (main h).2.image) := by
  have hfield : ∀ {o n : ℕ}, 11 ≤ o → o + n ≤ 48 →
      (imageSuper (main h).2.image).field o n = (imageSuper h.image).field o n := by
    intro o n ho hn
    rw [FatSuper.field, FatSuper.field, imageSuper, imageSuper, Store.slice_read _ (by omega),
      Store.slice_read _ (by omega)]
    congr 1
    exact Store.read_congr fun i hlow hhigh => bytes_fields hl (by omega) (by omega)
  exact ⟨hfield (by decide) (by decide), hfield (by decide) (by decide),
    hfield (by decide) (by decide), hfield (by decide) (by decide),
    hfield (by decide) (by decide), hfield (by decide) (by decide),
    hfield (by decide) (by decide)⟩

/-- Up to the super block, the run writes nothing. -/
theorem writesInside_of_layout (hl : Layout (imageSuper h.image) h.image.size)
    (hin : StaysInside h) : WritesInside h := by
  rcases imageRead_cases h with ⟨super, fsinfo, hr⟩ | ⟨-, e, hprep, -⟩
  · have hbps : 512 ≤ super.bytesPerSector := by
      rw [hr.super_eq]
      exact hl.bytesPerSector_ge
    rcases readAll_cases .vbr h.vbr 420 with ⟨vbr, hv, hfits⟩ | ⟨vbr, hv, hbig⟩ | ⟨-, e, hread, -⟩
    · exact (writesInside_of_fits hr hv hfits hbps).mpr hin
    · have hprep : prepare h = .error (.tooBig .vbr 420) := by
        rw [hr.prepare_eq, hv, readAll_of_tooBig hbig]
        rfl
      exact writesInside_of_nil (written_of_error hprep)
    · have hprep : prepare h = .error e := by
        rw [hr.prepare_eq, hread]
        rfl
      exact writesInside_of_nil (written_of_error hprep)
  · exact writesInside_of_nil (written_of_error hprep)

/-- installfat keeps the files: however the run ends, also with a write
    that fails half way, the image shows the tree of before, provided that
    there is room for what is written. -/
theorem imageShows_main (hin : StaysInside h) {loc : ℕ → ℕ} {t : FileTree}
    (himage : ImageShows h.image loc t) : ImageShows (main h).2.image loc t := by
  have hin := writesInside_of_layout himage.layout hin
  have hgeo := sameGeometry_main himage.layout
  have hview := hgeo.diskView_eq fun i hi => bytes_behind hin hi
  refine ⟨?_, ?_, ?_⟩
  · rw [size_main himage.layout hin]
    exact hgeo.layout himage.layout
  · rw [hview]
    exact himage.wellFormed
  · rw [hview]
    exact himage.shows

/-- The OEM name and the boot code are apart from the fields behind. -/
theorem slice_indices (hlen : super.raw.length = 512) (vbr : Bytes) {o n : ℕ} (ho : 11 ≤ o)
    (hn : o + n ≤ 90) : slice (newSuper super vbr).raw o n =
      slice ((super.setBackupIndex 0).setFsInfoIndex 1).raw o n := by
  have h2 := length_setFsInfoIndex (length_setBackupIndex hlen 0) 1
  have h3 := length_setOEMName h2 (str "Goliath")
  have hcode := length_splice (length_code h3 vbr)
  rw [newSuper, FatSuper.setBootCode, slice_splice_after (by rw [hcode, h3]; decide) (by simp; omega),
    slice_splice_before (by omega) hn, FatSuper.setOEMName,
    slice_splice_after (by rw [h2, FatDirent.length_fixedLength]; decide)
      (by rw [FatDirent.length_fixedLength]; omega)]

/-- `fatedit` will write sector 1 back, and no backup. -/
theorem indices_newSuper (hlen : super.raw.length = 512) (vbr : Bytes) :
    (newSuper super vbr).fsInfoIndex = 1 ∧ (newSuper super vbr).backupIndex = 0 := by
  have h1 := length_setBackupIndex hlen 0
  constructor
  · rw [FatSuper.fsInfoIndex, FatSuper.field, slice_indices hlen vbr (by decide) (by decide),
      FatSuper.setFsInfoIndex,
      FatDirent.window_splice_same (length_leBytes 2 1) (by rw [h1]; decide)]
    rfl
  · rw [FatSuper.backupIndex, FatSuper.field, slice_indices hlen vbr (by decide) (by decide),
      FatSuper.setFsInfoIndex,
      slice_splice_after (by rw [h1, length_leBytes]; decide) (by rw [length_leBytes]),
      FatSuper.setBackupIndex,
      FatDirent.window_splice_same (length_leBytes 2 0) (by rw [hlen]; decide)]
    rfl

section Installed

variable (hr : ImageRead h super fsinfo) (h512 : super.bytesPerSector = 512)
  (hrun : install h (start h) = .ok () s)
include hr h512 hrun

theorem imageSuper_installed : ∃ vbr, imageSuper s.image = newSuper super vbr := by
  obtain ⟨vbr, f, -, -, h0, h1, h2, rfl⟩ := install_ok hr hrun
  obtain ⟨hfirst, -⟩ := read_installed hr h512 vbr (d := stage2Bytes f.contents) h0 h1
    (by rw [length_stage2Bytes]; exact h2)
  exact ⟨vbr, by rw [imageSuper, hfirst]⟩

/-- The sectors of stage 2 are not written back. -/
theorem spared_installed {i : ℕ} (hi : 2 * 512 ≤ i) (hlt : i < super.reservedSectors * 512) :
    FatEdit.Spared (imageSuper s.image) i := by
  obtain ⟨vbr, hsuper⟩ := imageSuper_installed hr h512 hrun
  obtain ⟨hfsInfo, hbackup⟩ := indices_newSuper hr.length_super vbr
  have hreserved := reservedSectors_newSuper hr.length_super vbr
  have hbps := bytesPerSector_newSuper hr.length_super vbr
  rw [hsuper]
  refine ⟨?_, .inr (by omega), .inr ?_, fun hpos => ?_⟩
  · rwa [fatStart, hreserved, hbps, h512]
  · rw [hfsInfo, hbps, h512]
    omega
  · rw [hbackup] at hpos
    exact absurd hpos (Nat.lt_irrefl 0)

end Installed

end Install

/-- The boot sector sees no difference between two images if it is the same
    itself, and the sectors are that it loads. -/
theorem Vbr.enters_congr {loadSectors loadSectors' : CHSPacked → ℕ → Option Bytes} {disk : UInt8}
    {ent : MBREntry} {super : FatSuper} {image image' : Store}
    (hserves : Serves loadSectors ent image) (hserves' : Serves loadSectors' ent image')
    (hsuper : image.read 0 512 = super.raw) (hsuper' : image'.read 0 512 = super.raw)
    (hsectors : ∀ n ≤ super.reservedSectors - 2,
      image'.read (2 * 512) (n * 512) = image.read (2 * 512) (n * 512)) :
    Enters loadSectors' disk ent image' ↔ Enters loadSectors disk ent image := by
  have hle : sectorLimit super ≤ super.reservedSectors - 2 := by
    rw [sectorLimit_eq]
    exact Nat.min_le_left _ _
  rw [enters_iff hserves' hsuper', enters_iff hserves hsuper, hsectors _ hle]

theorem raw_imageSuper (image : FatEdit.ByteVec) :
    (imageSuper image).raw = image.bytes.read 0 512 := by
  rw [imageSuper]

/-- Sector `n` behind the first two reserved sectors. -/
theorem lt_reserved {i n r : ℕ} (hn : n ≤ r - 2) (hlow : 2 * 512 ≤ i)
    (hhigh : i < 2 * 512 + n * 512) : i < r * 512 := by
  have hsum : 2 + n ≤ r := by omega
  rw [← Nat.add_mul] at hhigh
  exact Nat.lt_of_lt_of_le hhigh (Nat.mul_le_mul_right 512 hsum)

namespace Install

open FatEdit (ByteVec FileTree Ideal ImageShows diskView mkdirSession sessions)

variable {h : Host} {super : FatSuper} {fsinfo : Bytes} {s : State} {image' : ByteVec}
  {loc : ℕ → ℕ} {t : FileTree}

section Edited

variable (himage : ImageShows h.image loc t) (hin : StaysInside h)
  (hrun : install h (start h) = .ok () s)
include himage hin hrun

/-- The image behind the run shows the tree of before. -/
theorem shows_installed : ImageShows s.image loc t := by
  have hmain : (main h).2 = s := by rw [main_state, hrun]
  have himage' := imageShows_main hin himage
  rwa [hmain] at himage'

variable (hr : ImageRead h super fsinfo) (h512 : super.bytesPerSector = 512)
  {inputs : List (List (Bytes × FatEdit.Host))} {outs : List (Bytes × Bytes)}
  (hsessions : sessions s.image inputs = some (outs, image'))
include hsessions

/-- The sessions keep the boot sector. -/
theorem imageSuper_edited : imageSuper image' = imageSuper s.image := by
  have himage' := shows_installed himage hin hrun
  exact (FatEdit.sessions_spares himage'.layout himage'.wellFormed hsessions).1

include hr h512

/-- The boot sector enters stage 2 exactly if it was bootable when it was
    installed. -/
theorem enters_edited {f : HostFile} (hf : h.stage2 = some f) {disk : UInt8} {ent : MBREntry} :
    Vbr.Enters (readsFrom image'.bytes) disk ent image'.bytes ↔
      Bootable super f.contents.length h.image.bytes := by
  have himage' := shows_installed himage hin hrun
  obtain ⟨hsuper, hspared⟩ :=
    FatEdit.sessions_spares himage'.layout himage'.wellFormed hsessions
  have hboots : Vbr.Enters (readsFrom s.image.bytes) disk ent s.image.bytes ↔
      Bootable super f.contents.length h.image.bytes := by
    obtain ⟨new, hsuper', hreserved, hlimit⟩ := super_installed hr h512 hrun
    rw [Vbr.enters_iff (fun _ => rfl) hsuper', hreserved, hlimit, Bootable]
    exact and_congr_right fun h3 => verify_installed_iff hr h512 hrun hf h3
  rw [← hboots]
  have hraw : image'.bytes.read 0 512 = (imageSuper s.image).raw := by
    rw [← hsuper, raw_imageSuper]
  apply Vbr.enters_congr (fun _ => rfl) (fun _ => rfl) (raw_imageSuper s.image).symm hraw
  intro n hn
  obtain ⟨vbr, hnew⟩ := imageSuper_installed hr h512 hrun
  rw [hnew, reservedSectors_newSuper hr.length_super vbr] at hn
  apply Store.read_congr
  intro i hlow hhigh
  exact hspared i (spared_installed hr h512 hrun hlow (lt_reserved hn hlow hhigh))

/-- Stage 2 finds what the ideal tool has made of the files. -/
theorem reads_edited (hp : (diskView (imageSuper h.image) h.image).Plain) :
    ∃ t' loc', Ideal.sessions t inputs = some (outs, t') ∧ ImageShows image' loc' t' ∧
      ReadsTree image' loc' t' := by
  have himage' := shows_installed himage hin hrun
  have hmain : (main h).2 = s := by rw [main_state, hrun]
  have hgeo := sameGeometry_main himage.layout
  have hview := hgeo.diskView_eq fun i hi =>
    bytes_behind (writesInside_of_layout himage.layout hin) hi
  rw [← hview, hmain] at hp
  have h512' : (imageSuper image').bytesPerSector = 512 := by
    obtain ⟨vbr, hnew⟩ := imageSuper_installed hr h512 hrun
    rw [imageSuper_edited himage hin hrun hsessions, hnew,
      bytesPerSector_newSuper hr.length_super vbr, h512]
  obtain ⟨t', loc', hideal, hend⟩ := FatEdit.sessions_shows himage' hsessions
  obtain ⟨-, hplain⟩ := sessions_plain himage'.layout himage'.wellFormed hp hsessions
  exact ⟨t', loc', hideal, hend, readsTree_of_shows h512' hplain hend⟩

end Edited

/-- Eight reserved sectors, a backup of the boot sector in sector 6, and six
    clusters. -/
def bootImage : ByteVec :=
  FatEdit.sparseFile (15 * 512) ([(0, FatEdit.smallSuper 8 15 1 ++ leBytes 2 6),
    (510, leBytes 2 0xAA55)] ++ FatEdit.fsInfoParts ++
    [(8 * 512, leBytes 4 0x0FFFFFF8 ++ leBytes 4 0x0FFFFFFF ++ leBytes 4 0x0FFFFFFF)])

def bootHost : Host := sampleHost bootImage (some ⟨List.replicate 100 0xAA, false⟩)

theorem image_bootHost : bootHost.image = bootImage := rfl

set_option maxRecDepth 3000

theorem bootImage_layout : FatEdit.Layout (imageSuper bootImage) bootImage.size where
  sectorsPerCluster_pos := by decide
  bytesPerSector_ge := by decide
  numFats_pos := by decide
  area := by decide
  small := by decide
  fits := by decide
  entries := by decide

theorem bootImage_fresh : (diskView (imageSuper bootImage) bootImage).Fresh where
  clusterSize_pos := bootImage_layout.bytesPerCluster_pos
  count_lt := bootImage_layout.dataClusters_lt
  length_data c hc := FatEdit.length_clusterData hc bootImage
  reserved0 := by decide
  reserved1 := by decide
  root_valid := by
    constructor
    · decide
    · decide
  root_last := by decide
  root_empty := by decide +kernel
  free := by
    intro c hc hroot
    have hcount : (diskView (imageSuper bootImage) bootImage).count = 6 := by decide
    have hroot2 : (diskView (imageSuper bootImage) bootImage).root = 2 := by decide
    have hall : ∀ c < 8, 2 < c → (diskView (imageSuper bootImage) bootImage).next c = 0 := by
      decide
    obtain ⟨hlo, hhi⟩ := hc
    exact hall c (by omega) (by omega)

theorem bootImage_shows :
    ImageShows bootImage (fun _ => (diskView (imageSuper bootImage) bootImage).root)
      FatEdit.emptyTree :=
  ⟨bootImage_layout, bootImage_fresh.wellFormed, FatEdit.shows_fresh bootImage_fresh⟩

theorem staysInside_boot : StaysInside bootHost := by
  intro super fsinfo vbr hr _ _
  obtain rfl : super = imageSuper bootImage := hr.super_eq
  have hreserved : (imageSuper bootImage).reservedSectors = 8 := by decide
  have hbps : (imageSuper bootImage).bytesPerSector = 512 := by decide
  rw [hreserved, hbps]
  exact ⟨fun _ => by decide, fun _ _ => by decide, fun _ _ _ _ _ => .inl (by decide)⟩

end Install

end Hausboot

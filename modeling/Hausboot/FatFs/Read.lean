import Hausboot.FatFs.Model
import Hausboot.Lib.Chain

/-! # The stage2 FAT Driver: Reading

    What `ReadAt` delivers. The windows are caches of the volume, each with a
    tag that says what it holds; `Coherent` states that the tags are right.
    While no `LoadSector` call fails, every method keeps them right, and
    `ReadAt` returns a window of the file's bytes. -/

open ByteLib ChainLib

namespace Hausboot

/-! ## Section 1: The volume -/

namespace Volume

variable (v : Volume)

/-- The first `n` sectors of the cluster at sector `lba`. -/
def sectors (lba n : Nat) : Bytes := (List.range n).flatMap fun i => v.sector (u32 (lba + i))

/-- The bytes of a data cluster. -/
def cluster (c : Nat) : Bytes :=
  v.sectors (v.super.clusterIndex2Sector c) v.super.sectorsPerCluster

def fatSector (s : Nat) : Bytes := v.sector (u32 (v.super.reservedSectors + s))

/-- The FAT entry of a cluster, as `ReadFatIndex` finds it. -/
def fatEntry (c : Nat) : Nat :=
  leNat (slice (v.fatSector (u32 (c * 4) / v.sectorSize)) (u32 (c * 4) % v.sectorSize) 4)

/-- A cluster number that `FatFs` can follow. -/
def Usable (c : Nat) : Prop := 2 ≤ c ∧ u32 (c * 4) / v.sectorSize < v.super.sectorsPerFat

/-- The cluster chain that `FatFs` sees from `c` on. -/
abbrev FsChain : Nat → List Nat → Prop := Chain v.fatEntry (FatFs.endOfChain ≤ ·) v.Usable

/-- The bytes of a cluster chain. -/
def content (l : List Nat) : Bytes := l.flatMap v.cluster

/-- The bytes of a file: its chain up to the recorded size. A size of 0 does
    not limit the driver. -/
def fileBytes (finfo : FatFile) (l : List Nat) : Bytes :=
  if finfo.size > 0 then (v.content l).take finfo.size else v.content l

theorem sectors_succ (lba n : Nat) :
    v.sectors lba (n + 1) = v.sectors lba n ++ v.sector (u32 (lba + n)) := by
  simp [sectors, List.range_succ]

theorem length_sectors (lba n : Nat) : (v.sectors lba n).length = n * v.sectorSize := by
  induction n with
  | zero => simp [sectors]
  | succ n ih => rw [sectors_succ, List.length_append, ih, v.length_sector, Nat.succ_mul]

theorem length_cluster (c : Nat) : (v.cluster c).length = v.bytesPerCluster :=
  v.length_sectors _ _

theorem content_cons (c : Nat) (l : List Nat) :
    v.content (c :: l) = v.cluster c ++ v.content l := by simp [content]

theorem length_content (l : List Nat) : (v.content l).length = l.length * v.bytesPerCluster := by
  induction l with
  | nil => simp [content]
  | cons c l ih =>
    rw [content_cons, List.length_append, ih, length_cluster, List.length_cons, Nat.succ_mul,
      Nat.add_comm]

end Volume

/-! ## Section 2: Loading a window -/

/-- Some `LoadSector` call fails. -/
def World.Faulty (w : World) : Prop := ∃ loads lba, w.fault loads lba ≠ none

/-- The windows hold what their tags say. -/
structure Coherent (v : Volume) (fs : FatFs) : Prop where
  data : fs.currentDataCluster ≠ 0xFFFFFFFF → v.cluster fs.currentDataCluster <+: fs.dataWindow
  fat : fs.currentFatSector ≠ 0xFFFFFFFF → v.fatSector fs.currentFatSector = fs.fatWindow

theorem Coherent.new (v : Volume) (fatWindow dataWindow : Bytes) :
    Coherent v (FatFs.new fatWindow dataWindow) :=
  ⟨fun h => absurd rfl h, fun h => absurd rfl h⟩

namespace FatFs

variable {w : World} {v : Volume} {fs : FatFs}

theorem loadSector_cases (w : World) (v : Volume) (loads : List Nat) (lba : Nat) :
    w.loadSector v loads lba = (true, v.sector lba) ∨
    (w.Faulty ∧ (w.loadSector v loads lba).1 = false) := by
  rcases h : w.fault loads lba with _ | junk
  · exact .inl (by simp [World.loadSector, h])
  · exact .inr ⟨⟨loads, lba, by simp [h]⟩, by simp [World.loadSector, h]⟩

theorem splice_front {a bs d : Bytes} (h : a <+: bs) : a ++ d <+: splice bs a.length d := by
  obtain ⟨t, rfl⟩ := h
  rw [splice, List.take_left]
  exact List.prefix_append _ _

/-- Loading sector after sector fills the window from the front and changes
    no tag. -/
theorem loadSectors_spec (fs : FatFs) (lba n i : Nat) (hpre : v.sectors lba i <+: fs.dataWindow) :
    (∃ data loads, loadSectors w v lba i n fs =
        (true, { fs with dataWindow := data, loads := loads }) ∧ v.sectors lba (i + n) <+: data) ∨
    (w.Faulty ∧ (loadSectors w v lba i n fs).1 = false) := by
  induction n generalizing i fs with
  | zero => exact .inl ⟨fs.dataWindow, fs.loads, rfl, hpre⟩
  | succ n ih =>
    rcases loadSector_cases w v fs.loads (u32 (lba + i)) with hload | ⟨hbad, hload⟩
    · have hnext : v.sectors lba (i + 1) <+:
          splice fs.dataWindow (i * v.sectorSize) (v.sector (u32 (lba + i))) := by
        rw [v.sectors_succ, ← v.length_sectors lba i]
        exact splice_front hpre
      rw [show i + (n + 1) = i + 1 + n by omega]
      simp only [loadSectors, hload, if_true]
      exact ih { fs with
        dataWindow := splice fs.dataWindow (i * v.sectorSize) (v.sector (u32 (lba + i)))
        loads := u32 (lba + i) :: fs.loads } (i + 1) hnext
    · exact .inr ⟨hbad, by simp only [loadSectors, hload]; rfl⟩

/-- A successful `LoadDataCluster` puts the cluster into the window. -/
theorem loadDataCluster_spec (hco : Coherent v fs) {c : Nat} (h2 : 2 ≤ c)
    (hc : c < endOfChain) :
    (∃ fs', loadDataCluster w v fs c = (true, fs') ∧ Coherent v fs' ∧
        v.cluster c <+: fs'.dataWindow) ∨
    (w.Faulty ∧ (loadDataCluster w v fs c).1 = false) := by
  have hne : c ≠ 0xFFFFFFFF := by
    unfold endOfChain at hc
    omega
  unfold loadDataCluster
  rw [if_neg (by omega)]
  by_cases hcur : c = fs.currentDataCluster
  · rw [if_pos hcur]
    exact .inl ⟨fs, rfl, hco, hcur ▸ hco.data (hcur ▸ hne)⟩
  · rw [if_neg hcur]
    rcases loadSectors_spec (w := w) fs (v.super.clusterIndex2Sector c)
      v.super.sectorsPerCluster 0 (by simp [Volume.sectors]) with ⟨data, loads, hload, hpre⟩ | hbad
    · rw [Nat.zero_add] at hpre
      rw [hload]
      exact .inl ⟨_, rfl, ⟨fun _ => hpre, hco.fat⟩, hpre⟩
    · obtain ⟨hfault, hload⟩ := hbad
      refine .inr ⟨hfault, ?_⟩
      split
      · next heq => simp [heq] at hload
      · rfl

/-- A successful `ReadFatIndex` delivers the entry. -/
theorem readFatIndex_spec (hco : Coherent v fs) {c : Nat} (hc : v.Usable c) :
    (∃ fs', readFatIndex w v fs c = (some (v.fatEntry c), fs') ∧ Coherent v fs' ∧
        fs'.dataWindow = fs.dataWindow) ∨
    (w.Faulty ∧ (readFatIndex w v fs c).1 = none) := by
  have hlt := hc.2
  have hsize := v.super.sectorsPerFat_lt
  simp only [readFatIndex, Volume.fatEntry]
  generalize u32 (c * 4) / v.sectorSize = s at hlt
  generalize u32 (c * 4) % v.sectorSize = o
  -- a sector that is in the window is not read again
  by_cases hcur : s = fs.currentFatSector
  · have hload : loadFatSector w v fs s = (true, fs) := by
      unfold loadFatSector
      rw [if_neg (by omega), if_pos hcur]
    have hwin : fs.fatWindow = v.fatSector s := hcur ▸ (hco.fat (by omega)).symm
    simp only [hload, hwin]
    exact .inl ⟨fs, rfl, hco, rfl⟩
  · rcases loadSector_cases w v fs.loads
      (u32 (v.super.reservedSectors + s)) with hok | ⟨hfault, hbad⟩
    · have hload : loadFatSector w v fs s = (true, { fs with
          fatWindow := v.fatSector s
          loads := u32 (v.super.reservedSectors + s) :: fs.loads
          currentFatSector := s }) := by
        unfold loadFatSector
        rw [if_neg (by omega), if_neg hcur]
        simp only [hok, if_true]
        rfl
      simp only [hload]
      exact .inl ⟨_, rfl, ⟨hco.data, fun _ => rfl⟩, rfl⟩
    · have hload : (loadFatSector w v fs s).1 = false := by
        unfold loadFatSector
        rw [if_neg (by omega), if_neg hcur]
        simp only [hbad]
        rfl
      refine .inr ⟨hfault, ?_⟩
      split
      · next heq => simp [heq] at hload
      · rfl

/-! ## Section 3: ReadAt -/

/-- One round of the loop of `ReadAt`: the output grows by the part of the
    window that lies in this cluster. -/
theorem readCluster_spec (hco : Coherent v fs) {c : Nat} (hc : v.Usable c) (hstop : c < endOfChain)
    (offset size : Nat) (out : Bytes) (rest : Bytes) :
    (∃ offset' size' d fs', readCluster w v fs c offset size out =
        (true, offset', size', out ++ d, fs') ∧ Coherent v fs' ∧
        slice (v.cluster c ++ rest) offset size = d ++ slice rest offset' size') ∨
    (w.Faulty ∧ (readCluster w v fs c offset size out).1 = false) := by
  unfold readCluster
  by_cases hoff : offset < v.bytesPerCluster
  · rw [if_pos hoff]
    rcases loadDataCluster_spec (w := w) hco hc.1 hstop with ⟨fs', hload, hco', hpre⟩ | hbad
    · have hlen := v.length_cluster c
      rw [hload]
      refine .inl ⟨0, _, _, fs', rfl, hco', ?_⟩
      rw [slice_append (by omega), slice_of_front hpre (by omega), hlen]
      congr 1
      · -- beyond the end of the cluster, a longer window adds nothing
        simp only [slice]
        rw [List.take_eq_take_iff, List.length_drop, hlen]
        omega
      · congr 1
        omega
    · obtain ⟨hfault, hload⟩ := hbad
      refine .inr ⟨hfault, ?_⟩
      split
      · rfl
      · next heq => simp [heq] at hload
  · rw [if_neg hoff]
    refine .inl ⟨_, _, [], fs, by rw [List.append_nil], hco, ?_⟩
    rw [slice_append_of_le (by rw [v.length_cluster]; omega), v.length_cluster, List.nil_append]

/-- The loop of `ReadAt` on a chain: either the fuel does not reach to the end
    of the chain, or the loop delivers a window of the chain's bytes, or a
    device read fails. -/
theorem readLoop_spec {c : Nat} {l : List Nat} (hch : v.FsChain c l) (hco : Coherent v fs)
    (fuel offset size : Nat) (out : Bytes) :
    (readLoop w v fuel fs c offset size out = none ∧ fuel ≤ l.length) ∨
    (∃ data fs', data = out ++ slice (v.content l) offset size ∧
        readLoop w v fuel fs c offset size out = some (i32 data.length, data, fs') ∧
        Coherent v fs') ∨
    (w.Faulty ∧ ∃ data fs', readLoop w v fuel fs c offset size out = some (-1, data, fs')) := by
  induction fuel generalizing fs c l offset size out with
  | zero => exact .inl ⟨rfl, Nat.zero_le _⟩
  | succ fuel ih =>
    unfold readLoop
    by_cases hsize : size = 0
    · refine .inr (.inl ⟨out, fs, ?_, by simp [hsize], hco⟩)
      rw [hsize, slice_zero, List.append_nil]
    cases hch with
    | done hstop =>
      refine .inr (.inl ⟨out, fs, ?_, by simp [hstop], hco⟩)
      simp [Volume.content, slice]
    | @link c l hstop hc hch =>
      rw [if_neg (by simp [hsize]; omega), v.content_cons]
      rcases readCluster_spec (w := w) hco hc (Nat.lt_of_not_le hstop) offset size out
        (v.content l) with ⟨offset', size', d, fs', hread, hco', hslice⟩ | ⟨hfault, hbad⟩
      · rw [hread, hslice, ← List.append_assoc]
        by_cases hleft : size' > 0
        · simp only [if_pos hleft]
          rcases readFatIndex_spec (w := w) hco' hc with ⟨fs'', hfat, hco'', -⟩ | ⟨hfault, hfat⟩
          · simp only [hfat]
            rcases ih hch hco'' offset' size' (out ++ d) with ⟨hnone, hfuel⟩ | hres
            · exact .inl ⟨hnone, by simpa using hfuel⟩
            · exact .inr hres
          · refine .inr (.inr ⟨hfault, ?_⟩)
            split
            · exact ⟨_, _, rfl⟩
            · next heq => simp [heq] at hfat
        · -- everything asked for has been read, the next round returns
          obtain rfl : size' = 0 := by omega
          simp only [Nat.lt_irrefl, if_false, slice_zero, List.append_nil]
          cases fuel with
          | zero => exact .inl ⟨rfl, by simp⟩
          | succ fuel => exact .inr (.inl ⟨_, fs', rfl, by simp [readLoop], hco'⟩)
      · refine .inr (.inr ⟨hfault, ?_⟩)
        split
        · exact ⟨_, _, rfl⟩
        · next heq => simp [heq] at hbad

/-- **ReadAt**: on a file with a terminated chain, `ReadAt` ends within the
    length of the chain and, unless a device read fails, delivers the window of
    the file's bytes that it was asked for. -/
theorem readAt_spec {finfo : FatFile} {l : List Nat} (hch : v.FsChain finfo.cluster l)
    (hco : Coherent v fs) (fuel offset size : Nat) :
    (readAt w v fuel fs finfo offset size = none ∧ fuel ≤ l.length) ∨
    (∃ data fs', data = slice (v.fileBytes finfo l) offset size ∧
        readAt w v fuel fs finfo offset size = some (i32 data.length, data, fs') ∧
        Coherent v fs') ∨
    (w.Faulty ∧ ∃ data fs', readAt w v fuel fs finfo offset size = some (-1, data, fs')) := by
  unfold readAt Volume.fileBytes
  by_cases hpos : finfo.size > 0
  · simp only [if_pos hpos]
    by_cases hend : offset ≥ finfo.size
    · rw [if_pos hend]
      refine .inr (.inl ⟨[], fs, ?_, by rw [i32_of_lt (by simp)]; rfl, hco⟩)
      rw [slice_eq_nil (by simp only [List.length_take]; omega)]
    · rw [if_neg hend, slice_take]
      exact readLoop_spec hch hco fuel offset _ []
  · simp only [if_neg hpos]
    exact readLoop_spec hch hco fuel offset size []

end FatFs

/-! ## Section 4: A file that can be read -/

/-- What reads of the file `f` come to: no result within the fuel, the window
    that was asked for, or an error. `I` holds of the driver between reads. -/
def Reading (w : World) (v : Volume) (fuel : Nat) (finfo : FatFile) (I : FatFs → Prop) (f : Bytes)
    (Dry Bad : Prop) : Prop :=
  ∀ fs, I fs → ∀ p n, n < 2 ^ 31 →
    (FatFs.readAt w v fuel fs finfo p n = none ∧ Dry) ∨
    (∃ fs', FatFs.readAt w v fuel fs finfo p n =
      some (((slice f p n).length : Int), slice f p n, fs') ∧ I fs') ∨
    (Bad ∧ ∃ data fs', FatFs.readAt w v fuel fs finfo p n = some (-1, data, fs'))

/-- Reads of the file `f` deliver the window that was asked for. -/
def ReadsFile (w : World) (v : Volume) (fuel : Nat) (finfo : FatFile) (I : FatFs → Prop)
    (f : Bytes) : Prop := Reading w v fuel finfo I f False False

section Files

variable {w : World} {v : Volume} {finfo : FatFile} {l : List Nat} {fuel : Nat} {I : FatFs → Prop}
  {f : Bytes}

theorem ReadsFile.window (h : ReadsFile w v fuel finfo I f) {fs : FatFs} (hI : I fs) (p n : Nat)
    (hn : n < 2 ^ 31) :
    ∃ fs', FatFs.readAt w v fuel fs finfo p n =
        some (((slice f p n).length : Int), slice f p n, fs') ∧ I fs' := by
  rcases h fs hI p n hn with ⟨-, hno⟩ | hwindow | ⟨hno, -⟩
  · exact hno.elim
  · exact hwindow
  · exact hno.elim

theorem reading_of_chain (hch : v.FsChain finfo.cluster l) (fuel : Nat) :
    Reading w v fuel finfo (Coherent v) (v.fileBytes finfo l) (fuel ≤ l.length) w.Faulty := by
  intro fs hco p n hn
  rcases FatFs.readAt_spec (w := w) hch hco fuel p n with hdry | ⟨_, fs', rfl, hread, hco'⟩ | hbad
  · exact .inl hdry
  · have hlen := length_slice (v.fileBytes finfo l) p n
    rw [i32_of_lt (by omega)] at hread
    exact .inr (.inl ⟨fs', hread, hco'⟩)
  · exact .inr (.inr hbad)

/-- On a device that never fails, the driver reads the file. -/
theorem readsFile_of_chain (hch : v.FsChain finfo.cluster l) (hw : ¬ w.Faulty)
    (hfuel : l.length < fuel) : ReadsFile w v fuel finfo (Coherent v) (v.fileBytes finfo l) := by
  intro fs hco p n hn
  rcases reading_of_chain hch fuel fs hco p n hn with ⟨-, hdry⟩ | hwindow | ⟨hfault, -⟩
  · omega
  · exact .inr (.inl hwindow)
  · exact absurd hfault hw

end Files

/-! ## Section 5: Sample volumes

    One sector per cluster, one reserved sector, one FAT of one sector: data
    cluster `n` is sector `n`. -/

/-- The super block of the sample volumes. -/
def sampleSuper : FatSuper where
  raw := List.replicate 11 0 ++ leBytes 2 512 ++ leBytes 1 1 ++ leBytes 2 1 ++ leBytes 1 1 ++
    List.replicate 15 0 ++ leBytes 4 64 ++ leBytes 4 1 ++ List.replicate 4 0 ++ leBytes 4 2 ++
    List.replicate 464 0

/-- A sector that starts with the given bytes. -/
def toSector (bs : Bytes) : Bytes := (bs ++ List.replicate 512 0).take 512

def sampleVolume (fat : List Nat) (data : Nat → Bytes) : Volume where
  super := sampleSuper
  sectorSize := 512
  sector lba := toSector (if lba = 1 then fat.flatMap (leBytes 4) else data lba)
  sectorSize_lt := sectorBytes_lt
  length_sector lba := by
    unfold toSector
    rw [List.length_take, List.length_append, List.length_replicate]
    omega

/-- The record of a file. -/
def sampleRecord (name ext : Bytes) (cluster size : Nat) : FatDirent :=
  (((FatDirent.default.setName name).setExtension ext).setClusterIndex cluster).setSize size

/-- A device that never fails. -/
def reliable : World where
  fault _ _ := none
  uninit _ _ := List.replicate 32 0

theorem not_faulty_reliable : ¬ reliable.Faulty := fun ⟨_, _, h⟩ => h rfl

end Hausboot

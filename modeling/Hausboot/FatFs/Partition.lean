import Hausboot.Fat.Geometry
import Hausboot.FatFs.Coherence

/-! # The stage2 FAT Driver: Staying in the Partition

    `LoadDataCluster` refuses the cluster numbers 0 and 1, but has no upper
    bound. FAT sectors are checked against `SectorsPerFat`. So a call stays
    inside the partition exactly if the cluster numbers that it is given, by
    its arguments, directory records and FAT entries, stay inside the data
    area. -/

open ByteLib QueryLib

namespace Hausboot

namespace FatFs

variable {w : World} {v : Volume} {fs : FatFs}

/-! ## Section 1: One request -/

/-- The sectors that a request loads satisfy `P`. -/
def LoadsOnly (w : World) (v : Volume) (fs : FatFs) (i : Request) (P : Nat → Prop) : Prop :=
  ∃ new, (serve w v fs i).2.loads = new ++ fs.loads ∧ ∀ lba ∈ new, P lba

/-- A request stays inside the partition: cluster data comes from the data
    area, a cluster number without a data cluster is an error and nothing is
    read, and FAT sectors lie below `SectorCount`. -/
def Inside (w : World) (v : Volume) (fs : FatFs) : Request → Prop
  | .cluster c =>
    LoadsOnly w v fs (.cluster c)
        (fun lba => v.super.firstSector ≤ lba ∧ lba < v.super.sectorCount) ∧
      (c < 2 ∨ v.super.clusterCount + 2 ≤ c →
        (serve w v fs (.cluster c)).2.loads = fs.loads ∧ (serve w v fs (.cluster c)).1 = none)
  | .entry c => LoadsOnly w v fs (.entry c) (· < v.super.sectorCount)
  | .nameBuffer => True

/-- The request is not for the data of a cluster behind the data area. -/
def InRange (v : Volume) : Request → Prop
  | .cluster c => c < v.super.clusterCount + 2
  | .entry _ => True
  | .nameBuffer => True

instance (v : Volume) : (i : Request) → Decidable (InRange v i)
  | .cluster c => inferInstanceAs (Decidable (c < v.super.clusterCount + 2))
  | .entry _ => .isTrue trivial
  | .nameBuffer => .isTrue trivial

theorem mem_requested {lba j x : Nat} (hx : x ∈ (requested lba j [])) :
    ∃ i < j, x = u32 (lba + i) := by
  simp only [requested, List.append_nil, List.mem_reverse, List.mem_map, List.mem_range] at hx
  obtain ⟨i, hi, rfl⟩ := hx
  exact ⟨i, hi, rfl⟩

theorem requested_eq (lba j : Nat) (loads : List Nat) :
    requested lba j loads = requested lba j [] ++ loads := by simp [requested]

/-- The sectors that `LoadDataCluster` requests are the first ones of the
    cluster. -/
theorem loadDataCluster_loads (w : World) (v : Volume) (fs : FatFs) (c : Nat) :
    (c < 2 ∧ loadDataCluster w v fs c = (false, fs)) ∨
    (2 ≤ c ∧ c = fs.currentDataCluster ∧ loadDataCluster w v fs c = (true, fs)) ∨
    (2 ≤ c ∧ ∃ j ≤ v.super.sectorsPerCluster, (0 < v.super.sectorsPerCluster → 0 < j) ∧
      (loadDataCluster w v fs c).2.loads =
        requested (v.super.clusterIndex2Sector c) j [] ++ fs.loads) := by
  unfold loadDataCluster
  by_cases h2 : c < 2
  · rw [if_pos h2]
    exact .inl ⟨h2, rfl⟩
  rw [if_neg h2]
  by_cases hcur : c = fs.currentDataCluster
  · rw [if_pos hcur]
    exact .inr (.inl ⟨by omega, hcur, rfl⟩)
  rw [if_neg hcur]
  refine .inr (.inr ⟨by omega, ?_⟩)
  -- before the first sector, the window is as it was
  have hwin : fs.dataWindow = v.sectors (v.super.clusterIndex2Sector c) 0 ++
      fs.dataWindow.drop (0 * v.sectorSize) := by simp [Volume.sectors]
  have hloads : fs.loads = requested (v.super.clusterIndex2Sector c) 0 fs.loads := by simp [requested]
  rcases loadSectors_cases (w := w) fs.dataWindow v.super.sectorsPerCluster
    hwin hloads (by omega) with ⟨-, hload⟩ | ⟨j, junk, hfail, hload⟩
  · rw [hload, Nat.zero_add]
    exact ⟨_, Nat.le_refl _, id, requested_eq _ _ _⟩
  · have hlt := hfail.lt
    rw [hload]
    exact ⟨j + 1, by omega, fun _ => Nat.succ_pos j, requested_eq _ _ _⟩

/-- **One request** stays inside the partition exactly if its cluster number
    is in range. -/
theorem inside_iff (hsuper : v.super.Describes) (fs : FatFs) (i : Request) :
    Inside w v fs i ↔ InRange v i := by
  cases i with
  | cluster c =>
    obtain ⟨hst, hres⟩ := serveCluster_snd w v fs c
    have hserve : serve w v fs (.cluster c) = serveCluster w v fs c := rfl
    simp only [Inside, LoadsOnly, InRange, hserve, hst]
    constructor
    · rintro ⟨-, hbad⟩
      by_contra hout
      obtain ⟨hloads, hnone⟩ := hbad (.inr (by omega))
      rcases loadDataCluster_loads w v fs c with ⟨h2, -⟩ | ⟨-, -, hhit⟩ | ⟨-, j, -, hj, heq⟩
      · omega
      · rw [hres, hhit] at hnone
        cases hnone
      · -- a load of a cluster requests at least one sector
        have hlen := congrArg List.length (heq.symm.trans hloads)
        have hpos := hj hsuper.sectorsPerCluster_pos
        simp only [requested, List.length_append, List.length_reverse, List.length_map,
          List.length_range, List.length_nil] at hlen
        omega
    · intro hc
      rcases loadDataCluster_loads w v fs c with ⟨h2, hlow⟩ | ⟨h2, -, hhit⟩ | ⟨h2, j, hj, -, heq⟩
      · rw [hres, hlow]
        exact ⟨⟨[], rfl, by simp⟩, fun _ => ⟨rfl, rfl⟩⟩
      · rw [hhit]
        exact ⟨⟨[], rfl, by simp⟩, fun h => by omega⟩
      · refine ⟨⟨_, heq, ?_⟩, fun h => by omega⟩
        intro lba hlba
        obtain ⟨i, hi, rfl⟩ := mem_requested hlba
        have hlt := hsuper.holds.sector_lt hc h2 (show i < _ by omega)
        have hcount := v.super.sectorCount_lt
        rw [hsuper.holds.clusterIndex2Sector_eq hc h2, u32_of_lt (by omega)]
        omega
  | entry c =>
    obtain ⟨hst, -⟩ := readFatIndex_snd w v fs c
    have hserve : serve w v fs (.entry c) = readFatIndex w v fs c := rfl
    simp only [Inside, LoadsOnly, InRange, hserve, hst, iff_true]
    unfold loadFatSector
    split
    · exact ⟨[], rfl, by simp⟩
    · next hin =>
      split
      · exact ⟨[], rfl, by simp⟩
      · have hlt := hsuper.fat_lt (Nat.lt_of_not_le hin)
        have hcount := v.super.sectorCount_lt
        refine ⟨[u32 (v.super.reservedSectors + u32 (c * 4) / v.sectorSize)], ?_, ?_⟩
        · dsimp only
          split <;> rfl
        · intro lba hlba
          rw [List.mem_singleton.mp hlba, u32_of_lt (by omega)]
          exact hlt
  | nameBuffer => exact ⟨fun _ => trivial, fun _ => trivial⟩

/-! ## Section 2: Calls and runs -/

/-- The call asks only for the data of clusters in range. -/
def CallInRange (w : World) (v : Volume) (fuel : Nat) (fs : FatFs) (c : Call) : Prop :=
  (c.plan v fuel).Meets (serve w v) (fun _ => InRange v) fs

/-- Every request of the call stays inside the partition. -/
def CallInside (w : World) (v : Volume) (fuel : Nat) (fs : FatFs) (c : Call) : Prop :=
  (c.plan v fuel).Meets (serve w v) (Inside w v) fs

/-- Every sector requested so far lies in the partition. -/
def LoadsBelow (v : Volume) (fs : FatFs) : Prop := ∀ lba ∈ fs.loads, lba < v.super.sectorCount

theorem Inside.loadsBelow {i : Request} (h : Inside w v fs i) (hloads : LoadsBelow v fs) :
    LoadsBelow v (serve w v fs i).2 := by
  have hnew : LoadsOnly w v fs i (· < v.super.sectorCount) := by
    cases i with
    | cluster c =>
      obtain ⟨⟨new, heq, hin⟩, -⟩ := h
      exact ⟨new, heq, fun lba hlba => (hin lba hlba).2⟩
    | entry c => exact h
    | nameBuffer => exact ⟨[], rfl, by simp⟩
  obtain ⟨new, heq, hlt⟩ := hnew
  intro lba hlba
  rw [heq] at hlba
  rcases List.mem_append.mp hlba with hmem | hmem
  · exact hlt lba hmem
  · exact hloads lba hmem

/-- **FatFs stays in its partition** exactly as long as its calls ask for the
    data of clusters in range: in every run of such calls, each sector that was
    requested lies below `SectorCount`, and whatever was called before, the
    next call stays inside if and only if it is of this kind. -/
theorem inside_partition (hsuper : v.super.Describes) :
    (∀ fs, Reached w v (CallInRange w v) fs → LoadsBelow v fs) ∧
    ∀ fs fuel c, CallInside w v fuel fs c ↔ CallInRange w v fuel fs c := by
  have hiff : Inside w v = fun _ => InRange v :=
    funext fun fs => funext fun i => propext (inside_iff hsuper fs i)
  constructor
  · intro fs hreach
    induction hreach with
    | new fatWindow dataWindow => exact fun _ hlba => nomatch hlba
    | @call fuel fs fs' c r _ hin hexec ih =>
      obtain ⟨-, rfl⟩ := exec_cases hexec
      have hinside : CallInside w v fuel fs c := by
        unfold CallInside
        rw [hiff]
        exact hin
      exact Query.run_inv ih hinside fun _ _ hloads h => h.loadsBelow hloads
  · intro fs fuel c
    unfold CallInside CallInRange
    rw [hiff]

/-- A file whose record names a cluster behind the 62 data clusters. -/
def strayFile : Volume :=
  sampleVolume [0x0FFFFFF8, 0x0FFFFFFF, 0x0FFFFFFF] fun lba =>
    if lba = 2 then (sampleRecord (str "A") [] 200 1).raw else []

theorem strayFile_describes : strayFile.super.Describes :=
  ⟨by decide, by decide, by decide⟩

/-- Looking the file up stays inside. -/
theorem inside_partition_lookup :
    ∃ finfo fs, (Call.findByPath (str "A")).exec reliable strayFile 5 freshWindows =
      some (.find (.ok finfo), fs) ∧ LoadsBelow strayFile fs := by
  have hrun : ((Call.findByPath (str "A")).exec reliable strayFile 5 freshWindows).map Prod.fst =
      some (.find (.ok ⟨200, 1, 0⟩)) := by decide
  obtain ⟨⟨r, fs⟩, hexec, rfl⟩ := Option.map_eq_some_iff.mp hrun
  have hin : CallInRange reliable strayFile 5 freshWindows (.findByPath (str "A")) := by
    unfold CallInRange
    decide
  exact ⟨_, fs, hexec,
    (inside_partition strayFile_describes).1 fs (.call (.new _ _) hin hexec)⟩

/-- Reading it makes the driver request sector 200 of 64. -/
theorem read_outside :
    ∃ finfo fs₁ fs₂ data, (Call.findByPath (str "A")).exec reliable strayFile 5 freshWindows =
        some (.find (.ok finfo), fs₁) ∧
      (Call.readAt finfo 0 1).exec reliable strayFile 5 fs₁ = some (.read 1 data, fs₂) ∧
      ¬ LoadsBelow strayFile fs₂ := by
  have hrun : (((Call.findByPath (str "A")).exec reliable strayFile 5 freshWindows).bind
      fun r => ((Call.readAt ⟨200, 1, 0⟩ 0 1).exec reliable strayFile 5 r.2).map
        fun r' => (r.1, r'.1, r'.2.loads)) =
      some (.find (.ok ⟨200, 1, 0⟩), .read 1 [0], [200, 1, 2]) := by
    decide
  obtain ⟨⟨r₁, fs₁⟩, h₁, hrun⟩ := Option.bind_eq_some_iff.mp hrun
  obtain ⟨⟨r₂, fs₂⟩, h₂, hres⟩ := Option.map_eq_some_iff.mp hrun
  simp only [Prod.mk.injEq] at hres
  obtain ⟨rfl, rfl, hloads⟩ := hres
  refine ⟨_, fs₁, fs₂, [0], h₁, h₂, ?_⟩
  intro hbelow
  have hlt := hbelow 200 (by rw [hloads]; decide)
  exact absurd hlt (by decide)

end FatFs

end Hausboot

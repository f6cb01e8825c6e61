import Hausboot.FatFs.Requests

/-! # The stage2 FAT Driver: Window Coherence

    A `LoadSector` call that fails may leave anything in its buffer, which is a
    part of a window, while the tag of the window stays as it was. `Harmless`
    says when that does no damage, in the state before the load. It is exactly
    what keeps the windows in agreement with their tags: load by load
    (`coherent_serve_iff`), call by call (`coherent_exec_iff`) and over any run
    of calls (`coherent_iff_harmless`). -/

open ByteLib QueryLib

namespace Hausboot

/-- The FAT has an entry for the cluster. -/
def Volume.InTable (v : Volume) (c : Nat) : Prop :=
  u32 (c * 4) / v.sectorSize < v.super.sectorsPerFat

instance (v : Volume) (c : Nat) : Decidable (v.InTable c) :=
  inferInstanceAs (Decidable (u32 (c * 4) / v.sectorSize < v.super.sectorsPerFat))

namespace FatFs

variable {w : World} {v : Volume} {fs : FatFs}

/-! ## Section 1: A load that fails -/

/-- The sectors requested so far when the load of the sectors from `lba` on
    gets to its sector `j`. -/
def requested (lba j : Nat) (loads : List Nat) : List Nat :=
  ((List.range j).map fun i => u32 (lba + i)).reverse ++ loads

/-- The load of `n` sectors from `lba` on fails at its sector `j`, and leaves
    `junk` there. -/
structure FailsAt (w : World) (loads : List Nat) (lba n j : Nat) (junk : Bytes) : Prop where
  lt : j < n
  before : ∀ i < j, w.fault (requested lba i loads) (u32 (lba + i)) = none
  fault : w.fault (requested lba j loads) (u32 (lba + j)) = some junk

theorem FailsAt.unique {loads : List Nat} {lba n j j' : Nat} {junk junk' : Bytes}
    (h : FailsAt w loads lba n j junk) (h' : FailsAt w loads lba n j' junk') :
    j = j' ∧ junk = junk' := by
  have hle : ∀ {i i' : Nat} {d d' : Bytes}, FailsAt w loads lba n i d →
      FailsAt w loads lba n i' d' → i' ≤ i := by
    intro i i' d d' hi hi'
    by_contra hlt
    have := hi'.before i (by omega)
    rw [hi.fault] at this
    cases this
  obtain rfl : j = j' := Nat.le_antisymm (hle h' h) (hle h h')
  exact ⟨rfl, Option.some.inj (h.fault.symm.trans h'.fault)⟩

theorem requested_succ (lba j : Nat) (loads : List Nat) :
    requested lba (j + 1) loads = u32 (lba + j) :: requested lba j loads := by
  simp [requested, List.range_succ]

theorem splice_append (a b d : Bytes) : splice (a ++ b) a.length d = a ++ d ++ b.drop d.length := by
  unfold splice
  rw [List.take_left, List.drop_append, List.drop_eq_nil_of_le (Nat.le_add_right _ _),
    Nat.add_sub_cancel_left, List.nil_append]

/-- What the loop of `LoadDataCluster` leaves in the window, from sector `i`
    on. -/
theorem loadSectors_cases {lba i : Nat} {loads : List Nat} (window : Bytes) (n : Nat)
    (hwin : fs.dataWindow = v.sectors lba i ++ window.drop (i * v.sectorSize))
    (hloads : fs.loads = requested lba i loads)
    (hbefore : ∀ k < i, w.fault (requested lba k loads) (u32 (lba + k)) = none) :
    (∀ k < i + n, w.fault (requested lba k loads) (u32 (lba + k)) = none) ∧
        loadSectors w v lba i n fs = (true, { fs with
          dataWindow := v.sectors lba (i + n) ++ window.drop ((i + n) * v.sectorSize)
          loads := requested lba (i + n) loads }) ∨
    ∃ j junk, FailsAt w loads lba (i + n) j junk ∧
        loadSectors w v lba i n fs = (false, { fs with
          dataWindow := v.sectors lba j ++ junk ++ window.drop (j * v.sectorSize + junk.length)
          loads := requested lba (j + 1) loads }) := by
  induction n generalizing i fs with
  | zero =>
    refine .inl ⟨hbefore, ?_⟩
    rw [Nat.add_zero, ← hwin, ← hloads]
    rfl
  | succ n ih =>
    have hsplice : ∀ d, splice fs.dataWindow (i * v.sectorSize) d =
        v.sectors lba i ++ d ++ window.drop (i * v.sectorSize + d.length) := by
      intro d
      rw [hwin, ← v.length_sectors lba i, splice_append, List.drop_drop]
    cases hfault : w.fault (requested lba i loads) (u32 (lba + i)) with
    -- the failing call leaves its junk behind the sectors in front
    | some junk =>
      refine .inr ⟨i, junk, ⟨by omega, hbefore, hfault⟩, ?_⟩
      simp only [loadSectors, World.loadSector, hloads, hfault, hsplice, requested_succ]
      rfl
    | none =>
      -- one more sector, and the rest by induction
      have hstep : loadSectors w v lba i (n + 1) fs = loadSectors w v lba (i + 1) n { fs with
          dataWindow := splice fs.dataWindow (i * v.sectorSize) (v.sector (u32 (lba + i)))
          loads := u32 (lba + i) :: fs.loads } := by
        simp only [loadSectors, World.loadSector, hloads, hfault, if_true]
      have hwin' : splice fs.dataWindow (i * v.sectorSize) (v.sector (u32 (lba + i))) =
          v.sectors lba (i + 1) ++ window.drop ((i + 1) * v.sectorSize) := by
        rw [hsplice, v.sectors_succ, v.length_sector, Nat.succ_mul]
      have hbefore' : ∀ k < i + 1, w.fault (requested lba k loads) (u32 (lba + k)) = none := by
        intro k hk
        rcases Nat.lt_succ_iff_lt_or_eq.mp hk with hlt | rfl
        · exact hbefore k hlt
        · exact hfault
      rw [hstep, show i + (n + 1) = i + 1 + n by omega]
      exact ih hwin' (by rw [requested_succ, hloads]) hbefore'

/-! ## Section 2: When a failed load does no damage -/

/-- No sector load fails on the way to cluster `c`, or the data window has no
    tag, or what the load has put into the window by then (the sectors in front
    and what the failing call left) is what the tagged cluster has there. -/
def ClusterHarmless (w : World) (v : Volume) (fs : FatFs) (c : Nat) : Prop :=
  2 ≤ c → c ≠ fs.currentDataCluster → fs.currentDataCluster ≠ 0xFFFFFFFF →
    ∀ j junk, FailsAt w fs.loads (v.super.clusterIndex2Sector c) v.super.sectorsPerCluster j junk →
      (v.cluster fs.currentDataCluster).take (j * v.sectorSize + junk.length) <+:
        v.sectors (v.super.clusterIndex2Sector c) j ++ junk

/-- The same for the one sector of the FAT window. -/
def SectorHarmless (w : World) (v : Volume) (fs : FatFs) (s : Nat) : Prop :=
  s < v.super.sectorsPerFat → s ≠ fs.currentFatSector → fs.currentFatSector ≠ 0xFFFFFFFF →
    ∀ junk, w.fault fs.loads (u32 (v.super.reservedSectors + s)) = some junk →
      v.fatSector fs.currentFatSector = junk

/-- A request leaves the windows in agreement with their tags. -/
def Harmless (w : World) (v : Volume) (fs : FatFs) : Request → Prop
  | .cluster c => ClusterHarmless w v fs c
  | .entry c => SectorHarmless w v fs (u32 (c * 4) / v.sectorSize)
  | .nameBuffer => True

/-- A prefix of `l` is still one after its front was overwritten, exactly if
    the new front agrees with it. -/
theorem prefix_overwrite_iff {a l d : Bytes} (h : a <+: l) :
    a <+: d ++ l.drop d.length ↔ a.take d.length <+: d := by
  obtain ⟨t, rfl⟩ := h
  constructor
  · intro hpre
    refine List.prefix_of_prefix_length_le ((List.take_prefix _ _).trans hpre)
      (List.prefix_append _ _) ?_
    rw [List.length_take]
    exact Nat.min_le_left _ _
  · intro hpre
    rcases Nat.le_total d.length a.length with hle | hle
    · have heq : a.take d.length = d :=
        hpre.eq_of_length (by rw [List.length_take]; omega)
      rw [List.drop_append_of_le_length hle]
      conv_lhs => rw [← List.take_append_drop d.length a, heq]
      rw [← List.append_assoc]
      exact List.prefix_append _ _
    · rw [List.take_of_length_le hle] at hpre
      exact hpre.trans (List.prefix_append _ _)

theorem loadDataCluster_coherent_iff (hco : Coherent v fs) (c : Nat) :
    (Coherent v (loadDataCluster w v fs c).2 ↔ ClusterHarmless w v fs c) ∧
    (¬ ClusterHarmless w v fs c → (loadDataCluster w v fs c).1 = false) := by
  unfold loadDataCluster ClusterHarmless
  by_cases h2 : c < 2
  · rw [if_pos h2]
    exact ⟨⟨fun _ h => by omega, fun _ => hco⟩, fun _ => rfl⟩
  rw [if_neg h2]
  by_cases hcur : c = fs.currentDataCluster
  · rw [if_pos hcur]
    exact ⟨⟨fun _ _ hne => absurd hcur hne, fun _ => hco⟩,
      fun h => absurd (fun _ hne => absurd hcur hne) h⟩
  rw [if_neg hcur]
  have hwin : fs.dataWindow = v.sectors (v.super.clusterIndex2Sector c) 0 ++
      fs.dataWindow.drop (0 * v.sectorSize) := by simp [Volume.sectors]
  have hloads : fs.loads = requested (v.super.clusterIndex2Sector c) 0 fs.loads := by simp [requested]
  rcases loadSectors_cases (w := w) fs.dataWindow v.super.sectorsPerCluster
    hwin hloads (by omega) with ⟨hall, hload⟩ | ⟨j, junk, hfail, hload⟩
  · -- every sector was loaded
    rw [hload, Nat.zero_add] at *
    have hharm : ∀ j junk, ¬ FailsAt w fs.loads (v.super.clusterIndex2Sector c)
        v.super.sectorsPerCluster j junk := by
      intro j junk hfail
      have := hfail.fault
      rw [hall j hfail.lt] at this
      cases this
    exact ⟨⟨fun _ _ _ _ j junk hfail => absurd hfail (hharm j junk),
      fun _ => ⟨fun _ => List.prefix_append _ _, hco.fat⟩⟩,
      fun h => absurd (fun _ _ _ j junk hfail => absurd hfail (hharm j junk)) h⟩
  · rw [hload]
    rw [Nat.zero_add] at hfail
    have hlen : (v.sectors (v.super.clusterIndex2Sector c) j ++ junk).length =
        j * v.sectorSize + junk.length := by
      rw [List.length_append, v.length_sectors]
    refine ⟨?_, fun _ => rfl⟩
    constructor
    · intro hco' _ _ htag j' junk' hfail'
      obtain ⟨rfl, rfl⟩ := hfail.unique hfail'
      have hpre := hco'.data htag
      dsimp only at hpre
      rw [← hlen, prefix_overwrite_iff (hco.data htag)] at hpre
      rwa [hlen] at hpre
    · intro hharm
      refine ⟨?_, hco.fat⟩
      intro htag
      have hpre := hharm (by omega) hcur htag j junk hfail
      show v.cluster fs.currentDataCluster <+: _
      rwa [← hlen, prefix_overwrite_iff (hco.data htag), hlen]

theorem loadFatSector_coherent_iff (hco : Coherent v fs) (s : Nat) :
    (Coherent v (loadFatSector w v fs s).2 ↔ SectorHarmless w v fs s) ∧
    (¬ SectorHarmless w v fs s → (loadFatSector w v fs s).1 = false) := by
  unfold loadFatSector SectorHarmless
  by_cases hend : s ≥ v.super.sectorsPerFat
  · rw [if_pos hend]
    exact ⟨⟨fun _ h => by omega, fun _ => hco⟩, fun _ => rfl⟩
  rw [if_neg hend]
  by_cases hcur : s = fs.currentFatSector
  · rw [if_pos hcur]
    exact ⟨⟨fun _ _ hne => absurd hcur hne, fun _ => hco⟩,
      fun h => absurd (fun _ hne => absurd hcur hne) h⟩
  rw [if_neg hcur]
  rcases hfault : w.fault fs.loads (u32 (v.super.reservedSectors + s)) with _ | junk
  · have hload : w.loadSector v fs.loads (u32 (v.super.reservedSectors + s)) =
        (true, v.sector (u32 (v.super.reservedSectors + s))) := by
      simp [World.loadSector, hfault]
    simp only [hload, if_true]
    refine ⟨⟨?_, fun _ => ⟨hco.data, fun _ => rfl⟩⟩, ?_⟩
    · intro _ _ _ _ junk hjunk
      cases hjunk
    · intro hharm
      refine absurd ?_ hharm
      intro _ _ _ junk hjunk
      cases hjunk
  · have hload : w.loadSector v fs.loads (u32 (v.super.reservedSectors + s)) = (false, junk) := by
      simp [World.loadSector, hfault]
    simp only [hload]
    refine ⟨?_, fun _ => rfl⟩
    -- the tag is kept, and what is now under it is `junk`
    constructor
    · intro hco' _ _ htag junk' hjunk
      obtain rfl := Option.some.inj hjunk
      exact hco'.fat htag
    · intro hharm
      exact ⟨hco.data, fun htag => hharm (by omega) hcur htag junk rfl⟩

/-- `serveCluster` passes on the outcome of `LoadDataCluster`. -/
theorem serveCluster_snd (w : World) (v : Volume) (fs : FatFs) (c : Nat) :
    (serveCluster w v fs c).2 = (loadDataCluster w v fs c).2 ∧
    ((serveCluster w v fs c).1 = none ↔ (loadDataCluster w v fs c).1 = false) := by
  unfold serveCluster
  rcases loadDataCluster w v fs c with ⟨ok, fs'⟩
  cases ok <;> simp

/-- `ReadFatIndex` passes on the outcome of `LoadFatSector`. -/
theorem readFatIndex_snd (w : World) (v : Volume) (fs : FatFs) (c : Nat) :
    (readFatIndex w v fs c).2 = (loadFatSector w v fs (u32 (c * 4) / v.sectorSize)).2 ∧
    ((readFatIndex w v fs c).1 = none ↔
      (loadFatSector w v fs (u32 (c * 4) / v.sectorSize)).1 = false) := by
  unfold readFatIndex
  dsimp only
  rcases loadFatSector w v fs (u32 (c * 4) / v.sectorSize) with ⟨ok, fs'⟩
  cases ok <;> simp

/-- **One request** keeps the windows in agreement with their tags exactly if
    it is harmless; if it is not, it fails. -/
theorem coherent_serve_iff (hco : Coherent v fs) (i : Request) :
    (Coherent v (serve w v fs i).2 ↔ Harmless w v fs i) ∧
    (¬ Harmless w v fs i → i.Fails (serve w v fs i).1) := by
  cases i with
  | cluster c =>
    obtain ⟨hiff, hfail⟩ := loadDataCluster_coherent_iff (w := w) hco c
    obtain ⟨hst, hres⟩ := serveCluster_snd w v fs c
    show (Coherent v (serveCluster w v fs c).2 ↔ _) ∧ (_ → (serveCluster w v fs c).1 = none)
    rw [hst, hres]
    exact ⟨hiff, hfail⟩
  | entry c =>
    obtain ⟨hiff, hfail⟩ :=
      loadFatSector_coherent_iff (w := w) hco (u32 (c * 4) / v.sectorSize)
    obtain ⟨hst, hres⟩ := readFatIndex_snd w v fs c
    show (Coherent v (readFatIndex w v fs c).2 ↔ _) ∧ (_ → (readFatIndex w v fs c).1 = none)
    rw [hst, hres]
    exact ⟨hiff, hfail⟩
  | nameBuffer => exact ⟨⟨fun _ => trivial, fun _ => hco⟩, fun h => absurd trivial h⟩

/-! ## Section 3: What the answers are -/

/-- A successful answer is what the disk has. -/
def Honest (v : Volume) : (i : Request) → i.Answer → Prop
  | .cluster c, r => ∀ window, r = some window → v.cluster c <+: window
  | .entry c, r => ∀ e, r = some e → e = v.fatEntry c
  | .nameBuffer, _ => True

/-- The disk answers, without windows and without failures. -/
def FromDisk (v : Volume) : (i : Request) → i.Answer → Prop
  | .cluster c, r => ∃ window, r = some window ∧ v.cluster c <+: window
  | .entry c, r => r = some (v.fatEntry c)
  | .nameBuffer, _ => True

theorem FromDisk.of_honest {i : Request} {r : i.Answer} (h : Honest v i r) (hr : ¬ i.Fails r) :
    FromDisk v i r := by
  cases i with
  | cluster c =>
    rcases r with _ | window
    · exact absurd rfl hr
    · exact ⟨window, rfl, h window rfl⟩
  | entry c =>
    rcases r with _ | e
    · exact absurd rfl hr
    · show some e = _
      rw [h e rfl]
  | nameBuffer => trivial

theorem loadFatSector_window (hco : Coherent v fs) {s : Nat}
    (hok : (loadFatSector w v fs s).1 = true) :
    (loadFatSector w v fs s).2.fatWindow = v.fatSector s := by
  have hsize := v.super.sectorsPerFat_lt
  unfold loadFatSector at hok ⊢
  by_cases hend : s ≥ v.super.sectorsPerFat
  · rw [if_pos hend] at hok
    cases hok
  rw [if_neg hend] at hok ⊢
  by_cases hcur : s = fs.currentFatSector
  · rw [if_pos hcur]
    rw [hcur]
    exact (hco.fat (by omega)).symm
  rw [if_neg hcur] at hok ⊢
  rcases loadSector_cases w v fs.loads (u32 (v.super.reservedSectors + s)) with hload | ⟨-, hload⟩
  · simp only [hload, if_true]
    rfl
  · simp only [hload] at hok
    cases hok

theorem readFatIndex_honest (hco : Coherent v fs) {c e : Nat}
    (he : (readFatIndex w v fs c).1 = some e) : e = v.fatEntry c := by
  have hwin := loadFatSector_window (w := w) (s := u32 (c * 4) / v.sectorSize) hco
  unfold readFatIndex at he
  dsimp only at he
  generalize loadFatSector w v fs (u32 (c * 4) / v.sectorSize) = r at hwin he
  rcases r with ⟨ok, fs'⟩
  cases ok with
  | false => cases he
  | true =>
    obtain rfl := Option.some.inj he
    rw [hwin rfl]
    rfl

/-- Windows that agree with their tags answer with what the disk has. -/
theorem honest_serve (hco : Coherent v fs) {i : Request} (hi : i.Inner) :
    Honest v i (serve w v fs i).1 := by
  cases i with
  | cluster c =>
    intro window hwindow
    change (serveCluster w v fs c).1 = some window at hwindow
    unfold serveCluster at hwindow
    by_cases h2 : 2 ≤ c
    · rcases loadDataCluster_spec (w := w) hco h2 hi with ⟨fs', hload, -, hpre⟩ | ⟨-, hload⟩
      · rw [hload] at hwindow
        rwa [← Option.some.inj hwindow]
      · generalize loadDataCluster w v fs c = r at hload hwindow
        rcases r with ⟨ok, fs'⟩
        obtain rfl : ok = false := hload
        cases hwindow
    · rw [show loadDataCluster w v fs c = (false, fs) by
        unfold loadDataCluster
        rw [if_pos (by omega)]] at hwindow
      cases hwindow
  | entry c => exact fun e he => readFatIndex_honest hco he
  | nameBuffer => trivial

theorem loadFatSector_reliable (hw : ¬ w.Faulty) (s : Nat) :
    (loadFatSector w v fs s).1 = decide (s < v.super.sectorsPerFat) := by
  unfold loadFatSector
  by_cases hend : s ≥ v.super.sectorsPerFat
  · rw [if_pos hend, decide_eq_false (Nat.not_lt_of_le hend)]
  rw [if_neg hend, decide_eq_true (Nat.lt_of_not_le hend)]
  split
  · rfl
  · rcases loadSector_cases w v fs.loads (u32 (v.super.reservedSectors + s)) with hload | ⟨hbad, -⟩
    · simp only [hload, if_true]
    · exact absurd hbad hw

/-- On a device that never fails, a FAT entry is read if the FAT has it. -/
theorem readFatIndex_reliable (hw : ¬ w.Faulty) (hco : Coherent v fs) (c : Nat) :
    (readFatIndex w v fs c).1 = if v.InTable c then some (v.fatEntry c) else none := by
  obtain ⟨-, hnone⟩ := readFatIndex_snd w v fs c
  rw [loadFatSector_reliable hw, decide_eq_false_iff_not] at hnone
  split
  · next hin =>
    rcases hread : (readFatIndex w v fs c).1 with _ | e
    · exact absurd hin (hnone.mp hread)
    · rw [readFatIndex_honest hco hread]
  · next hin => exact hnone.mpr hin

/-- On a device that never fails, a cluster is read unless its number is too
    small. -/
theorem serveCluster_reliable (hw : ¬ w.Faulty) (hco : Coherent v fs) {c : Nat}
    (hc : c < endOfChain) :
    (c < 2 ∧ (serveCluster w v fs c).1 = none) ∨
    (2 ≤ c ∧ ∃ window, (serveCluster w v fs c).1 = some window ∧ v.cluster c <+: window) := by
  obtain ⟨-, hnone⟩ := serveCluster_snd w v fs c
  by_cases h2 : 2 ≤ c
  · refine .inr ⟨h2, ?_⟩
    rcases hload : (serveCluster w v fs c).1 with _ | window
    · rcases loadDataCluster_spec (w := w) hco h2 hc with ⟨fs', hok, -⟩ | ⟨hbad, -⟩
      · rw [hok] at hnone
        cases hnone.mp hload
      · exact absurd hbad hw
    · exact ⟨window, rfl, honest_serve hco (i := .cluster c) hc window hload⟩
  · refine .inl ⟨by omega, hnone.mpr ?_⟩
    unfold loadDataCluster
    rw [if_pos (by omega)]

/-! ## Section 4: Calls -/

/-- Every load that the call makes is harmless. -/
def Safe (w : World) (v : Volume) (fuel : Nat) (fs : FatFs) (c : Call) : Prop :=
  (c.plan v fuel).Meets (serve w v) (Harmless w v) fs

theorem exec_cases {fuel : Nat} {c : Call} {r : Reply} {fs' : FatFs}
    (h : c.exec w v fuel fs = some (r, fs')) :
    ((c.plan v fuel).run (serve w v) fs).1 = some r ∧
    ((c.plan v fuel).run (serve w v) fs).2 = fs' := by
  rw [exec_eq] at h
  obtain ⟨a, ha, heq⟩ := Option.map_eq_some_iff.mp h
  obtain ⟨rfl, rfl⟩ := Prod.mk.inj heq
  exact ⟨ha, rfl⟩

/-- **One call** keeps the windows in agreement with their tags exactly if
    every load that it makes is harmless. -/
theorem coherent_exec_iff {fuel : Nat} {c : Call} {r : Reply} {fs' : FatFs} (hco : Coherent v fs)
    (h : c.exec w v fuel fs = some (r, fs')) : Coherent v fs' ↔ Safe w v fuel fs c := by
  obtain ⟨-, rfl⟩ := exec_cases h
  exact Query.run_inv_iff hco (Call.plan_asks fuel c) (Call.plan_strict fuel c)
    (fun _ i hinv _ => (coherent_serve_iff hinv i).1)
    (fun _ i hinv _ => (coherent_serve_iff hinv i).2)

/-- A safe call that reports no error gives what the disk has. -/
theorem outcome_exec {fuel : Nat} {c : Call} {r : Reply} {fs' : FatFs} (hco : Coherent v fs)
    (hsafe : Safe w v fuel fs c) (h : c.exec w v fuel fs = some (r, fs')) (hr : ¬ r.IsError) :
    (c.plan v fuel).Outcome (FromDisk v) (some r) := by
  obtain ⟨hres, -⟩ := exec_cases h
  have hout : (c.plan v fuel).Outcome (Honest v) (some r) := by
    rw [← hres]
    exact Query.run_outcome hco (Call.plan_asks fuel c) hsafe
      (fun _ i hinv _ hharm => (coherent_serve_iff hinv i).1.mpr hharm)
      (fun _ i hinv hin _ => honest_serve hinv hin)
  have hstrict := hout.of_strict (Call.plan_strict fuel c) (by
    rintro ⟨e, he, herr⟩
    obtain rfl := Option.some.inj he
    exact hr herr)
  exact hstrict.mono fun i r h => FromDisk.of_honest h.1 h.2

/-! ## Section 5: Runs of calls -/

/-- The driver after a run of calls, each of which met `C` and returned. -/
inductive Reached (w : World) (v : Volume) (C : Nat → FatFs → Call → Prop) : FatFs → Prop where
  | new (fatWindow dataWindow : Bytes) : Reached w v C (FatFs.new fatWindow dataWindow)
  | call {fuel : Nat} {fs fs' : FatFs} {c : Call} {r : Reply} :
      Reached w v C fs → C fuel fs c → c.exec w v fuel fs = some (r, fs') → Reached w v C fs'

/-- **Coherence over a run.** While every load of every call is harmless, the
    windows hold what their tags say. The next call keeps it that way exactly
    if its loads are harmless too, and if it then reports no error, its result
    is one that the disk's own bytes and FAT entries lead to. -/
theorem coherent_of_harmless (h : Reached w v (Safe w v) fs) :
    Coherent v fs ∧
    ∀ fuel c r fs', c.exec w v fuel fs = some (r, fs') →
      (Coherent v fs' ↔ Safe w v fuel fs c) ∧
      (Safe w v fuel fs c → ¬ r.IsError →
        (c.plan v fuel).Outcome (FromDisk v) (some r)) := by
  have hco : Coherent v fs := by
    induction h with
    | new fatWindow dataWindow => exact Coherent.new v fatWindow dataWindow
    | call _ hsafe hexec ih => exact (coherent_exec_iff ih hexec).mpr hsafe
  refine ⟨hco, ?_⟩
  intro fuel c r fs' hexec
  exact ⟨coherent_exec_iff hco hexec, fun hsafe hr => outcome_exec hco hsafe hexec hr⟩

/-- Two files of one byte, in the clusters 3 and 4. -/
def twoFiles : Volume :=
  sampleVolume [0x0FFFFFF8, 0x0FFFFFFF, 0x0FFFFFFF, 0x0FFFFFFF, 0x0FFFFFFF] fun lba =>
    if lba = 3 then [0x41] else if lba = 4 then [0x42] else []

/-- A device on which reading sector 4 fails after the first byte. -/
def failingFour : World where
  fault _ lba := if lba = 4 then some [0x42] else none
  uninit _ _ := List.replicate 32 0

def freshWindows : FatFs := FatFs.new (List.replicate 512 0) (List.replicate 512 0)

/-- A failed read, with no tag set, and the windows behind it. -/
theorem coherent_of_harmless_first :
    ∃ r fs, (Call.readAt ⟨4, 1, 0⟩ 0 1).exec failingFour twoFiles 5 freshWindows = some (r, fs) ∧
      Coherent twoFiles fs := by
  have hrun : ((Call.readAt ⟨4, 1, 0⟩ 0 1).exec failingFour twoFiles 5 freshWindows).isSome =
      true := by decide
  obtain ⟨⟨r, fs⟩, hexec⟩ := Option.isSome_iff_exists.mp hrun
  have hsafe : Safe failingFour twoFiles 5 freshWindows (.readAt ⟨4, 1, 0⟩ 0 1) := by
    refine ⟨?_, ?_⟩
    · intro _ _ htag
      exact absurd rfl htag
    · have hanswer : (serve failingFour twoFiles freshWindows (.cluster 4)).1 = none := by
        decide
      rw [hanswer]
      trivial
  exact ⟨r, fs, hexec, (coherent_of_harmless (.call (.new _ _) hsafe hexec)).1⟩

set_option maxRecDepth 3000

/-- The failed read of the second file destroys the window with the first, and
    the next read of the first file succeeds with a byte of the second. -/
theorem stale_after_failure :
    ∃ fs fs', Reached failingFour twoFiles (fun _ _ _ => True) fs ∧ ¬ Coherent twoFiles fs ∧
      (Call.readAt ⟨3, 1, 0⟩ 0 1).exec failingFour twoFiles 5 fs =
        some (.read 1 [0x42], fs') ∧
      twoFiles.fileBytes ⟨3, 1, 0⟩ [3] = [0x41] := by
  have hrun : ((((Call.readAt ⟨3, 1, 0⟩ 0 1).exec failingFour twoFiles 5 freshWindows).bind
      fun r => (Call.readAt ⟨4, 1, 0⟩ 0 1).exec failingFour twoFiles 5 r.2).bind
      fun r => ((Call.readAt ⟨3, 1, 0⟩ 0 1).exec failingFour twoFiles 5 r.2).map
        fun r' => (r.2.currentDataCluster, r.2.dataWindow.take 1, r'.1)) =
      some (3, [0x42], .read 1 [0x42]) := by
    decide
  obtain ⟨⟨r₂, fs₂⟩, h₂, hrun⟩ := Option.bind_eq_some_iff.mp hrun
  obtain ⟨⟨r₁, fs₁⟩, h₁, h₂⟩ := Option.bind_eq_some_iff.mp h₂
  obtain ⟨⟨r₃, fs₃⟩, h₃, hres⟩ := Option.map_eq_some_iff.mp hrun
  simp only [Prod.mk.injEq] at hres
  obtain ⟨htag, hwin, rfl⟩ := hres
  refine ⟨fs₂, fs₃, .call (.call (.new _ _) trivial h₁) trivial h₂, ?_, h₃, by decide⟩
  intro hco
  have hpre := hco.data (by rw [htag]; decide)
  rw [htag] at hpre
  obtain ⟨rest, hrest⟩ := hpre
  have hfirst : (twoFiles.cluster 3).take 1 = [0x41] := by decide
  have hlen : 1 ≤ (twoFiles.cluster 3).length := by decide
  rw [← hrest, List.take_append_of_le_length hlen, hfirst] at hwin
  cases hwin

end FatFs

end Hausboot

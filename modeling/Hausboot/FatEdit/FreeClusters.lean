import Mathlib.Order.Interval.Finset.Nat
import Hausboot.FatEdit.Disk

/-! # The fatedit Tool: Free Clusters

    The data clusters are numbered from 2 on, but `FindFreeCluster` looks at
    the indices below their number, and `NumFreeClusters` at every entry of the
    FAT. So an allocation can hand out the reserved indices and misses the last
    two clusters, and the counters that are written back include entries that
    belong to no cluster. This file states on which FATs neither shows. -/

open ByteLib Prog

namespace Hausboot.FatEdit

variable {super : FatSuper} {s s' : Session}

/-! ## Section 1: The table and its free clusters -/

/-- The volume has room for its FATs, and the table in memory has an entry for
    every data cluster. -/
structure FatTable (super : FatSuper) (s : Session) : Prop where
  sectorsPerCluster_pos : 0 < super.sectorsPerCluster
  area : super.reservedSectors + super.numFats * super.sectorsPerFat ≤ super.sectorCount
  entries : 4 * (dataClusters super + 2) ≤ s.fatRaw.size
  size_lt : s.fatRaw.size < 2 ^ 32

theorem Session.Ok.fatTable (hs : s.Ok super) : FatTable super s where
  sectorsPerCluster_pos := hs.layout.sectorsPerCluster_pos
  area := hs.layout.area
  entries := by
    have hmul := Layout.entries_mul_le super
    have hentries := hs.layout.entries
    rw [hs.fatSize]
    omega
  size_lt := hs.fatRaw_lt

/-- A data cluster that no file uses. -/
def FreeCluster (super : FatSuper) (s : Session) (c : Nat) : Prop :=
  2 ≤ c ∧ c < dataClusters super + 2 ∧ s.link c = 0

instance (c : Nat) : Decidable (FreeCluster super s c) :=
  inferInstanceAs (Decidable (2 ≤ c ∧ c < dataClusters super + 2 ∧ s.link c = 0))

/-- Number of free data clusters. -/
def freeCount (super : FatSuper) (s : Session) : Nat :=
  ((Finset.Ico 2 (dataClusters super + 2)).filter fun c => s.link c = 0).card

theorem findFreeCluster_first (ht : FatTable super s) :
    (∃ x, x < dataClusters super ∧ s.link x = 0 ∧ (∀ y < x, s.link y ≠ 0) ∧
      findFreeCluster super s = .ok x) ∨
    ((∀ x < dataClusters super, s.link x ≠ 0) ∧ findFreeCluster super s = .ok noCluster) := by
  have hentries := ht.entries
  rw [findFreeCluster, searchRange_eq_dataClusters ht.sectorsPerCluster_pos ht.area]
  rcases Session.findFreeLoop_link ht.size_lt (dataClusters super) 0 (by omega) with
    ⟨x, -, hx, hfree, hfirst, heq⟩ | ⟨hnone, heq⟩
  · exact .inl ⟨x, by omega, hfree, fun y hy => hfirst y (Nat.zero_le _) hy, heq⟩
  · exact .inr ⟨fun x hx => hnone x (Nat.zero_le _) (by omega), heq⟩

/-! ## Section 2: Allocation -/

/-- Nothing but the entry of `x` has changed, and that is an end marker. -/
structure TakenOnly (s s' : Session) (x : Nat) : Prop where
  taken : s'.link x = endMark
  frame : ∀ i, i < 4 * x ∨ 4 * x + 4 ≤ i → s'.fatRaw.bytes i = s.fatRaw.bytes i
  rest : s' = { s with fatRaw := { s.fatRaw with bytes := s'.fatRaw.bytes } }

/-- What an allocation is meant to do: hand out a free data cluster, or throw
    if there is none. -/
def AllocSound (super : FatSuper) (s : Session) : Prop :=
  match allocateCluster super s with
  | .ok x s' => FreeCluster super s x ∧ TakenOnly s s' x
  | .error e s' => e = .throw .noFreeCluster ∧ s' = s ∧ ∀ c, ¬ FreeCluster super s c

theorem setEntry_taken {x : Nat} (hx : 4 * x + 4 ≤ s.fatRaw.size) :
    ∃ s', setEntry x endMark s = .ok () s' ∧ TakenOnly s s' x := by
  have hif : (decide (s.fatRaw.size < 4) || decide (x * 4 ≥ s.fatRaw.size - 3)) = false := by
    rw [Bool.or_eq_false_iff, decide_eq_false_iff_not, decide_eq_false_iff_not]
    omega
  refine ⟨{ s with fatRaw := { s.fatRaw with
    bytes := s.fatRaw.bytes.writeLE (x * 4) 4 (endMark % 2 ^ 28) } }, ?_, ?_, ?_, rfl⟩
  · show EStateM.Result.ok () _ = _
    simp only [hif, Bool.false_eq_true, if_false]
  · rw [Session.link, Nat.mul_comm, Store.readLE_writeLE_same]
    rfl
  · intro i hi
    refine Store.write_apply_of_not_mem ?_
    rw [length_leBytes]
    omega

/-- An allocation takes the first index below the number of clusters whose
    entry is zero, or throws. -/
theorem allocateCluster_first (ht : FatTable super s) :
    (∃ x s', x < dataClusters super ∧ x < endMark ∧ s.link x = 0 ∧ (∀ y < x, s.link y ≠ 0) ∧
      TakenOnly s s' x ∧ allocateCluster super s = .ok x s') ∨
    ((∀ x, x < dataClusters super → x < endMark → s.link x ≠ 0) ∧
      allocateCluster super s = .error (.throw .noFreeCluster) s) := by
  have hentries := ht.entries
  rcases findFreeCluster_first ht with ⟨x, hx, hfree, hfirst, heq⟩ | ⟨hnone, heq⟩
  · have hread : reading (findFreeCluster super) s = .ok x s := by simp [reading, heq]
    -- an index from the end markers on is taken for none
    by_cases hlarge : x ≥ endMark
    · refine .inr ⟨fun y _ hyend => hfirst y (by omega), ?_⟩
      unfold allocateCluster
      show EStateM.bind _ _ s = _
      unfold EStateM.bind
      rw [hread]
      simp only [if_pos hlarge]
      rfl
    · obtain ⟨s', hset, htaken⟩ := setEntry_taken (s := s) (x := x) (by omega)
      refine .inl ⟨x, s', hx, by omega, hfree, hfirst, htaken, ?_⟩
      refine bind_eq_ok.mpr ⟨x, s, hread, ?_⟩
      rw [if_neg hlarge]
      exact bind_eq_ok.mpr ⟨(), s', hset, rfl⟩
  · have hread : reading (findFreeCluster super) s = .ok noCluster s := by simp [reading, heq]
    refine .inr ⟨fun x hx _ => hnone x hx, ?_⟩
    unfold allocateCluster
    show EStateM.bind _ _ s = _
    unfold EStateM.bind
    rw [hread]
    rfl

/-- **Where allocation is right**: exactly if no reserved index that is searched
    is free, and some free cluster is found whenever there is one: its index is
    below the number of clusters and below the end markers. -/
theorem allocateCluster_sound_iff (ht : FatTable super s) :
    AllocSound super s ↔
      (∀ y < 2, y < dataClusters super → s.link y ≠ 0) ∧
      ((∃ c, FreeCluster super s c) →
        ∃ c, FreeCluster super s c ∧ c < dataClusters super ∧ c < endMark) := by
  unfold AllocSound
  -- either the first free index is handed out, or none was found
  rcases allocateCluster_first ht with ⟨x, s', hx, hend, hfree, hfirst, htaken, heq⟩ | ⟨hnone, heq⟩
  · rw [heq]
    constructor
    · rintro ⟨hc, -⟩
      refine ⟨fun y hy hlt hzero => ?_, fun _ => ⟨x, hc, hx, hend⟩⟩
      exact hfirst y (Nat.lt_of_lt_of_le hy hc.1) hzero
    · rintro ⟨hreserved, -⟩
      refine ⟨⟨?_, by omega, hfree⟩, htaken⟩
      by_contra hlt
      exact hreserved x (by omega) hx hfree
  · rw [heq]
    constructor
    · rintro ⟨-, -, hall⟩
      refine ⟨fun y hy hlt => ?_, fun ⟨c, hc⟩ => absurd hc (hall c)⟩
      exact hnone y hlt (Nat.lt_trans hy (by decide))
    · rintro ⟨-, hfound⟩
      refine ⟨rfl, rfl, fun c hc => ?_⟩
      obtain ⟨c', hc', hlt, hend⟩ := hfound ⟨c, hc⟩
      exact hnone c' hlt hend hc'.2.2

/-- One sector per cluster, and `sectors` of them behind two reserved sectors and
    a FAT of one sector. -/
def tableSuper (sectors : Nat) : FatSuper := ⟨smallSuper 2 (sectors + 3) 1⟩

/-- A session whose FAT has these entries at its front. -/
def tableSession (entries : List Nat) : Session where
  file := ⟨fun _ => 0, 4096⟩
  fatRaw := ⟨Store.write (fun _ => 0) 0 (entries.flatMap (leBytes 4)), 512⟩
  fsinfo := List.replicate 512 0
  cout := []
  cerr := []

/-- The entries of the table are the given ones. -/
theorem link_tableSession {entries : List Nat} {c v : Nat} (h : entries[c]? = some v) :
    (tableSession entries).link c = v % 256 ^ 4 % 2 ^ 28 := by
  obtain ⟨hc, hv⟩ := List.getElem?_eq_some_iff.mp h
  have hlen : (entries.flatMap (leBytes 4)).length = 4 * entries.length := by
    simp [Nat.mul_comm]
  have hsame := Store.read_write_same (fun _ => 0) 0 (entries.flatMap (leBytes 4))
  have hwin := slice_flatMap_leBytes 4 hc
  rw [← hsame, Store.slice_read _ (by omega), Nat.zero_add, hv] at hwin
  show leNat (Store.read (Store.write (fun _ => 0) 0 (entries.flatMap (leBytes 4))) (4 * c) 4) %
    2 ^ 28 = _
  rw [hwin, leNat_leBytes]

theorem fatTable_sample (entries : List Nat) {sectors : Nat}
    (hpos : 0 < (tableSuper sectors).sectorsPerCluster)
    (harea : (tableSuper sectors).reservedSectors +
      (tableSuper sectors).numFats * (tableSuper sectors).sectorsPerFat ≤
        (tableSuper sectors).sectorCount)
    (hcount : 4 * (dataClusters (tableSuper sectors) + 2) ≤ 512) :
    FatTable (tableSuper sectors) (tableSession entries) :=
  ⟨hpos, harea, hcount, show 512 < 2 ^ 32 by decide⟩

/-- Three clusters of which the first one is free. -/
theorem allocateCluster_sound_three :
    AllocSound (tableSuper 3) (tableSession [endMark, endMark, 0, endMark, endMark]) :=
  (allocateCluster_sound_iff (fatTable_sample _ (by decide) (by decide)
    (by decide))).mpr
    ⟨by decide, fun _ => ⟨2, by decide, by decide, by decide⟩⟩

/-- Two free clusters, and neither is found. -/
theorem allocateCluster_misses_last :
    FatTable (tableSuper 2) (tableSession [endMark, endMark, 0, 0]) ∧
    FreeCluster (tableSuper 2) (tableSession [endMark, endMark, 0, 0]) 2 ∧
    FreeCluster (tableSuper 2) (tableSession [endMark, endMark, 0, 0]) 3 ∧
    ¬ AllocSound (tableSuper 2) (tableSession [endMark, endMark, 0, 0]) := by
  have ht : FatTable (tableSuper 2) (tableSession [endMark, endMark, 0, 0]) :=
    fatTable_sample _ (by decide) (by decide) (by decide)
  have hfree : FreeCluster (tableSuper 2) (tableSession [endMark, endMark, 0, 0]) 2 := by
    decide
  have hcount : dataClusters (tableSuper 2) = 2 := by decide
  have hused : ∀ x < 2, (tableSession [endMark, endMark, 0, 0]).link x ≠ 0 := by decide
  refine ⟨ht, hfree, by decide, fun h => ?_⟩
  unfold AllocSound at h
  rcases allocateCluster_first ht with ⟨x, s', hx, -, hzero, -⟩ | ⟨-, heq⟩
  · rw [hcount] at hx
    exact hused x hx hzero
  · rw [heq] at h
    exact h.2.2 2 hfree

/-! ## Section 3: The counters of the FS info sector -/

theorem countFreeLoop_card (hsize : s.fatRaw.size < 2 ^ 32) (n i : Nat)
    (hle : 4 * (i + n) ≤ s.fatRaw.size) :
    countFreeLoop s n i = .ok ((Finset.Ico i (i + n)).filter fun c => s.link c = 0).card := by
  induction n generalizing i with
  | zero => rw [countFreeLoop, Nat.add_zero, Finset.Ico_self, Finset.filter_empty, Finset.card_empty]
  | succ n ih =>
    have hnext := Session.nextClusterInFile_link (N := i) (by omega) hsize
    have hrest := ih (i + 1) (by omega)
    have hnot : i ∉ (Finset.Ico (i + 1) (i + 1 + n)).filter fun c => s.link c = 0 := by
      simp
    have hsplit : Finset.Ico i (i + (n + 1)) = insert i (Finset.Ico (i + 1) (i + 1 + n)) := by
      ext c
      simp only [Finset.mem_insert, Finset.mem_Ico]
      omega
    rw [countFreeLoop, hnext, hrest, hsplit, Finset.filter_insert]
    show Except.ok (if s.link i = 0 then _ else _) = _
    split
    · rw [Finset.card_insert_of_notMem hnot]
    · rfl

/-- The indices that `NumFreeClusters` counts. -/
def countedCount (s : Session) : Nat :=
  ((Finset.range (s.fatRaw.size / 4)).filter fun c => s.link c = 0).card

theorem numFreeClusters_eq (hsize : s.fatRaw.size < 2 ^ 32) :
    numFreeClusters s = .ok (countedCount s) := by
  have hcount := countFreeLoop_card hsize (s.fatRaw.size / 4) 0 (by omega)
  have hle := Finset.card_filter_le (Finset.range (s.fatRaw.size / 4)) fun c => s.link c = 0
  rw [Finset.card_range] at hle
  rw [Nat.zero_add, ← Finset.range_eq_Ico] at hcount
  unfold numFreeClusters
  rw [hcount]
  show Except.ok (u32 (countedCount s)) = _
  rw [u32_of_lt (by unfold countedCount; omega)]

/-- The counted entries are the free clusters exactly if no other entry is zero. -/
theorem countedCount_eq_iff (ht : FatTable super s) :
    countedCount s = freeCount super s ↔ s.link 0 ≠ 0 ∧ s.link 1 ≠ 0 ∧
      ∀ y, dataClusters super + 2 ≤ y → y < s.fatRaw.size / 4 → s.link y ≠ 0 := by
  have hentries := ht.entries
  have hsub : ((Finset.Ico 2 (dataClusters super + 2)).filter fun c => s.link c = 0) ⊆
      (Finset.range (s.fatRaw.size / 4)).filter fun c => s.link c = 0 := by
    intro c hc
    simp only [Finset.mem_filter, Finset.mem_Ico, Finset.mem_range] at hc ⊢
    exact ⟨by omega, hc.2⟩
  constructor
  · intro heq
    -- equal numbers, so every zero entry belongs to a data cluster
    have hall := Finset.eq_of_subset_of_card_le hsub (Nat.le_of_eq heq)
    have hin : ∀ c, c < s.fatRaw.size / 4 → s.link c = 0 → 2 ≤ c ∧ c < dataClusters super + 2 := by
      intro c hc hzero
      have hmem : c ∈ (Finset.range (s.fatRaw.size / 4)).filter fun c => s.link c = 0 := by
        simp only [Finset.mem_filter, Finset.mem_range]
        exact ⟨hc, hzero⟩
      rw [← hall] at hmem
      simp only [Finset.mem_filter, Finset.mem_Ico] at hmem
      exact hmem.1
    refine ⟨fun hzero => ?_, fun hzero => ?_, fun y hy hlt hzero => ?_⟩
    · have := hin 0 (by omega) hzero
      omega
    · have := hin 1 (by omega) hzero
      omega
    · have := hin y hlt hzero
      omega
  · rintro ⟨h0, h1, hrest⟩
    refine congrArg Finset.card (Finset.Subset.antisymm (fun c hc => ?_) hsub)
    simp only [Finset.mem_filter, Finset.mem_Ico, Finset.mem_range] at hc ⊢
    obtain ⟨hlt, hzero⟩ := hc
    have hne0 : c ≠ 0 := fun h => h0 (h ▸ hzero)
    have hne1 : c ≠ 1 := fun h => h1 (h ▸ hzero)
    refine ⟨⟨by omega, ?_⟩, hzero⟩
    by_contra hge
    exact hrest c (by omega) hlt hzero

/-- Where `WriteToImage` puts the FS info sector. -/
def fsInfoOffset (super : FatSuper) : Nat :=
  u64OfInt (i32 (super.fsInfoIndex * super.bytesPerSector))

def storedCount (super : FatSuper) (f : ByteVec) : Nat :=
  f.bytes.readLE (fsInfoOffset super + 488) 4

def storedHint (super : FatSuper) (f : ByteVec) : Nat :=
  f.bytes.readLE (fsInfoOffset super + 492) 4

/-- What the two numbers are meant to say. -/
def CountersTrue (super : FatSuper) (s : Session) (f : ByteVec) : Prop :=
  storedCount super f = freeCount super s ∧
    (storedHint super f = noCluster ∨ FreeCluster super s (storedHint super f))

theorem writeFats_frame {n : Nat} {offset : Int} (h : writeFats n offset s = .ok () s') :
    s'.fatRaw = s.fatRaw ∧ s'.fsinfo = s.fsinfo := by
  induction n generalizing s offset with
  | zero =>
    obtain ⟨-, rfl⟩ := pure_eq_ok.mp h
    exact ⟨rfl, rfl⟩
  | succ n ih =>
    unfold writeFats at h
    obtain ⟨s₀, s₁, hget, h⟩ := bind_eq_ok.mp h
    obtain ⟨rfl, rfl⟩ : s = s₀ ∧ s = s₁ := EStateM.Result.ok.inj hget
    obtain ⟨_, s₂, hwrite, hrest⟩ := bind_eq_ok.mp h
    obtain ⟨hraw, hinfo⟩ := ih hrest
    unfold writeFile at hwrite
    split at hwrite
    · cases hwrite
      exact ⟨hraw, hinfo⟩
    · cases hwrite

/-- A write that goes through is there afterwards. -/
theorem writeFile_bytes {offset : Nat} {d : Bytes} (hd : d ≠ [])
    (h : writeFile offset d s = .ok () s') :
    s'.file.bytes = s.file.bytes.write offset d := by
  unfold writeFile ByteVec.writeAt at h
  rw [if_neg hd] at h
  split at h
  · next hwrite =>
    split at hwrite
    · cases hwrite
    · cases hwrite
      cases h
      rfl
  · cases h

/-- The FS info sector with the two numbers in it. -/
def countedSector (fsinfo : Bytes) (next free : Nat) : Bytes :=
  splice (splice fsinfo 492 (leBytes 4 next)) 488 (leBytes 4 free)

theorem countedSector_spec {fsinfo : Bytes} (hlen : fsinfo.length = 512) (next free : Nat) :
    (countedSector fsinfo next free).length = 512 ∧
      slice (countedSector fsinfo next free) 488 4 = leBytes 4 free ∧
      slice (countedSector fsinfo next free) 492 4 = leBytes 4 next := by
  have hfour : ∀ n, (leBytes 4 n).length = 4 := length_leBytes 4
  have h₁ : (splice fsinfo 492 (leBytes 4 next)).length = 512 := by
    rw [length_splice, hlen]
    rw [hfour, hlen]
    omega
  unfold countedSector
  refine ⟨?_, ?_, ?_⟩
  · rw [length_splice (by rw [hfour]; omega), h₁]
  · exact FatDirent.window_splice_same (hfour free) (by omega)
  · rw [slice_splice_after (by rw [hfour]; omega) (by rw [hfour])]
    exact FatDirent.window_splice_same (hfour next) (by omega)

/-- What `WriteToImage` writes last. -/
theorem writeToImage_fsInfo (hinfo : s.fsinfo.length = 512)
    (h : writeToImage super s = .ok () s') :
    ∃ s₁ next free, s₁.fatRaw = s.fatRaw ∧ findFreeCluster super s₁ = .ok next ∧
      numFreeClusters s₁ = .ok free ∧ s'.file.bytes =
        s₁.file.bytes.write (fsInfoOffset super) (countedSector s.fsinfo next free) := by
  unfold writeToImage at h
  -- the FATs first, which leave the table and the sector alone
  obtain ⟨_, s₁, hfats, h⟩ := bind_eq_ok.mp h
  obtain ⟨hraw, hfs⟩ := writeFats_frame hfats
  obtain ⟨next, s₂, hreadNext, h⟩ := bind_eq_ok.mp h
  obtain ⟨hnext, hs₂⟩ := Session.reading_eq_ok.mp hreadNext
  obtain rfl := hs₂.symm
  obtain ⟨free, s₃, hreadFree, h⟩ := bind_eq_ok.mp h
  obtain ⟨hfree, hs₃⟩ := Session.reading_eq_ok.mp hreadFree
  obtain rfl := hs₃.symm
  obtain ⟨s₄, s₅, hget, h⟩ := bind_eq_ok.mp h
  obtain ⟨rfl, rfl⟩ := EStateM.Result.ok.inj hget
  obtain ⟨_, s₆, hmod, h⟩ := bind_eq_ok.mp h
  obtain rfl := (EStateM.Result.ok.inj hmod).2
  have hlen := (countedSector_spec hinfo next free).1
  refine ⟨_, next, free, hraw, hnext, hfree, ?_⟩
  rw [← hfs] at hlen ⊢
  have hne : countedSector s₁.fsinfo next free ≠ [] := List.ne_nil_of_length_pos (by omega)
  have hbytes := writeFile_bytes hne h
  exact hbytes

/-- The two numbers that are in the image then. -/
theorem writeToImage_counters (ht : FatTable super s) (hinfo : s.fsinfo.length = 512)
    (h : writeToImage super s = .ok () s') :
    storedCount super s'.file = countedCount s ∧
      (storedHint super s'.file = noCluster ∨
        storedHint super s'.file < dataClusters super ∧ s.link (storedHint super s'.file) = 0) := by
  obtain ⟨s₁, next, free, hraw, hnext, hfree, hbytes⟩ := writeToImage_fsInfo hinfo h
  obtain ⟨hlen, h488, h492⟩ := countedSector_spec hinfo next free
  have hlink : s₁.link = s.link := by
    funext c
    rw [Session.link, hraw, Session.link]
  have ht₁ : FatTable super s₁ :=
    ⟨ht.sectorsPerCluster_pos, ht.area, hraw ▸ ht.entries, hraw ▸ ht.size_lt⟩
  have hsize := ht.size_lt
  have hentries := ht.entries
  have hcount : free = countedCount s := by
    rw [numFreeClusters_eq ht₁.size_lt] at hfree
    obtain rfl := Except.ok.inj hfree
    unfold countedCount
    rw [hlink, hraw]
  have hcount_lt : free < 256 ^ 4 := by
    have hle := Finset.card_filter_le (Finset.range (s.fatRaw.size / 4)) fun c => s.link c = 0
    rw [Finset.card_range] at hle
    rw [hcount, countedCount]
    omega
  -- the hint is the first zero entry that was searched
  have hfound : next = noCluster ∨ next < dataClusters super ∧ s.link next = 0 := by
    rcases findFreeCluster_first ht₁ with ⟨x, hx, hzero, -, heq⟩ | ⟨-, heq⟩
    · obtain rfl := Except.ok.inj (hnext.symm.trans heq)
      exact .inr ⟨hx, hlink ▸ hzero⟩
    · exact .inl (Except.ok.inj (hnext.symm.trans heq))
  have hnext_lt : next < 256 ^ 4 := by
    rcases hfound with rfl | ⟨hlt, -⟩
    · decide
    · omega
  -- the sector is written last, so it is read back
  have hread : ∀ o, o + 4 ≤ 512 → s'.file.bytes.readLE (fsInfoOffset super + o) 4 =
      leNat (slice (countedSector s.fsinfo next free) o 4) := by
    intro o ho
    have hsame := Store.read_write_same s₁.file.bytes (fsInfoOffset super)
      (countedSector s.fsinfo next free)
    rw [hlen] at hsame
    rw [Store.readLE, hbytes, ← Store.slice_read _ ho, hsame]
  refine ⟨?_, ?_⟩
  · rw [storedCount, hread 488 (by decide), h488, leNat_leBytes_of_lt hcount_lt, hcount]
  · rw [storedHint, hread 492 (by decide), h492, leNat_leBytes_of_lt hnext_lt]
    exact hfound

/-- **Where the counters are true**: exactly if no entry is zero but those of
    data clusters. -/
theorem writeToImage_counters_iff (ht : FatTable super s) (hinfo : s.fsinfo.length = 512)
    (h : writeToImage super s = .ok () s') :
    CountersTrue super s s'.file ↔ s.link 0 ≠ 0 ∧ s.link 1 ≠ 0 ∧
      ∀ y, dataClusters super + 2 ≤ y → y < s.fatRaw.size / 4 → s.link y ≠ 0 := by
  obtain ⟨hcount, hhint⟩ := writeToImage_counters ht hinfo h
  unfold CountersTrue
  rw [hcount, countedCount_eq_iff ht]
  constructor
  · rintro ⟨hrest, -⟩
    exact hrest
  · rintro ⟨h0, h1, hpad⟩
    refine ⟨⟨h0, h1, hpad⟩, ?_⟩
    rcases hhint with hnone | ⟨hlt, hzero⟩
    · exact .inl hnone
    · have hne0 : storedHint super s'.file ≠ 0 := fun heq => h0 (heq ▸ hzero)
      have hne1 : storedHint super s'.file ≠ 1 := fun heq => h1 (heq ▸ hzero)
      exact .inr ⟨by omega, by omega, hzero⟩

/-- Three clusters of which one is free, and no free entry behind them. -/
def paddedEntries : List Nat := [endMark, endMark, 0] ++ List.replicate 125 endMark

theorem fatTable_three (entries : List Nat) : FatTable (tableSuper 3) (tableSession entries) :=
  fatTable_sample _ (by decide) (by decide) (by decide)

/-- Writing back `s` goes through. -/
def writesBack (super : FatSuper) (s : Session) : Bool :=
  match writeToImage super s with
  | .ok _ _ => true
  | .error _ _ => false

theorem exists_writeToImage (h : writesBack super s = true) :
    ∃ s', writeToImage super s = .ok () s' := by
  unfold writesBack at h
  split at h
  · next s' heq => exact ⟨s', heq⟩
  · cases h

set_option maxRecDepth 3000

theorem writeToImage_counters_padded :
    ∃ s', writeToImage (tableSuper 3) (tableSession paddedEntries) = .ok () s' ∧
      CountersTrue (tableSuper 3) (tableSession paddedEntries) s'.file := by
  obtain ⟨s', hrun⟩ := exists_writeToImage
    (show writesBack (tableSuper 3) (tableSession paddedEntries) = true by decide)
  have hcount : dataClusters (tableSuper 3) = 3 := by decide
  have hrest : ∀ y < 128, 5 ≤ y → (tableSession paddedEntries).link y ≠ 0 := by
    intro y hy h5
    have hentry : paddedEntries[y]? = some endMark := by
      unfold paddedEntries
      rw [List.getElem?_append_right (show 3 ≤ y by omega)]
      exact List.getElem?_replicate_of_lt (show y - 3 < 125 by omega)
    rw [link_tableSession hentry]
    decide
  refine ⟨s', hrun, (writeToImage_counters_iff (fatTable_three _) List.length_replicate hrun).mpr
    ⟨by decide, by decide, fun y hy hlt => hrest y hlt ?_⟩⟩
  rw [hcount] at hy
  exact hy

/-- The three clusters are used, but the FAT has 123 entries more. -/
theorem writeToImage_counts_padding :
    ∃ s', writeToImage (tableSuper 3) (tableSession (List.replicate 5 endMark)) = .ok () s' ∧
      storedCount (tableSuper 3) s'.file = 123 ∧
      freeCount (tableSuper 3) (tableSession (List.replicate 5 endMark)) = 0 ∧
      ¬ CountersTrue (tableSuper 3) (tableSession (List.replicate 5 endMark)) s'.file := by
  obtain ⟨s', hrun⟩ := exists_writeToImage
    (show writesBack (tableSuper 3) (tableSession (List.replicate 5 endMark)) = true by
      decide)
  obtain ⟨hstored, -⟩ := writeToImage_counters (fatTable_three _) List.length_replicate hrun
  have hcounted : countedCount (tableSession (List.replicate 5 endMark)) = 123 := by
    decide
  have hfree : freeCount (tableSuper 3) (tableSession (List.replicate 5 endMark)) = 0 := by
    decide
  rw [hcounted] at hstored
  refine ⟨s', hrun, hstored, hfree, fun h => ?_⟩
  rw [CountersTrue, hstored, hfree] at h
  exact absurd h.1 (by decide)

end Hausboot.FatEdit

import Hausboot.FatEdit.Streams

/-! # The fatedit Tool: Reading from any Cluster Number

    `FileReader` does not look at the cluster number it is given. A `Trail` is
    what it finds from there on: the bytes at the address that the code
    computes, and further clusters as far as the links in the FAT go. On the
    chains of a volume these are the contents (`Trail.of_chain`), however large
    the volume is, as long as the clusters start below 4 GiB. Cluster number 0
    has the address of cluster 2 and a link of its own (`trail_zero`). -/

open ByteLib Prog

namespace Hausboot.FatEdit

open FatDirent Session

variable {super : FatSuper} {s : Session}

/-! ## Section 1: Trails -/

/-- The bytes at the address of a cluster number. -/
def bytesAt (super : FatSuper) (s : Session) (c : Nat) : Bytes :=
  s.file.bytes.read (clusterFileOffset super c) (bytesPerCluster super)

/-- They lie inside the image. -/
def InImage (super : FatSuper) (s : Session) (c : Nat) : Prop :=
  clusterFileOffset super c + bytesPerCluster super ≤ s.file.size

/-- From cluster number `c` on, a reader finds the bytes `d`. -/
inductive Trail (super : FatSuper) (s : Session) : Nat → Bytes → Prop where
  | last {c e : Nat} : InImage super s c → nextClusterInFile s c = .ok e →
      e < 2 ∨ endMark ≤ e → Trail super s c (bytesAt super s c)
  | more {c e : Nat} {d : Bytes} : InImage super s c → nextClusterInFile s c = .ok e →
      2 ≤ e → e < endMark → Trail super s e d → Trail super s c (bytesAt super s c ++ d)

/-- A trail begins with a whole cluster. -/
theorem Trail.front {c : Nat} {t : Bytes} (h : Trail super s c t) :
    InImage super s c ∧ ∃ rest, t = bytesAt super s c ++ rest := by
  cases h with
  | last hin _ _ => exact ⟨hin, [], (List.append_nil _).symm⟩
  | more hin _ _ _ _ => exact ⟨hin, _, rfl⟩

theorem length_bytesAt (super : FatSuper) (s : Session) (c : Nat) :
    (bytesAt super s c).length = bytesPerCluster super :=
  Store.length_read _ _ _

/-! ## Section 2: Readers on a trail -/

/-- What a reader still delivers. -/
inductive Remains (super : FatSuper) (s : Session) : FileReader → Bytes → Prop where
  | done {rd : FileReader} : rd.size = 0 → Remains super s rd []
  | onTrail {rd : FileReader} {t : Bytes} : Trail super s rd.cluster t →
      rd.offset ≤ bytesPerCluster super → Remains super s rd ((t.drop rd.offset).take rd.size)

/-- The count of what has been read does not matter. -/
theorem Remains.congr {rd rd' : FileReader} {d : Bytes} (h : Remains super s rd d)
    (hcluster : rd'.cluster = rd.cluster) (hoffset : rd'.offset = rd.offset)
    (hsize : rd'.size = rd.size) : Remains super s rd' d := by
  cases h with
  | done hzero => exact .done (hsize.trans hzero)
  | onTrail ht hoff =>
    rw [← hoffset, ← hsize]
    exact .onTrail (hcluster ▸ ht) (hoffset ▸ hoff)

/-- The top of the loop of `Read`. -/
theorem advance_trail (hpos : 0 < bytesPerCluster super) {rd : FileReader} {d : Bytes}
    (h : Remains super s rd d) :
    ∃ rd', rd.advance super s = .ok rd' ∧
      ((d = [] ∧ rd'.size = 0) ∨
      ∃ t, 0 < rd'.dataLeftInCluster super ∧ rd'.offset ≤ bytesPerCluster super ∧
        Trail super s rd'.cluster t ∧ d = (t.drop rd'.offset).take rd'.size) := by
  rw [FileReader.advance]
  by_cases hleft : rd.dataLeftInCluster super = 0
  swap
  · rw [if_neg hleft]
    cases h with
    | done hsize =>
      rw [dataLeft_eq] at hleft
      omega
    | onTrail ht hoff => exact ⟨rd, rfl, .inr ⟨_, Nat.pos_of_ne_zero hleft, hoff, ht, rfl⟩⟩
  rw [if_pos hleft, FileReader.nextCluster]
  rw [dataLeft_eq] at hleft
  by_cases hsize : rd.size = 0
  · rw [if_pos hsize]
    cases h with
    | done _ => exact ⟨_, rfl, .inl ⟨rfl, hsize⟩⟩
    | onTrail _ _ => exact ⟨_, rfl, .inl ⟨by rw [hsize, List.take_zero], hsize⟩⟩
  rw [if_neg hsize]
  cases h with
  | done hzero => exact absurd hzero hsize
  | @onTrail t ht hoff =>
    -- the current cluster has been read to its end
    have hfull : rd.offset = bytesPerCluster super := by omega
    have hlen := length_bytesAt super s rd.cluster
    cases ht with
    | @last _ e _ hnext hend =>
      rw [hnext]
      refine ⟨_, if_pos (by simpa using hend), .inl ⟨?_, rfl⟩⟩
      rw [List.drop_eq_nil_of_le (by omega), List.take_nil]
    | @more _ e d _ hnext h2 hlt hrest =>
      rw [hnext]
      refine ⟨{ rd with offset := 0, cluster := e },
        if_neg (by simp only [Bool.or_eq_true, decide_eq_true_eq]; omega),
        .inr ⟨d, ?_, Nat.zero_le _, hrest, ?_⟩⟩
      · rw [dataLeft_eq]
        show 0 < min (bytesPerCluster super - 0) rd.size
        omega
      · rw [hfull, ← hlen, List.drop_left]
        rfl

theorem readLoop_trail (hpos : 0 < bytesPerCluster super) {rd : FileReader} {d : Bytes}
    (h : Remains super s rd d) (n size : Nat) (out : Bytes) (hfuel : size ≤ n) :
    ∃ rd', rd.readLoop super s n size out = .ok (out ++ d.take size, rd') ∧
      Remains super s rd' (d.drop size) := by
  induction n generalizing rd d size out with
  | zero =>
    obtain rfl : size = 0 := by omega
    exact ⟨rd, by rw [FileReader.readLoop, List.take_zero, List.append_nil], h⟩
  | succ n ih =>
    by_cases hsize : size = 0
    · subst hsize
      exact ⟨rd, by rw [FileReader.readLoop, if_pos rfl, List.take_zero, List.append_nil], h⟩
    obtain ⟨rd₁, hadv, ⟨rfl, hzero⟩ | ⟨t, hleft, hoff, ht, rfl⟩⟩ := advance_trail hpos h
    · -- nothing is left
      refine ⟨rd₁, ?_, by rw [List.drop_nil]; exact .done hzero⟩
      rw [FileReader.readLoop, if_neg hsize, hadv, List.take_nil, List.append_nil]
      exact if_pos (by rw [dataLeft_eq]; omega)
    · obtain ⟨hin, rest, rfl⟩ := ht.front
      have hlt := bytesPerCluster_lt super
      have hoffset : clusterFileOffset super rd₁.cluster < 2 ^ 32 := u32_lt _
      have hlen := length_bytesAt super s rd₁.cluster
      rw [dataLeft_eq] at hleft
      generalize hdiff : min (rd₁.dataLeftInCluster super) size = diff
      have hd := hdiff
      rw [dataLeft_eq] at hd
      unfold InImage at hin
      have hread : s.file.readAt (clusterFileOffset super rd₁.cluster + rd₁.offset) diff =
          .ok (slice (bytesAt super s rd₁.cluster) rd₁.offset diff) := by
        rw [bytesAt, Store.slice_read _ (by omega), ByteVec.readAt, if_neg (by omega),
          if_neg (by omega), if_pos (by omega)]
      -- what is read now, and what is left for later
      have hnow : slice (bytesAt super s rd₁.cluster) rd₁.offset diff =
          (((bytesAt super s rd₁.cluster ++ rest).drop rd₁.offset).take rd₁.size).take diff := by
        rw [List.drop_append_of_le_length (by omega), List.take_take, Nat.min_eq_left (by omega),
          List.take_append_of_le_length (by rw [List.length_drop]; omega), slice]
      have hnext : Remains super s
          { rd₁ with offset := u32 (rd₁.offset + diff), size := rd₁.size - diff }
          ((((bytesAt super s rd₁.cluster ++ rest).drop rd₁.offset).take rd₁.size).drop diff) := by
        rw [List.drop_take, List.drop_drop, u32_of_lt (n := rd₁.offset + diff) (by omega)]
        have hin' : rd₁.offset + diff ≤ bytesPerCluster super := by omega
        exact @Remains.onTrail _ _
          { rd₁ with offset := rd₁.offset + diff, size := rd₁.size - diff } _ ht hin'
      obtain ⟨rd', hloop, hrem⟩ := ih hnext (size - diff)
        (out ++ slice (bytesAt super s rd₁.cluster) rd₁.offset diff) (by omega)
      refine ⟨rd', ?_, ?_⟩
      · rw [FileReader.readLoop, if_neg hsize, hadv]
        show (if rd₁.dataLeftInCluster super = 0 then _ else _) = _
        rw [if_neg (by rw [dataLeft_eq]; omega), hdiff, hread]
        show FileReader.readLoop super s n _ _ _ = _
        rw [hloop, List.append_assoc, hnow, ← List.take_add, Nat.add_sub_cancel' (by omega)]
      · rw [List.drop_drop, Nat.add_sub_cancel' (by omega)] at hrem
        exact hrem

/-- A directory reader on a trail. -/
theorem Streams.of_trail (hpos : 0 < bytesPerCluster super) {c : Nat} {d : Bytes}
    (ht : Trail super s c d) (hlen : d.length < 2 ^ 32) : Streams super s (dirReader c) d := by
  have hstep : ∀ k (rd : FileReader) (d : Bytes), Remains super s rd d →
      ∃ rd', readEach super s rd (List.replicate k sizeof) =
        .ok (pieces d (List.replicate k sizeof), rd') := by
    intro k
    induction k with
    | zero => exact fun rd _ _ => ⟨rd, rfl⟩
    | succ k ih =>
      intro rd d h
      obtain ⟨rd₁, hloop, hrem⟩ := readLoop_trail hpos h sizeof sizeof [] (Nat.le_refl _)
      have hread : rd.read super s sizeof =
          .ok (d.take sizeof, { rd₁ with totalRead := rd₁.totalRead + (d.take sizeof).length }) := by
        rw [FileReader.read, hloop]
        rfl
      have hrem' : Remains super s
          { rd₁ with totalRead := rd₁.totalRead + (d.take sizeof).length } (d.drop sizeof) :=
        hrem.congr rfl rfl rfl
      obtain ⟨rd', hreads⟩ := ih _ _ hrem'
      exact ⟨rd', readEach_cons_ok.mpr ⟨_, _, _, hread, hreads, rfl⟩⟩
  have hrem : Remains super s (dirReader c) ((d.drop 0).take 0xFFFFFFFF) :=
    @Remains.onTrail _ _ (dirReader c) _ ht (Nat.zero_le _)
  rw [List.drop_zero, List.take_of_length_le (by omega)] at hrem
  exact fun k => hstep k _ _ hrem

/-! ## Section 3: Trails on a volume -/

/-- A session on a volume of any size: all its clusters are in the image, and
    the FAT in memory has an entry for each. -/
structure Session.Loaded (super : FatSuper) (s : Session) : Prop where
  describes : super.Describes
  bytesPerSector_pos : 0 < super.bytesPerSector
  fits : super.sectorCount * super.bytesPerSector ≤ s.file.size
  entries : dataClusters super + 2 ≤ fatEntries super
  table : 4 * (dataClusters super + 2) ≤ s.fatRaw.size
  table_lt : s.fatRaw.size < 2 ^ 32

namespace Session.Loaded

theorem bytesPerCluster_pos (hs : s.Loaded super) : 0 < bytesPerCluster super :=
  Nat.mul_pos hs.describes.sectorsPerCluster_pos hs.bytesPerSector_pos

theorem next_eq (hs : s.Loaded super) {c : Nat} (hc : c < dataClusters super + 2) :
    nextClusterInFile s c = .ok ((memView super s).next c) := by
  have htable := hs.table
  rw [next_eq_link (hc.trans_le hs.entries)]
  exact nextClusterInFile_link (by omega) hs.table_lt

theorem holds (hs : s.Loaded super) : super.Holds (dataClusters super) := by
  rw [Layout.dataClusters_eq]
  exact hs.describes.holds

theorem inImage (hs : s.Loaded super) {c : Nat} (hc : (memView super s).Valid c)
    (hlow : clusterOffset super c < 2 ^ 32) : InImage super s c := by
  have hend := hs.holds.sector_lt hc.2 hc.1
    (show super.sectorsPerCluster - 1 < _ from Nat.sub_lt hs.describes.sectorsPerCluster_pos
      Nat.one_pos)
  have hpos := hs.describes.sectorsPerCluster_pos
  unfold InImage
  rw [clusterFileOffset_eq_u32 hs.holds hc.1 hc.2, u32_of_lt hlow]
  calc clusterOffset super c + bytesPerCluster super
      = (super.firstSector + (c - 2) * super.sectorsPerCluster + super.sectorsPerCluster) *
          super.bytesPerSector := by
        rw [clusterOffset, bytesPerCluster]
        ring
    _ ≤ super.sectorCount * super.bytesPerSector := Nat.mul_le_mul_right _ (by omega)
    _ ≤ s.file.size := hs.fits

theorem bytesAt_eq (hs : s.Loaded super) {c : Nat} (hc : (memView super s).Valid c)
    (hlow : clusterOffset super c < 2 ^ 32) : bytesAt super s c = (memView super s).data c := by
  have hdata : (memView super s).data c = s.file.bytes.read
      (dataStart super + (c - 2) * bytesPerCluster super) (bytesPerCluster super) :=
    if_neg (by have := hc.1; omega)
  rw [bytesAt, hdata, clusterFileOffset_eq_u32 hs.holds hc.1 hc.2, u32_of_lt hlow,
    Layout.clusterOffset_eq]

end Session.Loaded

/-- **The chains of a volume are trails**, as long as the clusters start below
    4 GiB. -/
theorem Trail.of_chain (hs : s.Loaded super) {c : Nat} {l : List Nat}
    (hch : (memView super s).Chain c l) (hne : l ≠ [])
    (hlow : ∀ x ∈ l, clusterOffset super x < 2 ^ 32) :
    Trail super s c ((memView super s).content l) := by
  induction hch with
  | done _ => exact absurd rfl hne
  | @link c l _ hvalid hrest ih =>
    have hc := hlow c List.mem_cons_self
    have hnext := hs.next_eq hvalid.2
    rw [Vol.content_cons, ← hs.bytesAt_eq hvalid hc]
    cases hrest with
    | done hend =>
      rw [Vol.content_nil, List.append_nil]
      exact .last (hs.inImage hvalid hc) hnext (.inr hend)
    | link hns hok hmore =>
      exact .more (hs.inImage hvalid hc) hnext hok.1 (Nat.lt_of_not_le hns)
        (ih (List.cons_ne_nil _ _) fun x hx => hlow x (List.mem_cons_of_mem _ hx))

/-- Cluster number 0 has the address of cluster 2. -/
theorem clusterFileOffset_zero (super : FatSuper) :
    clusterFileOffset super 0 = clusterFileOffset super 2 := rfl

/-- **What stands behind cluster number 0**: where the entry 0 of the FAT is an
    end mark, the first cluster of the data area and nothing else. -/
theorem trail_zero (hs : s.Loaded super) (hv : (memView super s).Valid 2)
    (hlow : clusterOffset super 2 < 2 ^ 32) (hend : endMark ≤ (memView super s).next 0) :
    Trail super s 0 ((memView super s).data 2) := by
  have hbytes : bytesAt super s 0 = (memView super s).data 2 := by
    rw [← hs.bytesAt_eq hv hlow, bytesAt, bytesAt, clusterFileOffset_zero]
  have hin : InImage super s 0 := by
    unfold InImage
    rw [clusterFileOffset_zero]
    exact hs.inImage hv hlow
  rw [← hbytes]
  exact .last hin (hs.next_eq (by omega)) (.inr hend)

end Hausboot.FatEdit

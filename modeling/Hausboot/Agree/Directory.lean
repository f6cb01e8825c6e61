import Hausboot.Agree.Image
import Hausboot.Agree.Listed
import Hausboot.FatFs.Paths

/-! # Loader and Tool: Directory Lookup

    `FindInDirectory` of stage2 and `ScanDirectory` of `fatedit` read the same
    directory in two ways: whole clusters, skipping the records of long names
    one by one, and a stream of records in which long names are parsed. Where
    `fatedit` accepts a directory, both find the same entries, unless the
    directory lies behind 4 GiB or runs in a circle. -/

open ByteLib ChainLib Prog

namespace Hausboot

open FatEdit (ByteVec Session DirEntry FileReader Listed Reads lit sparseFile smallSuper fsInfoParts)

/-! ## Section 1: The chain of a directory -/

def DataCluster (image : ByteVec) (c : Nat) : Prop :=
  2 ≤ c ∧ c < (imageSuper image).clusterCount + 2

/-- From `c` on, the chain visits the data clusters `l` and gets to `d`. -/
abbrev Walk (image : ByteVec) (c : Nat) (l : List Nat) (d : Nat) : Prop :=
  Segment (imageVolume image).fatEntry (DataCluster image) c l d

/-- Every cluster of the chain has an entry in the FAT with a zero top nibble,
    which is a data cluster or an end mark. -/
structure ProperChain (image : ByteVec) (c : Nat) : Prop where
  start : DataCluster image c
  entries : ∀ l d, Walk image c l d → DataCluster image d →
    (imageVolume image).InTable d ∧ (imageVolume image).fatEntry d < 2 ^ 28 ∧
    (DataCluster image ((imageVolume image).fatEntry d) ∨
      endMark ≤ (imageVolume image).fatEntry d)

/-- In front of the terminator, the clusters of the directory start below 4 GiB
    and there are less than 4 GiB of records. -/
structure SmallDirectory (image : ByteVec) (c : Nat) : Prop where
  starts : ∀ l d, Walk image c l d → DataCluster image d →
    NoTerminator (l.flatMap (imageVolume image).records) →
    FatEdit.clusterOffset (imageSuper image) d < 2 ^ 32
  records : ∀ l d rs, Walk image c l d → l.Nodup →
    rs <+: l.flatMap (imageVolume image).records → NoTerminator rs →
    FatDirent.sizeof * rs.length < 2 ^ 32

section Image

variable {image : ByteVec} {s : Session} {start : Nat}

/-- The clusters that start below 4 GiB have small numbers. -/
theorem ImageOk.cluster_lt (h : ImageOk image) {c : Nat}
    (hc : FatEdit.clusterOffset (imageSuper image) c < 2 ^ 32) : c < FatFs.endOfChain := by
  have hpos := h.describes.sectorsPerCluster_pos
  have hmul : c - 2 ≤ (c - 2) * (imageSuper image).sectorsPerCluster :=
    Nat.le_mul_of_pos_right _ hpos
  rw [FatEdit.clusterOffset, h.bytesPerSector] at hc
  rw [FatFs.endOfChain]
  omega

/-- stage2 can walk the chain as well, up to the cluster with the terminator. -/
theorem Walk.follows (h : ImageOk image) (hchain : ProperChain image start)
    (hsmall : SmallDirectory image start) {l : List Nat} {d : Nat} (hwalk : Walk image start l d)
    (hopen : NoTerminator (l.dropLast.flatMap (imageVolume image).records)) :
    Segment (imageVolume image).fatEntry (imageVolume image).Follows start l d := by
  apply hwalk.imp
  intro x hx
  obtain ⟨p, q, rfl⟩ := List.append_of_mem hx
  have hx := hwalk.ok_of_mem hx
  have hp : NoTerminator (p.flatMap (imageVolume image).records) := by
    apply hopen.mono
    intro r hr
    obtain ⟨c, hc, hr⟩ := List.mem_flatMap.mp hr
    rw [List.dropLast_append_of_ne_nil (List.cons_ne_nil _ _)]
    exact List.mem_flatMap.mpr ⟨c, List.mem_append_left _ hc, hr⟩
  refine ⟨h.cluster_lt (hsmall.starts p x hwalk.upTo hx hp), hx.1, ?_⟩
  exact (hchain.entries p x hwalk.upTo hx).1

/-- The number of records in a cluster. -/
def recordCount (image : ByteVec) : Nat := (imageVolume image).bytesPerCluster / FatDirent.sizeof

theorem bytesPerCluster_eq_records (image : ByteVec) :
    (imageVolume image).bytesPerCluster = FatDirent.sizeof * recordCount image := by
  have hbytes : (imageVolume image).bytesPerCluster =
      (imageSuper image).sectorsPerCluster * 512 := rfl
  rw [recordCount, hbytes, show FatDirent.sizeof = 32 from rfl]
  omega

theorem length_records (image : ByteVec) (c : Nat) :
    ((imageVolume image).records c).length = recordCount image := by
  simp [Volume.records, FatFs.recordsIn, recordCount]

theorem take_records (image : ByteVec) (c : Nat) {k : Nat} (hk : k < recordCount image) :
    ((imageVolume image).records c).take (k + 1) = ((imageVolume image).records c).take k ++
      [⟨slice ((imageVolume image).cluster c) (k * FatDirent.sizeof) FatDirent.sizeof⟩] := by
  have hlen := length_records image c
  rw [List.take_succ_eq_append_getElem (by omega)]
  simp [Volume.records, FatFs.recordsIn]

/-! ## Section 2: A reader on the chain -/

/-- The reader has gone over the clusters `l` and over `k` records of its
    current cluster, which are the records `rs`. -/
structure AtRecord (image : ByteVec) (start : Nat) (rs : List FatDirent) (rd : FileReader)
    (l : List Nat) (k : Nat) : Prop where
  walk : Walk image start l rd.cluster
  cluster : DataCluster image rd.cluster
  offset : rd.offset = FatDirent.sizeof * k
  inside : k ≤ recordCount image
  records : rs = l.flatMap (imageVolume image).records ++
    ((imageVolume image).records rd.cluster).take k
  size : rd.size + FatDirent.sizeof * rs.length = 0xFFFFFFFF

/-- `r` comes behind the records `rs` of the directory. -/
def Next (image : ByteVec) (start : Nat) (rs : List FatDirent) (r : FatDirent) : Prop :=
  ∃ l d, Walk image start l d ∧
    l.dropLast.flatMap (imageVolume image).records <+: rs ∧
    rs ++ [r] <+: l.flatMap (imageVolume image).records

/-- The reader has no complete record left: the chain has ended, or its size is
    used up. -/
def OutOfRecords (image : ByteVec) (start : Nat) (rs : List FatDirent) : Prop :=
  (∃ l d, Walk image start l d ∧ endMark ≤ d ∧ rs = l.flatMap (imageVolume image).records) ∨
  ∃ r, Next image start rs r ∧ FatDirent.sizeof * (rs.length + 1) = 2 ^ 32

/-- Only complete records have been taken off the size. -/
theorem AtRecord.size_pos {rs : List FatDirent} {rd : FileReader} {l : List Nat} {k : Nat}
    (hat : AtRecord image start rs rd l k) : 31 ≤ rd.size := by
  have hsize := hat.size
  rw [show FatDirent.sizeof = 32 from rfl] at hsize
  omega

theorem AtRecord.next {rs : List FatDirent} {rd : FileReader} {l : List Nat} {k : Nat}
    (hat : AtRecord image start rs rd l k) (hk : k < recordCount image) :
    Next image start rs ⟨slice ((imageVolume image).cluster rd.cluster)
      (k * FatDirent.sizeof) FatDirent.sizeof⟩ := by
  refine ⟨l ++ [rd.cluster], _, hat.walk.snoc hat.cluster, ?_, ?_⟩
  · rw [List.dropLast_concat, hat.records]
    exact List.prefix_append _ _
  · rw [hat.records, List.append_assoc, ← take_records image _ hk, List.flatMap_append,
      List.flatMap_singleton]
    exact (List.prefix_append_right_inj _).mpr (List.take_prefix _ _)

theorem advance_inv (h : ImageOk image)
    (hload : FatEdit.loadFromImage (imageSuper image) image = .ok s)
    (hchain : ProperChain image start) (hsmall : SmallDirectory image start)
    {rs : List FatDirent} {rd rd' : FileReader} {l : List Nat} {k : Nat}
    (hat : AtRecord image start rs rd l k) (hopen : NoTerminator rs)
    (hadv : rd.advance (imageSuper image) s = .ok rd') :
    rd'.size = 0 ∧ OutOfRecords image start rs ∨
    ∃ l k, AtRecord image start rs rd' l k ∧ k < recordCount image := by
  have hpos := hat.size_pos
  have hbytes := bytesPerCluster_eq_records image
  have hleft : rd.dataLeftInCluster (imageSuper image) =
      min (FatDirent.sizeof * recordCount image - FatDirent.sizeof * k) rd.size := by
    rw [FatEdit.dataLeft_eq, ← h.bytesPerCluster_eq, hbytes, hat.offset]
  have hinside := hat.inside
  rw [show FatDirent.sizeof = 32 from rfl] at hleft
  unfold FileReader.advance at hadv
  by_cases hk : k = recordCount image
  · -- the cluster has been read to its end
    rw [if_pos (by omega)] at hadv
    unfold FileReader.nextCluster at hadv
    rw [if_neg (by omega)] at hadv
    obtain ⟨e, hnext, hadv⟩ := except_bind_eq_ok.mp hadv
    obtain ⟨hin, hlt, hentry⟩ := hchain.entries l rd.cluster hat.walk hat.cluster
    have he : e = (imageVolume image).fatEntry rd.cluster := by
      rw [h.next_eq hload hin hnext, Nat.mod_eq_of_lt hlt]
    have hwalk := hat.walk.snoc hat.cluster
    have hrecords : rs = (l ++ [rd.cluster]).flatMap (imageVolume image).records := by
      rw [hat.records, hk, ← length_records image rd.cluster, List.take_length]
      simp
    rw [← he] at hentry hwalk
    split at hadv
    · next hend =>
      obtain rfl := Except.ok.inj hadv
      simp only [Bool.or_eq_true, decide_eq_true_eq] at hend
      refine .inl ⟨rfl, .inl ⟨_, e, hwalk, ?_, hrecords⟩⟩
      rcases hentry with hdata | hend
      · have hsmall := h.cluster_lt (hsmall.starts _ e hwalk hdata (hrecords ▸ hopen))
        have h2 := hdata.1
        rw [FatFs.endOfChain] at hsmall
        rw [endMark] at hend ⊢
        omega
      · exact hend
    · next hend =>
      obtain rfl := Except.ok.inj hadv
      simp only [Bool.or_eq_true, decide_eq_true_eq, not_or] at hend
      have hsome : 0 < recordCount image := by
        have hcluster := h.bytesPerCluster_pos
        rw [hbytes] at hcluster
        exact Nat.pos_of_mul_pos_left hcluster
      refine .inr ⟨l ++ [rd.cluster], 0, ⟨hwalk, ?_, rfl, Nat.zero_le _, ?_, hat.size⟩, hsome⟩
      · exact hentry.resolve_right (by omega)
      · rw [hrecords, List.take_zero, List.append_nil]
  · rw [if_neg (by omega)] at hadv
    obtain rfl := Except.ok.inj hadv
    exact .inr ⟨l, k, hat, by omega⟩

/-- There is a terminator among the records, which `ScanDirectory` will not
    accept. -/
def Passed (rs : List FatDirent) : Prop := LongNamesFollowed rs ∧ ¬ NoTerminator rs

/-- The reader follows the chain, as long as it has not gone over a
    terminator. -/
def AtDirectory (image : ByteVec) (start : Nat) (rs : List FatDirent) (rd : FileReader) : Prop :=
  (∃ l k, AtRecord image start rs rd l k) ∧
    (∀ pre r, rs = pre ++ [r] → Next image start pre r) ∨
  ∃ pre r rest, rs = pre ++ r :: rest ∧ Passed pre

def DirectoryEnds (image : ByteVec) (start : Nat) (rs : List FatDirent) : Prop :=
  OutOfRecords image start rs ∨ ∃ pre, pre <+: rs ∧ Passed pre

theorem AtRecord.passed {rs : List FatDirent} {rd : FileReader} {l : List Nat} {k : Nat}
    (hat : AtRecord image start rs rd l k)
    (hlong : ∀ l d, Walk image start l d →
      LongNamesFollowed (l.flatMap (imageVolume image).records))
    (hclosed : ¬ NoTerminator rs) : Passed rs := by
  refine ⟨(hlong _ _ (hat.walk.snoc hat.cluster)).of_front ?_, hclosed⟩
  rw [hat.records, List.flatMap_append, List.flatMap_singleton]
  exact (List.prefix_append_right_inj _).mpr (List.take_prefix _ _)

/-- Reading one record on the chain. -/
theorem read_record (h : ImageOk image)
    (hload : FatEdit.loadFromImage (imageSuper image) image = .ok s)
    (hchain : ProperChain image start) (hsmall : SmallDirectory image start)
    {rs : List FatDirent} {rd rd' : FileReader} {raw : Bytes} {l : List Nat} {k : Nat}
    (hat : AtRecord image start rs rd l k) (hopen : NoTerminator rs)
    (hread : rd.read (imageSuper image) s FatDirent.sizeof = .ok (raw, rd')) :
    raw.length = FatDirent.sizeof ∧ (∃ l k, AtRecord image start (rs ++ [⟨raw⟩]) rd' l k) ∧
      Next image start rs ⟨raw⟩ ∨
    raw.length < FatDirent.sizeof ∧ OutOfRecords image start rs := by
  obtain ⟨⟨out, rd₂⟩, hloop, hret⟩ := except_bind_eq_ok.mp hread
  obtain ⟨rfl, rfl⟩ := Prod.mk.inj (Except.ok.inj hret)
  have hlength := FatEdit.length_of_readLoop hloop
  rw [show FatDirent.sizeof = 31 + 1 from rfl] at hloop ⊢
  unfold FileReader.readLoop at hloop
  rw [if_neg (by decide)] at hloop
  obtain ⟨rd₁, hadv, hloop⟩ := except_bind_eq_ok.mp hloop
  rcases advance_inv h hload hchain hsmall hat hopen hadv with
    ⟨hzero, hstop⟩ | ⟨l₁, k₁, hat₁, hk₁⟩
  · rw [if_pos (by rw [FatEdit.dataLeft_eq]; omega)] at hloop
    obtain ⟨rfl, rfl⟩ := Prod.mk.inj (Except.ok.inj hloop)
    exact .inr ⟨by decide, hstop⟩
  have hsize := hat.size
  have hsize₁ := hat₁.size
  have hpos₁ := hat₁.size_pos
  rw [show FatDirent.sizeof = 32 from rfl] at hsize hsize₁
  have hnext := hat₁.next hk₁
  by_cases hlast : rd₁.size < 32
  · -- the size is used up in front of the next record
    refine .inr ⟨?_, .inr ⟨_, hnext, ?_⟩⟩
    · rw [List.length_nil] at hlength
      omega
    · rw [show FatDirent.sizeof = 32 from rfl]
      omega
  left
  have hbytes := bytesPerCluster_eq_records image
  rw [show FatDirent.sizeof = 32 from rfl] at hbytes
  have hoffset : rd₁.offset = 32 * k₁ := hat₁.offset
  have hleft : min (rd₁.dataLeftInCluster (imageSuper image)) (31 + 1) = 32 := by
    rw [FatEdit.dataLeft_eq, ← h.bytesPerCluster_eq, hbytes, hoffset]
    omega
  rw [if_neg (by omega), hleft] at hloop
  obtain ⟨d, hd, hloop⟩ := except_bind_eq_ok.mp hloop
  obtain ⟨rfl, rfl⟩ := Prod.mk.inj (Except.ok.inj hloop)
  have hroom : 32 * k₁ + 32 ≤ FatEdit.bytesPerCluster (imageSuper image) := by
    rw [← h.bytesPerCluster_eq, hbytes]
    omega
  -- the bytes that have been read are the next record
  have hdata : d = slice ((imageVolume image).cluster rd₁.cluster)
      (k₁ * FatDirent.sizeof) FatDirent.sizeof := by
    have hfront : NoTerminator (l₁.flatMap (imageVolume image).records) := by
      apply hopen.mono
      rw [hat₁.records]
      exact List.subset_append_left _ _
    have hstart := hsmall.starts l₁ _ hat₁.walk hat₁.cluster hfront
    have hcluster := h.cluster_eq hat₁.cluster.2 hat₁.cluster.1
    rw [FatEdit.readAt_ok hd, (h.load_spec hload).1,
      FatEdit.clusterFileOffset_eq_u32 h.describes.holds hat₁.cluster.1 hat₁.cluster.2,
      u32_of_lt hstart, hoffset, hcluster, show FatDirent.sizeof = 32 from rfl,
      Nat.mul_comm k₁ 32, Store.slice_read _ hroom]
  have hlen : d.length = 32 := by
    rw [FatEdit.readAt_ok hd, Store.length_read]
  rw [← hdata] at hnext
  refine ⟨hlen, ⟨l₁, k₁ + 1, hat₁.walk, hat₁.cluster, ?_, hk₁, ?_, ?_⟩, hnext⟩
  · have hlt := FatEdit.bytesPerCluster_lt (imageSuper image)
    show u32 (rd₁.offset + 32) = 32 * (k₁ + 1)
    rw [hoffset, u32_of_lt (by omega), Nat.mul_succ]
  · show rs ++ [⟨[] ++ d⟩] = _
    rw [take_records image _ hk₁, ← List.append_assoc, ← hat₁.records, List.nil_append, hdata]
  · show rd₁.size - 32 + 32 * (rs ++ [(⟨[] ++ d⟩ : FatDirent)]).length = _
    rw [List.length_append, List.length_singleton]
    omega

/-- **Reading the directory**: `Read` gives the records of the chain, one after
    the other, until there is no complete one left. -/
theorem reads_directory (h : ImageOk image)
    (hload : FatEdit.loadFromImage (imageSuper image) image = .ok s)
    (hchain : ProperChain image start) (hsmall : SmallDirectory image start)
    (hlong : ∀ l d, Walk image start l d →
      LongNamesFollowed (l.flatMap (imageVolume image).records)) :
    Reads (FatEdit.fileRecords (imageSuper image) s) (AtDirectory image start)
      (DirectoryEnds image start) := by
  intro rs rd raw rd' hat hread
  by_cases hlen : raw.length < FatDirent.sizeof
  · refine .inr ⟨hlen, ?_⟩
    -- a short read: the end of the chain, or a reader that is already past a terminator
    rcases hat with ⟨⟨l, k, hat⟩, hlast⟩ | ⟨pre, r, rest, rfl, hpassed⟩
    · by_cases hopen : NoTerminator rs
      · rcases read_record h hload hchain hsmall hat hopen hread with ⟨hfull, -⟩ | ⟨-, hstop⟩
        · omega
        · exact .inl hstop
      · exact .inr ⟨rs, List.prefix_rfl, hat.passed hlong hopen⟩
    · exact .inr ⟨pre, List.prefix_append _ _, hpassed⟩
  · refine .inl ⟨hlen, ?_⟩
    rcases hat with ⟨⟨l, k, hat⟩, hlast⟩ | ⟨pre, r, rest, rfl, hpassed⟩
    · by_cases hopen : NoTerminator rs
      · rcases read_record h hload hchain hsmall hat hopen hread with ⟨-, hat', hnext⟩ | ⟨hlt, -⟩
        · refine .inl ⟨hat', ?_⟩
          intro pre r heq
          obtain ⟨rfl, hr⟩ := List.append_inj' heq rfl
          rw [← List.singleton_inj.mp hr]
          exact hnext
        · exact absurd hlt hlen
      · exact .inr ⟨rs, ⟨raw⟩, [], rfl, hat.passed hlong hopen⟩
    · -- once past a terminator, the reader stays past it
      exact .inr ⟨pre, r, rest ++ [⟨raw⟩], by simp, hpassed⟩

/-! ## Section 3: The search -/

/-- The answer that the list of entries calls for. -/
def Answers (es : List DirEntry) (name : Bytes) (r : FatFs.FindResult) : Prop :=
  match lookup es name with
  | some e => ∃ out, r = .ok out ∧ SameEntry out e
  | none => r = .noEntry

/-- What `ScanDirectory` has gone over, and why it has stopped there. -/
theorem scan_inv (h : ImageOk image)
    (hload : FatEdit.loadFromImage (imageSuper image) image = .ok s)
    (hchain : ProperChain image start) (hsmall : SmallDirectory image start)
    (hlong : ∀ l d, Walk image start l d →
      LongNamesFollowed (l.flatMap (imageVolume image).records))
    {es : List DirEntry} {total : Nat}
    (hscan : FatEdit.scanDirectory (imageSuper image) s (FatEdit.dirReader start) =
      .ok (es, total)) :
    ∃ rs, Listed rs es ∧ ((∃ r, r.isLastInList = true ∧ Next image start rs r) ∨
      OutOfRecords image start rs) := by
  have hat : AtDirectory image start [] (FatEdit.dirReader start) :=
    .inl ⟨⟨[], 0, .nil _, hchain.start, rfl, Nat.zero_le _, rfl, rfl⟩, by simp⟩
  obtain ⟨rs, hlisted, hstopped⟩ :=
    FatEdit.scanLoop_inv (reads_directory h hload hchain hsmall hlong) hat .nil hscan
  -- the scan stops at a terminator, so it is never past one
  have hnever : ∀ pre, pre <+: rs → ¬ Passed pre := fun pre hpre hpassed =>
    hpassed.2 (noTerminator_of_listed hlisted hpre hpassed.1)
  refine ⟨rs, hlisted, ?_⟩
  rcases hstopped with ⟨r, rd, hr, ⟨-, hnext⟩ | ⟨pre, r', rest, heq, hpassed⟩⟩ |
    hout | ⟨pre, hpre, hpassed⟩
  · exact .inl ⟨r, hr, hnext rs r rfl⟩
  · have hpre : pre <+: rs ++ [r] := heq ▸ List.prefix_append _ _
    have hlen := congrArg List.length heq
    simp only [List.length_append, List.length_cons, List.length_nil] at hlen
    exact absurd hpassed
      (hnever pre (List.prefix_of_prefix_length_le hpre (List.prefix_append _ _) (by omega)))
  · exact .inr hout
  · exact absurd hpassed (hnever pre hpre)

/-- A directory that uses up the size of the reader runs in a circle. -/
theorem endless_of_full (h : ImageOk image) (hchain : ProperChain image start)
    (hsmall : SmallDirectory image start) {rs : List FatDirent} {r : FatDirent}
    (hnext : Next image start rs r) (hopen : NoTerminator (rs ++ [r]))
    (hfull : FatDirent.sizeof * (rs.length + 1) = 2 ^ 32) {name buffer b : Bytes}
    (hmore : FatFs.findEntry name buffer rs = .more b) :
    (imageVolume image).Endless name buffer start := by
  obtain ⟨l, d, hwalk, -, hpre⟩ := hnext
  -- no walk without a circle gets over so many records
  have hbound : ∀ p x, Walk image start p x → p.Nodup →
      ¬ rs ++ [r] <+: p.flatMap (imageVolume image).records := by
    intro p x hp hnodup hin
    have hlt := hsmall.records p x _ hp hnodup hin hopen
    rw [List.length_append, List.length_singleton] at hlt
    omega
  have hdup : ¬ l.Nodup := fun hnodup => hbound l d hwalk hnodup hpre
  obtain ⟨p, x, hp, hx, ⟨q, rfl⟩, hnodup⟩ := hwalk.circle hdup
  have hpq : p.flatMap (imageVolume image).records <+:
      (p ++ q).flatMap (imageVolume image).records := by
    rw [List.flatMap_append]
    exact List.prefix_append _ _
  have hinside : p.flatMap (imageVolume image).records <+: rs := by
    rcases List.prefix_or_prefix_of_prefix hpre hpq with hin | hin
    · exact absurd hin (hbound p x hp hnodup)
    · rcases List.prefix_concat_iff.mp hin with heq | hin
      · exact absurd (heq ▸ List.prefix_rfl) (hbound p x hp hnodup)
      · exact hin
  obtain ⟨b', hmore'⟩ := findEntry_more_front hinside hmore
  refine ⟨p, x, b', Walk.follows h hchain hsmall hp ?_, hx, hmore'⟩
  apply hopen.mono
  intro e he
  obtain ⟨c, hc, he⟩ := List.mem_flatMap.mp he
  exact List.mem_append_left _
    (hinside.subset (List.mem_flatMap.mpr ⟨c, List.dropLast_subset _ hc, he⟩))

/-- **The search on the clusters** of a directory that `ScanDirectory` accepts
    ends with what the list calls for, or never. -/
theorem find_of_scan (h : ImageOk image)
    (hload : FatEdit.loadFromImage (imageSuper image) image = .ok s)
    (hchain : ProperChain image start) (hsmall : SmallDirectory image start)
    (hlong : ∀ l d, Walk image start l d →
      LongNamesFollowed (l.flatMap (imageVolume image).records))
    {es : List DirEntry} {total : Nat}
    (hscan : FatEdit.scanDirectory (imageSuper image) s (FatEdit.dirReader start) =
      .ok (es, total)) (name buffer : Bytes) :
    (∃ n r, (imageVolume image).find name n start buffer = some r ∧ Answers es name r) ∨
      (imageVolume image).Endless name buffer start := by
  obtain ⟨rs, hlisted, hstopped⟩ := scan_inv h hload hchain hsmall hlong hscan
  -- the records are the first ones of a walk that stage2 can follow
  have hwalk : ∃ l d, Walk image start l d ∧ rs <+: l.flatMap (imageVolume image).records ∧
      l.dropLast.flatMap (imageVolume image).records ⊆ rs := by
    rcases hstopped with ⟨r, -, l, d, hwalk, hfront, hpre⟩ |
      ⟨l, d, hwalk, -, rfl⟩ | ⟨r, ⟨l, d, hwalk, hfront, hpre⟩, -⟩
    · exact ⟨l, d, hwalk, (List.prefix_append rs [r]).trans hpre, hfront.subset⟩
    · refine ⟨l, d, hwalk, List.prefix_rfl, ?_⟩
      intro e he
      obtain ⟨c, hc, he⟩ := List.mem_flatMap.mp he
      exact List.mem_flatMap.mpr ⟨c, List.dropLast_subset _ hc, he⟩
    · exact ⟨l, d, hwalk, (List.prefix_append rs [r]).trans hpre, hfront.subset⟩
  obtain ⟨l, d, hwalk, hpre, hfront⟩ := hwalk
  have hfollowed := (hlong l d hwalk).of_front hpre
  have hopen := noTerminator_of_listed hlisted List.prefix_rfl hfollowed
  have hfinds : Finds name es (FatFs.findEntry name buffer rs) :=
    finds_of_listed hlisted hfollowed buffer
  unfold Finds at hfinds
  unfold Answers
  cases hlookup : lookup es name with
  | some e =>
    simp only [hlookup] at hfinds
    obtain ⟨r, hr, hsame⟩ := hfinds
    refine .inl ⟨l.length, .ok (recordFile r), ?_, recordFile r, rfl, hsame⟩
    apply Volume.find_answer (Walk.follows h hchain hsmall hwalk (hopen.mono hfront))
    exact findEntry_front hpre (by rw [hr]; rfl)
  | none =>
    simp only [hlookup] at hfinds
    obtain ⟨b, hmore⟩ := hfinds
    have hlast : ∀ r, r.isLastInList = true → Next image start rs r →
        ∃ n, (imageVolume image).find name n start buffer = some .noEntry := by
      rintro r hr ⟨l, d, hwalk, hfront, hpre⟩
      refine ⟨l.length, ?_⟩
      apply Volume.find_answer (Walk.follows h hchain hsmall hwalk (hopen.mono hfront.subset))
      apply findEntry_front hpre
      rw [FatFs.findEntry_append, hmore]
      show (FatFs.findEntry name b [r]).answer = _
      rw [FatFs.findEntry, if_pos hr]
      rfl
    rcases hstopped with ⟨r, hr, hnext⟩ | ⟨l, d, hwalk, hend, rfl⟩ | ⟨r, hnext, hfull⟩
    · obtain ⟨n, hfind⟩ := hlast r hr hnext
      exact .inl ⟨n, .noEntry, hfind, rfl⟩
    · -- the end of the chain
      refine .inl ⟨l.length + 1, .noEntry, ?_, rfl⟩
      have hfollows := Walk.follows h hchain hsmall hwalk (hopen.mono ?_)
      · rw [Volume.find_segment hfollows hmore, Volume.find]
        apply if_pos
        rw [endMark] at hend
        rw [FatFs.endOfChain]
        omega
      · intro e he
        obtain ⟨c, hc, he⟩ := List.mem_flatMap.mp he
        exact List.mem_flatMap.mpr ⟨c, List.dropLast_subset _ hc, he⟩
    · by_cases hr : r.isLastInList = true
      · obtain ⟨n, hfind⟩ := hlast r hr hnext
        exact .inl ⟨n, .noEntry, hfind, rfl⟩
      · refine .inr (endless_of_full h hchain hsmall hnext ?_ hfull hmore)
        intro e he
        rcases List.mem_append.mp he with he | he
        · exact hopen e he
        · rw [List.mem_singleton.mp he]
          simpa using hr

/-- `FindInDirectory` returns what the list of entries calls for. -/
def FindAgrees (w : World) (image : ByteVec) (fs : FatFs) (dir : FatFile) (name : Bytes)
    (es : List DirEntry) : Prop :=
  ∃ fuel r fs', FatFs.findInDirectory w (imageVolume image) fuel fs dir name = some (r, fs') ∧
    Answers es name r

/-- **Directory lookup agrees**: on a directory below 4 GiB that
    `ScanDirectory` accepts, `FindInDirectory` returns what the list calls for
    if and only if its search is not endless. -/
theorem findInDirectory_agrees_iff (h : ImageOk image)
    (hload : FatEdit.loadFromImage (imageSuper image) image = .ok s) {dir : FatFile}
    (hdir : FlagField.isSet dir.flags FatDirent.directory = true)
    (hchain : ProperChain image dir.cluster) (hsmall : SmallDirectory image dir.cluster)
    (hlong : ∀ l d, Walk image dir.cluster l d →
      LongNamesFollowed (l.flatMap (imageVolume image).records))
    {es : List DirEntry} {total : Nat}
    (hscan : FatEdit.scanDirectory (imageSuper image) s (FatEdit.dirReader dir.cluster) =
      .ok (es, total))
    {w : World} (hw : ¬ w.Faulty) {fs : FatFs}
    (hreach : FatFs.Reached w (imageVolume image) (fun _ _ _ => True) fs)
    {name : Bytes} (hname : isShortName name = true) :
    FindAgrees w image fs dir name es ↔
      ¬ (imageVolume image).Endless name (w.uninit .nameBuffer fs.loads) dir.cluster := by
  have hco := hreach.coherent hw
  constructor
  · rintro ⟨fuel, r, fs', hfind, -⟩ hendless
    exact (FatFs.findInDirectory_ends_iff hw hco dir name).mp ⟨fuel, _, hfind⟩
      ⟨hname, hdir, hendless⟩
  · intro hends
    obtain ⟨n, r, hfind, hanswer⟩ := (find_of_scan h hload hchain hsmall hlong hscan name
      (w.uninit .nameBuffer fs.loads)).resolve_right hends
    have hloop := (FatFs.findLoop_reliable hw name n hco dir.cluster
      (w.uninit .nameBuffer fs.loads)).1
    rw [hfind] at hloop
    obtain ⟨⟨r', fs'⟩, hrun, rfl⟩ := Option.map_eq_some_iff.mp hloop
    refine ⟨n, r', fs', ?_, hanswer⟩
    rw [FatFs.findInDirectory, hname, hdir]
    exact hrun

end Image

/-! ## Section 4: Two images -/

/-- The file `A` of one byte in cluster 3. -/
def fileA : FatDirent := ((FatDirent.default.setName (lit "A")).setClusterIndex 3).setSize 1

/-- A volume of 32 KiB with `A` in the root directory. -/
def smallImage : ByteVec :=
  sparseFile 32768 ((0, smallSuper 32 64 1) :: fsInfoParts ++
    [(16384, leBytes 4 0x0FFFFFF8 ++ leBytes 4 0x0FFFFFFF ++ leBytes 4 0x0FFFFFFF),
      (16896, fileA.raw)])

/-- A volume of 8 GiB whose cluster 8257570 starts 32768 bytes behind 4 GiB.
    It has the file `A`; there are zeros 32768 bytes behind the start of the
    image. -/
def largeImage : ByteVec :=
  sparseFile (2 ^ 33) ((0, smallSuper 32 16777216 131072) :: fsInfoParts ++
    [(33046664, leBytes 4 0x0FFFFFFF), (4295000064, fileA.raw)])

/-- A directory of one cluster. -/
structure SingleCluster (image : ByteVec) (c : Nat) : Prop where
  start : DataCluster image c
  inTable : (imageVolume image).InTable c
  ends : (imageVolume image).fatEntry c = 0x0FFFFFFF
  count : (imageSuper image).clusterCount + 2 ≤ endMark
  noLongNames : ∀ e ∈ (imageVolume image).records c, e.isLongName = false

namespace SingleCluster

variable {image : ByteVec} {c d : Nat} {l : List Nat}

theorem walk (h : SingleCluster image c) (hwalk : Walk image c l d) :
    l = [] ∧ d = c ∨ l = [c] ∧ d = 0x0FFFFFFF := by
  cases hwalk with
  | nil _ => exact .inl ⟨rfl, rfl⟩
  | cons _ hrest =>
    rw [h.ends] at hrest
    cases hrest with
    | nil _ => exact .inr ⟨rfl, rfl⟩
    | cons hok _ =>
      have hcount := h.count
      have hlt := hok.2
      rw [endMark] at hcount
      omega

theorem not_dataCluster (h : SingleCluster image c) : ¬ DataCluster image 0x0FFFFFFF := by
  intro hdata
  have hcount := h.count
  have hlt := hdata.2
  rw [endMark] at hcount
  omega

theorem properChain (h : SingleCluster image c) : ProperChain image c where
  start := h.start
  entries := by
    intro l d hwalk hd
    rcases h.walk hwalk with ⟨-, rfl⟩ | ⟨-, rfl⟩
    · rw [h.ends]
      exact ⟨h.inTable, by decide, .inr (by decide)⟩
    · exact absurd hd h.not_dataCluster

theorem longNamesFollowed (h : SingleCluster image c) (hwalk : Walk image c l d) :
    LongNamesFollowed (l.flatMap (imageVolume image).records) := by
  intro pre a b post hsplit _ hpiece
  have hmem : a ∈ l.flatMap (imageVolume image).records := by simp [hsplit]
  obtain ⟨x, hx, ha⟩ := List.mem_flatMap.mp hmem
  have hxc : x = c := by
    rcases h.walk hwalk with ⟨rfl, -⟩ | ⟨rfl, -⟩
    · cases hx
    · exact List.mem_singleton.mp hx
  rw [hxc] at ha
  have hlong := hpiece.long
  rw [h.noLongNames a ha] at hlong
  cases hlong

theorem smallDirectory (h : SingleCluster image c)
    (hstart : FatEdit.clusterOffset (imageSuper image) c < 2 ^ 32)
    (hsize : (imageVolume image).bytesPerCluster < 2 ^ 32) : SmallDirectory image c where
  starts := by
    intro l d hwalk hd _
    rcases h.walk hwalk with ⟨-, rfl⟩ | ⟨-, rfl⟩
    · exact hstart
    · exact absurd hd h.not_dataCluster
  records := by
    intro l d rs hwalk _ hpre _
    have hlen := hpre.length_le
    have hone := length_records image c
    have hbytes := bytesPerCluster_eq_records image
    rcases h.walk hwalk with ⟨rfl, -⟩ | ⟨rfl, -⟩
    · rw [List.flatMap_nil, List.length_nil] at hlen
      rw [Nat.le_zero.mp hlen]
      decide
    · rw [List.flatMap_singleton, hone] at hlen
      have hmul := Nat.mul_le_mul_left FatDirent.sizeof hlen
      omega

end SingleCluster

instance (image : ByteVec) (c : Nat) : Decidable (DataCluster image c) :=
  inferInstanceAs (Decidable (_ ∧ _))

set_option maxRecDepth 3000

theorem smallImage_ok : ImageOk smallImage :=
  ⟨⟨by decide, by decide, by decide⟩, by decide⟩

theorem smallImage_single : SingleCluster smallImage 2 :=
  ⟨by decide, by decide, by decide, by decide, by decide⟩

def rootOf (c : Nat) : FatFile := { cluster := c, size := 0, flags := FatDirent.directory }

/-- In the small image, both programs find `A`. -/
theorem findInDirectory_agrees_small : ∃ s es total,
    FatEdit.loadFromImage (imageSuper smallImage) smallImage = .ok s ∧
    FatEdit.scanDirectory (imageSuper smallImage) s (FatEdit.dirReader 2) = .ok (es, total) ∧
    FindAgrees reliable smallImage FatFs.freshWindows (rootOf 2) (str "A") es := by
  have hrun : (FatEdit.loadFromImage (imageSuper smallImage) smallImage >>= fun s =>
      (FatEdit.scanDirectory (imageSuper smallImage) s (FatEdit.dirReader 2)).map Prod.snd) =
      .ok 32 := by decide
  obtain ⟨s, hload, hscan⟩ := except_bind_eq_ok.mp hrun
  have hfind : ((imageVolume smallImage).find (str "A") 1 2
      (reliable.uninit .nameBuffer FatFs.freshWindows.loads)).isSome = true := by decide
  cases hlist : FatEdit.scanDirectory (imageSuper smallImage) s (FatEdit.dirReader 2) with
  | error e =>
    rw [hlist] at hscan
    cases hscan
  | ok list =>
    refine ⟨s, list.1, list.2, hload, hlist, ?_⟩
    have hdir : FlagField.isSet (rootOf 2).flags FatDirent.directory = true := by decide
    have hchain : ProperChain smallImage (rootOf 2).cluster := smallImage_single.properChain
    have hsmall : SmallDirectory smallImage (rootOf 2).cluster :=
      smallImage_single.smallDirectory (by decide) (by decide)
    have hreach : FatFs.Reached reliable (imageVolume smallImage) (fun _ _ _ => True)
        FatFs.freshWindows := .new _ _
    apply (findInDirectory_agrees_iff smallImage_ok hload hdir hchain hsmall
      (fun l d hwalk => smallImage_single.longNamesFollowed hwalk) hlist not_faulty_reliable
      hreach (by decide)).mpr
    apply ((imageVolume smallImage).find_ends_iff _ _ _).mp
    obtain ⟨r, hr⟩ := Option.isSome_iff_exists.mp hfind
    exact ⟨1, r, hr⟩

theorem largeImage_ok : ImageOk largeImage :=
  ⟨⟨by decide, by decide, by decide⟩, by decide⟩

theorem largeImage_single : SingleCluster largeImage 8257570 :=
  ⟨by decide, by decide, by decide, by decide, by decide⟩

/-- Behind 4 GiB, `fatedit` reads the zeros and lists nothing, where stage2
    finds the file. -/
theorem findInDirectory_disagrees_large :
    ImageOk largeImage ∧ ProperChain largeImage 8257570 ∧
    (∀ l d, Walk largeImage 8257570 l d →
      LongNamesFollowed (l.flatMap (imageVolume largeImage).records)) ∧
    isShortName (str "A") = true ∧
    ∃ s, FatEdit.loadFromImage (imageSuper largeImage) largeImage = .ok s ∧
      FatEdit.scanDirectory (imageSuper largeImage) s (FatEdit.dirReader 8257570) = .ok ([], 0) ∧
      ¬ FindAgrees reliable largeImage FatFs.freshWindows (rootOf 8257570) (str "A") [] := by
  have hrun : (FatEdit.loadFromImage (imageSuper largeImage) largeImage >>= fun s =>
      FatEdit.scanDirectory (imageSuper largeImage) s (FatEdit.dirReader 8257570)) =
      .ok ([], 0) := by decide
  obtain ⟨s, hload, hscan⟩ := except_bind_eq_ok.mp hrun
  refine ⟨largeImage_ok, largeImage_single.properChain,
    fun l d hwalk => largeImage_single.longNamesFollowed hwalk, by decide, s, hload, hscan, ?_⟩
  rintro ⟨fuel, r, fs', hfind, hanswer⟩
  obtain rfl : r = .noEntry := hanswer
  have hloop : FatFs.findLoop reliable (imageVolume largeImage) (str "A") fuel FatFs.freshWindows
      8257570 (reliable.uninit .nameBuffer FatFs.freshWindows.loads) = some (.noEntry, fs') := hfind
  have hco : Coherent (imageVolume largeImage) FatFs.freshWindows := Coherent.new _ _ _
  have hpure := (FatFs.findLoop_reliable not_faulty_reliable (str "A") fuel hco 8257570
    (reliable.uninit .nameBuffer FatFs.freshWindows.loads)).1
  have hfound : (imageVolume largeImage).find (str "A") 1 8257570
      (reliable.uninit .nameBuffer FatFs.freshWindows.loads) = some (.ok ⟨3, 1, 0⟩) := by
    decide
  rw [hloop] at hpure
  have hone := Volume.find_mono hpure.symm (Nat.le_max_left fuel 1)
  rw [Volume.find_mono hfound (Nat.le_max_right fuel 1)] at hone
  cases hone

end Hausboot

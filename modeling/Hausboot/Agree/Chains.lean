import Hausboot.FatEdit.Model
import Hausboot.FatFs.Coherence

/-! # Loader and Tool: Cluster Chains

    stage2 and `fatedit` follow the same FAT in two ways. stage2 takes all 32
    bits of an entry and ends a chain from 0x0FFFFFF0 on; `fatedit` takes the
    low 28 bits and ends it below 2 and from 0x0FFFFFF8 on. `SameEnd` lists the
    entries on which both do the same; the two walks over a FAT are the same
    exactly if they meet only such entries. -/

open ByteLib

namespace Hausboot

/-! ## Section 1: Walks -/

/-- What a walker finds behind a cluster. -/
inductive Link where
  | next (c : Nat)
  | last
  /-- The entry of the cluster cannot be read. -/
  | broken
deriving DecidableEq

/-- The walk from `c` on: the cluster visited at each time, and from some time
    on how the walk ended. -/
def trail (link : Nat → Link) (c : Nat) : Nat → Link
  | 0 => .next c
  | n + 1 =>
    match trail link c n with
    | .next d => link d
    | l => l

/-- Two walks are the same if and only if they agree on every cluster that the
    first one visits. -/
theorem trail_eq_iff {f g : Nat → Link} {c : Nat} :
    (∀ n, trail f c n = trail g c n) ↔ ∀ n d, trail f c n = .next d → f d = g d := by
  constructor
  · intro heq n d hd
    have hnext := heq (n + 1)
    simp only [trail, hd, ← heq n] at hnext
    exact hnext
  · intro hlink n
    induction n with
    | zero => rfl
    | succ n ih =>
      unfold trail
      rw [← ih]
      cases hn : trail f c n with
      | next d => exact hlink n d hn
      | last => rfl
      | broken => rfl

/-! ## Section 2: The two walkers -/

/-- `ReadFatIndex` and the end test of the loops in `FatFs`. -/
def FatFs.link (v : Volume) (c : Nat) : Link :=
  match (FatFs.readFatIndex reliable v (FatFs.new [] []) c).1 with
  | none => .broken
  | some next => if next < FatFs.endOfChain then .next next else .last

/-- `NextCluster` of a `FileReader` with data left. -/
def FatEdit.link (s : FatEdit.Session) (c : Nat) : Link :=
  match FatEdit.FileReader.nextCluster s ⟨c, 0, 1, 0⟩ with
  | .error _ => .broken
  | .ok rd => if rd.size = 0 then .last else .next rd.cluster

/-- The FAT sectors of the device are the bytes that the tool has loaded. -/
structure SameFat (v : Volume) (s : FatEdit.Session) : Prop where
  sectorSize_pos : 0 < v.sectorSize
  sectorSize_dvd : 4 ∣ v.sectorSize
  size : s.fatRaw.size = v.super.sectorsPerFat * v.sectorSize
  bytes : ∀ i < v.super.sectorsPerFat,
    v.fatSector i = s.fatRaw.bytes.read (i * v.sectorSize) v.sectorSize

/-- Both walkers make the same of the entry. -/
def SameEnd (e : Nat) : Prop :=
  2 ≤ e ∧ e < FatFs.endOfChain ∨
  FatFs.endOfChain ≤ e ∧ (e % 2 ^ 28 < 2 ∨ endMark ≤ e % 2 ^ 28)

instance (e : Nat) : Decidable (SameEnd e) := inferInstanceAs (Decidable (_ ∨ _))

theorem FatFs.link_eq (v : Volume) (c : Nat) :
    FatFs.link v c =
      if v.InTable c then
        if v.fatEntry c < FatFs.endOfChain then .next (v.fatEntry c) else .last
      else .broken := by
  unfold FatFs.link
  rw [FatFs.readFatIndex_reliable not_faulty_reliable (Coherent.new v [] [])]
  by_cases hin : v.InTable c
  · rw [if_pos hin, if_pos hin]
  · rw [if_neg hin, if_neg hin]

namespace SameFat

variable {v : Volume} {s : FatEdit.Session}

/-- Both programs find the same clusters in the table. -/
theorem inTable_iff (h : SameFat v s) (c : Nat) :
    u32 (c * 4) + 3 < s.fatRaw.size ↔ v.InTable c := by
  obtain ⟨k, hk⟩ := h.sectorSize_dvd
  unfold Volume.InTable
  rw [h.size, Nat.div_lt_iff_lt_mul h.sectorSize_pos]
  generalize hp : v.super.sectorsPerFat * v.sectorSize = p
  have hdvd : p = 4 * (v.super.sectorsPerFat * k) := by
    rw [← hp, hk]
    ring
  rw [u32]
  omega

/-- Both programs find the same 32 bits there. -/
theorem entry_eq (h : SameFat v s) {c : Nat} (hc : v.InTable c) :
    s.fatRaw.bytes.readLE (u32 (c * 4)) 4 = v.fatEntry c := by
  obtain ⟨k, hk⟩ := h.sectorSize_dvd
  have hpos := h.sectorSize_pos
  have hsplit : u32 (c * 4) / v.sectorSize * v.sectorSize + u32 (c * 4) % v.sectorSize =
      u32 (c * 4) := Nat.div_add_mod' _ _
  have hroom : u32 (c * 4) % v.sectorSize + 4 ≤ v.sectorSize := by
    have hlt := Nat.mod_lt (u32 (c * 4)) hpos
    have hdvd : 4 ∣ u32 (c * 4) % v.sectorSize :=
      (Nat.dvd_mod_iff h.sectorSize_dvd).mpr (by rw [u32]; omega)
    omega
  rw [Volume.fatEntry, h.bytes _ hc, Store.slice_read _ hroom, hsplit, Store.readLE]

theorem link_eq (h : SameFat v s) (c : Nat) :
    FatEdit.link s c =
      if v.InTable c then
        if v.fatEntry c % 2 ^ 28 < 2 ∨ endMark ≤ v.fatEntry c % 2 ^ 28 then .last
        else .next (v.fatEntry c % 2 ^ 28)
      else .broken := by
  have hnext : FatEdit.nextClusterInFile s c =
      if v.InTable c then .ok (v.fatEntry c % 2 ^ 28) else .error (.throw .outOfRange) := by
    unfold FatEdit.nextClusterInFile
    dsimp only
    by_cases hc : v.InTable c
    · rw [if_pos hc, if_pos ((h.inTable_iff c).mpr hc), h.entry_eq hc]
    · rw [if_neg hc, if_neg (fun hlt => hc ((h.inTable_iff c).mp hlt))]
  unfold FatEdit.link FatEdit.FileReader.nextCluster
  rw [if_neg Nat.one_ne_zero, hnext]
  by_cases hc : v.InTable c
  · rw [if_pos hc, if_pos hc]
    generalize v.fatEntry c % 2 ^ 28 = e
    show (match (if (e < 2 || e ≥ endMark : Bool) then _ else _ :
      Except FatEdit.Fail FatEdit.FileReader) with | .error _ => _ | .ok rd => _) = _
    by_cases hend : e < 2 ∨ endMark ≤ e
    · rw [if_pos hend, if_pos (by simpa using hend)]
      rfl
    · rw [if_neg hend, if_neg (by simpa using hend)]
      rfl
  · rw [if_neg hc, if_neg hc]
    rfl

/-- On one cluster, the walkers agree exactly if its entry is the same to
    both. -/
theorem link_eq_iff (h : SameFat v s) (c : Nat) :
    FatFs.link v c = FatEdit.link s c ↔ (v.InTable c → SameEnd (v.fatEntry c)) := by
  rw [FatFs.link_eq, h.link_eq]
  unfold SameEnd
  by_cases hc : v.InTable c
  · rw [if_pos hc, if_pos hc]
    generalize v.fatEntry c = e
    have hstop : FatFs.endOfChain < endMark ∧ endMark < 2 ^ 28 := by decide
    -- stage2 compares all 32 bits, `fatedit` the low 28
    by_cases hlow : e < FatFs.endOfChain
    · rw [if_pos hlow, Nat.mod_eq_of_lt (show e < 2 ^ 28 by omega)]
      by_cases h2 : 2 ≤ e
      · rw [if_neg (by omega)]
        exact ⟨fun _ _ => .inl ⟨h2, hlow⟩, fun _ => rfl⟩
      · rw [if_pos (by omega)]
        constructor
        · intro heq
          cases heq
        · intro h
          rcases h hc with hmid | hhigh
          · omega
          · omega
    · rw [if_neg hlow]
      -- at the end for stage2: `fatedit` goes on unless its low bits say the same
      by_cases hend : e % 2 ^ 28 < 2 ∨ endMark ≤ e % 2 ^ 28
      · rw [if_pos hend]
        exact ⟨fun _ _ => .inr ⟨by omega, hend⟩, fun _ => rfl⟩
      · rw [if_neg hend]
        constructor
        · intro heq
          cases heq
        · intro h
          rcases h hc with hmid | hhigh
          · omega
          · exact absurd hhigh.2 hend
  · rw [if_neg hc, if_neg hc]
    exact ⟨fun _ h => absurd h hc, fun _ => rfl⟩

end SameFat

/-- **The chain walkers agree**: over the same FAT, stage2 and `fatedit` visit
    the same clusters and end in the same way exactly if each cluster that
    stage2 visits has an entry on which both do the same. -/
theorem walks_agree_iff {v : Volume} {s : FatEdit.Session} (h : SameFat v s) (c : Nat) :
    (∀ n, trail (FatFs.link v) c n = trail (FatEdit.link s) c n) ↔
      ∀ n d, trail (FatFs.link v) c n = .next d → v.InTable d → SameEnd (v.fatEntry d) := by
  rw [trail_eq_iff]
  constructor
  · intro hlink n d hd
    exact (h.link_eq_iff d).mp (hlink n d hd)
  · intro hend n d hd
    exact (h.link_eq_iff d).mpr (hend n d hd)

/-! ## Section 3: Sample FATs -/

/-- A session of the tool that has loaded the FAT of a sample volume. -/
def sampleSession (fat : List Nat) : FatEdit.Session where
  file := ⟨fun _ => 0, 0⟩
  fatRaw := ⟨Store.write (fun _ => 0) 0 (toSector (fat.flatMap (leBytes 4))), 512⟩
  fsinfo := []
  cout := []
  cerr := []

theorem sameFat_sample (fat : List Nat) (data : Nat → Bytes) :
    SameFat (sampleVolume fat data) (sampleSession fat) where
  sectorSize_pos := by show 0 < 512; decide
  sectorSize_dvd := by show 4 ∣ 512; decide
  size := by
    show 512 = sampleSuper.sectorsPerFat * 512
    rw [show sampleSuper.sectorsPerFat = 1 by decide]
  bytes i hi := by
    have hone : (sampleVolume fat data).super.sectorsPerFat = 1 := by
      show sampleSuper.sectorsPerFat = 1
      decide
    have hfirst : u32 ((sampleVolume fat data).super.reservedSectors + 0) = 1 := by
      show u32 (sampleSuper.reservedSectors + 0) = 1
      decide
    have hlen := (sampleVolume fat data).length_sector 1
    have hread := Store.read_write_same (fun _ => 0) 0 (toSector (fat.flatMap (leBytes 4)))
    obtain rfl : i = 0 := by omega
    rw [Volume.fatSector, hfirst]
    change (toSector (fat.flatMap (leBytes 4))).length = 512 at hlen
    rw [hlen] at hread
    exact hread.symm

/-- The walks over a chain of one cluster. -/
theorem walks_agree_single :
    trail (FatFs.link (sampleVolume [0x0FFFFFF8, 0x0FFFFFFF, 0x0FFFFFFF] fun _ => [])) 2 =
      trail (FatEdit.link (sampleSession [0x0FFFFFF8, 0x0FFFFFFF, 0x0FFFFFFF])) 2 := by
  apply funext
  apply (walks_agree_iff (sameFat_sample _ _) 2).mpr
  intro n d hd _
  have hlast : ∀ n, trail (FatFs.link
      (sampleVolume [0x0FFFFFF8, 0x0FFFFFFF, 0x0FFFFFFF] fun _ => [])) 2 (n + 1) = .last := by
    intro n
    induction n with
    | zero => decide
    | succ n ih =>
      unfold trail
      rw [ih]
  cases n with
  | zero =>
    obtain rfl : 2 = d := Link.next.inj hd
    decide
  | succ n =>
    rw [hlast] at hd
    cases hd

set_option maxRecDepth 3000

/-- Behind an entry with its top bits set, stage2 ends the chain and `fatedit`
    goes on. -/
theorem walks_differ_top_bits :
    SameFat (sampleVolume [0x0FFFFFF8, 0x0FFFFFFF, 0xF0000003, 0x0FFFFFFF] fun _ => [])
      (sampleSession [0x0FFFFFF8, 0x0FFFFFFF, 0xF0000003, 0x0FFFFFFF]) ∧
    trail (FatFs.link (sampleVolume [0x0FFFFFF8, 0x0FFFFFFF, 0xF0000003, 0x0FFFFFFF] fun _ => []))
      2 1 = .last ∧
    trail (FatEdit.link (sampleSession [0x0FFFFFF8, 0x0FFFFFFF, 0xF0000003, 0x0FFFFFFF])) 2 1 =
      .next 3 :=
  ⟨sameFat_sample _ _, by decide, by decide⟩

end Hausboot

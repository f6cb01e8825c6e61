import Hausboot.Stage2.Balance

/-! # The stage2 Boot Loader: Does It Check What malloc Returns?

    The block device, the driver and its two windows are allocated first and
    stay, then comes the buffer for the configuration file, and then a
    temporary buffer at a time. So the heap is a stack of blocks all along, and
    whether a call finds room depends on the sizes alone. The windows and the
    file buffer are used without a look at the pointer; the temporary buffers
    are checked, and the tables of `MBGenInfo` find room in any case. -/

open ByteLib

namespace Hausboot

open HeapEntry

variable {w : World} {v : Volume} {mc : Machine} {fuel : Nat}

/-! ## Section 1: Commands -/

section Script

variable {r : HeapRegion} {us : List Block} {e : Nat}

/-- A temporary buffer has not been freed. -/
def Leaked (r : HeapRegion) (us : List Block) (e : Nat) (h : Heap) : Prop :=
  e + 8 + 1024 ≤ r.stop ∧ InUse r h (us ++ [⟨e, blockEnd r e 1024, true⟩])

theorem roundCount_eq {count : Nat} (h : count % 4 = 0) : roundCount count = count :=
  if_neg (by omega)

/-- A temporary buffer, if there is room for it. -/
theorem malloc_temporary {h h' : Heap} {p : Nat} (hu : InUse r h us) (hs : Stacked r us e)
    (he : e ≤ r.stop) (hpos : 0 < r.basePtr) (hcall : malloc fuel h 1024 = some (p, h')) :
    (p = 0 ∧ h' = h) ∨ (p = e + 8 ∧ Leaked r us e h') := by
  have hround : roundCount (1024 : UInt32).toNat = 1024 := rfl
  rcases hu.malloc_stacked hs he hpos hcall with ⟨-, hp, hh⟩ | ⟨hroom, hp, hu'⟩
  · exact .inl ⟨hp, hh⟩
  · rw [hround] at hroom hu'
    exact .inr ⟨hp, hroom, hu'⟩

theorem Leaked.free {h h' : Heap} (hl : Leaked r us e h)
    (hcall : free fuel h (e + 8) = some h') : InUse r h' us := by
  obtain ⟨-, hu⟩ := hl
  exact hu.free_last hcall

variable (hs : Stacked r us e) (he : e ≤ r.stop) (hpos : 0 < r.basePtr)
include hs he hpos

/-- On top of a stack of blocks, the place of the buffer is known. -/
theorem leaked_tempBuffer :
    TempBuffer fuel (InUse r · us) (fun p h => p = e + 8 ∧ Leaked r us e h) where
  taken := by
    intro h h' p hu hcall
    rcases malloc_temporary hu hs he hpos hcall with hnull | ⟨rfl, hleaked⟩
    · exact .inl hnull
    · exact .inr ⟨Nat.succ_ne_zero _, rfl, hleaked⟩
  freed := by
    rintro h h' p ⟨rfl, hleaked⟩ hcall
    exact hleaked.free hcall

theorem cmdMultiboot_heap {st st' : Boot} {path : Bytes} {ok : Bool} (hu : InUse r st.heap us)
    (h : cmdMultiboot w v fuel st path = some (ok, st')) :
    InUse r st'.heap us ∨ ok = false ∧ Leaked r us e st'.heap := by
  rcases (leaked_tempBuffer hs he hpos).cmdMultiboot hu h with ⟨hu', -⟩ | ⟨hfalse, -, p, -, hleaked⟩
  · exact .inl hu'
  · exact .inr ⟨hfalse, hleaked⟩

theorem callback_heap {command : Command} {st st' : Boot} {arg : Bytes} {ok : Bool}
    (hu : InUse r st.heap us) (h : command.callback w v mc fuel st arg = some (ok, st')) :
    InUse r st'.heap us ∨ ok = false ∧ Leaked r us e st'.heap := by
  cases command with
  | echo =>
    cases h
    exact .inl hu
  | info =>
    simp only [Command.callback, cmdInfo] at h
    split at h
    · cases h
      exact .inl hu
    split at h
    · cases h
      exact .inl hu
    · cases h
      exact .inl hu
  | multiboot => exact cmdMultiboot_heap hs he hpos hu h

/-- A script leaves the heap as it was, but for one temporary buffer if its
    last command has failed. -/
theorem runScript_heap {n : Nat} {st st' : Boot} {buffer : Bytes} {ptr : Nat}
    {calls : List Call} (hu : InUse r st.heap us)
    (hrun : runScript w v mc fuel n st buffer ptr = some (st', calls)) :
    InUse r st'.heap us ∨ Leaked r us e st'.heap := by
  induction n generalizing st buffer ptr calls with
  | zero => cases hrun
  | succ n ih =>
    unfold runScript at hrun
    split at hrun
    · cases hrun
      exact .inl hu
    simp only at hrun
    split at hrun
    · exact ih hu hrun
    split at hrun
    · cases hrun
      exact .inl hu
    · next command _ =>
      obtain ⟨⟨ok, st₁⟩, hcall, hrun⟩ := Option.bind_eq_some_iff.mp hrun
      dsimp only at hrun
      -- the script ends with the first command that fails
      have hstep := callback_heap hs he hpos hu hcall
      split at hrun
      · next hok =>
        obtain ⟨⟨st₂, rest⟩, hrest, hrun⟩ := Option.bind_eq_some_iff.mp hrun
        cases hrun
        rcases hstep with hu₁ | ⟨hfalse, -⟩
        · exact ih hu₁ hrest
        · rw [hok] at hfalse
          cases hfalse
      · cases hrun
        rcases hstep with hu₁ | ⟨-, hleaked⟩
        · exact .inl hu₁
        · exact .inr hleaked

end Script

/-! ## Section 2: The tables of MBGenInfo -/

section Tables

variable {r : HeapRegion} {us : List Block} {e d : Nat}

theorem HasRoom.mono {bs : List Block} {m n : Nat} (h : HasRoom bs n) (hmn : m ≤ n) :
    HasRoom bs m := by
  obtain ⟨s, hs, hfree, hle⟩ := h
  exact ⟨s, hs, hfree, hmn.trans hle⟩

theorem roundCount_ofNat {n : Nat} (h : n % 4 = 0) (hlt : n < 2 ^ 32) :
    roundCount (UInt32.ofNat n).toNat = n := by
  rw [UInt32.toNat_ofNat_of_lt' hlt, roundCount_eq h]

/-- Room for the structure, a header and the largest map is room for both. -/
theorem mbGenInfo_some {st st' : Boot} {live : List Nat} {bs : List Block} {info : Option Nat}
    (hinv : RunInv r ⟨st.heap, live⟩ bs) (hpos : 0 < r.basePtr)
    (hcount : (mc.mmap.getD []).length ≤ 32) (hroom : HasRoom bs (128 + 8 + 24 * 32))
    (h : mbGenInfo mc fuel st = some (info, st')) : info ≠ none := by
  obtain ⟨⟨p, heap⟩, hmalloc, h⟩ := Option.bind_eq_some_iff.mp h
  have hround : roundCount (128 : UInt32).toNat = 128 := rfl
  have hp : p ≠ 0 := by
    apply malloc_ne_zero hinv hpos _ hmalloc
    rw [hround]
    exact hroom.mono (by omega)
  obtain ⟨bs', live', hinv', hroom'⟩ :=
    room_after_malloc (n := 24 * 32) hinv hpos (by omega) (by rw [hround]; exact hroom) hmalloc
  dsimp only at h
  rw [if_neg hp] at h
  obtain ⟨⟨q, heap'⟩, hmalloc', h⟩ := Option.bind_eq_some_iff.mp h
  have hq : q ≠ 0 := by
    apply malloc_ne_zero hinv' hpos _ hmalloc'
    rw [roundCount_ofNat (by omega) (by omega)]
    exact hroom'.mono (by omega)
  dsimp only at h
  rw [if_neg (by simp [hq])] at h
  obtain ⟨rfl, -⟩ := Prod.mk.inj (Option.some.inj h)
  exact Option.some_ne_none _

/-- Behind the blocks that stay, there is room once the file buffer is freed,
    also if a temporary buffer stands behind its place. -/
theorem room_behind {h : Heap} (hs : Stacked r us d) (hd : d + 3508 ≤ r.stop) (hde : d < e)
    (hu : InUse r h us ∨
      e + 8 + 1024 ≤ r.stop ∧ InUse r h (us ++ [⟨e, blockEnd r e 1024, true⟩])) :
    ∃ bs live, RunInv r ⟨h, live⟩ bs ∧ HasRoom bs (128 + 8 + 24 * 32) := by
  rcases hu with hu | ⟨htemp, hu⟩
  · rcases hu.blocks_stacked hs (by omega) with ⟨-, live, hinv⟩ | ⟨heq, -⟩
    · refine ⟨_, live, hinv, ⟨d, r.stop, false⟩, by simp, rfl, ?_⟩
      simp only [payload, sizeof]
      omega
    · omega
  · have hlt : e < blockEnd r e 1024 := by
      unfold blockEnd
      split
      · omega
      · omega
    have hend : blockEnd r e 1024 ≤ r.stop := blockEnd_le
    obtain ⟨live, tail, hinv, htail⟩ := hu.blocks_gap hs hde hlt rfl hend
    refine ⟨_, live, hinv, ?_⟩
    by_cases hhole : d + 8 + (128 + 8 + 24 * 32) ≤ e
    · -- the place of the file buffer is large enough
      refine ⟨⟨d, e, false⟩, by simp, rfl, ?_⟩
      simp only [payload, sizeof]
      omega
    · have hend : blockEnd r e 1024 = e + 8 + 1024 := blockEnd_of_room (by omega)
      have hrest : (⟨e + 8 + 1024, r.stop, false⟩ : Block) ∈ tail := by
        have hmem := htail (show blockEnd r e 1024 < r.stop by omega)
        dsimp only at hmem
        rwa [hend] at hmem
      refine ⟨⟨e + 8 + 1024, r.stop, false⟩, by simp [hrest], rfl, ?_⟩
      simp only [payload, sizeof]
      omega

end Tables

/-! ## Section 3: The configuration file -/

section Config

variable {r : HeapRegion} {us : List Block} {d : Nat}

/-- `ReadAt` on the whole file fails before it has stored a byte. -/
def FailsAtOnce (w : World) (v : Volume) (fuel : Nat) (fs : FatFs) (finfo : FatFile) : Prop :=
  ∀ ret data fs', FatFs.readAt w v fuel fs finfo 0 finfo.size = some (ret, data, fs') →
    ret < 0 ∧ data = []

/-- What follows once the script is read: no pointer is null. -/
theorem runConfig_safe {st : Boot} {out : Outcome} {calls : List Call} {stEnd : Boot} {c : Nat}
    {buffer : Bytes} (hs : Stacked r us d) (hd : d + 3508 ≤ r.stop) (hroom : d + 8 + c ≤ r.stop)
    (hpos : 0 < r.basePtr) (hcount : (mc.mmap.getD []).length ≤ 32)
    (hu : InUse r st.heap (us ++ [⟨d, blockEnd r d c, true⟩]))
    (h : (do
      let (st, calls) ← runScript w v mc fuel fuel st buffer 0
      let heap ← free fuel st.heap (d + 8)
      let st := { st with heap := heap }
      if st.haveKernel then
        match ← mbGenInfo mc fuel st with
        | (some info, st) => some (.started st.kernelEntry info, st, calls)
        | (none, st) => some (.nullBuffer, st, calls)
      else some (.halted, st.print [.text "No kernel loaded!", .text "\r\n"], calls)) =
      some (out, stEnd, calls)) : out ≠ .nullBuffer := by
  have hfile := hs.push hroom
  obtain ⟨⟨st₁, calls'⟩, hrun, h⟩ := Option.bind_eq_some_iff.mp h
  obtain ⟨heap', hfree, h⟩ := Option.bind_eq_some_iff.mp h
  dsimp only at h
  split at h
  swap
  · cases h
    exact Outcome.noConfusion
  obtain ⟨⟨info, st₂⟩, hgen, h⟩ := Option.bind_eq_some_iff.mp h
  have hde : d < blockEnd r d c := lt_blockEnd (by omega)
  -- the file buffer is freed, the temporary one perhaps not
  have hafter : InUse r heap' us ∨ blockEnd r d c + 8 + 1024 ≤ r.stop ∧
      InUse r heap' (us ++ [⟨blockEnd r d c, blockEnd r (blockEnd r d c) 1024, true⟩]) := by
    rcases runScript_heap hfile blockEnd_le hpos hu hrun with hu₁ | ⟨htemp, hu₁⟩
    · exact .inl (hu₁.free_last hfree)
    · rw [List.append_assoc] at hu₁
      exact .inr ⟨htemp, InUse.free_block (s := ⟨d, blockEnd r d c, true⟩) hu₁ hfree⟩
  obtain ⟨bs, live, hinv, hroom'⟩ := room_behind hs hd hde hafter
  have hinfo := mbGenInfo_some hinv hpos hcount hroom' hgen
  cases info with
  | none => exact absurd rfl hinfo
  | some info =>
    cases h
    exact Outcome.noConfusion

/-- Without the file there is no buffer for it. -/
theorem bootFromConfig_notFound {st stEnd : Boot} {out : Outcome} {calls : List Call}
    {ret : FatFs.FindResult} {fs : FatFs}
    (hpath : FatFs.findByPath w v fuel st.fs bootConfigName = some (ret, fs))
    (hret : ∀ finfo, ret ≠ .ok finfo)
    (h : bootFromConfig w v mc fuel st = some (out, stEnd, calls)) : out = .halted := by
  unfold bootFromConfig at h
  rw [hpath] at h
  cases ret with
  | ok finfo => exact absurd rfl (hret finfo)
  | nameInvalid =>
    cases h
    rfl
  | ioError =>
    cases h
    rfl
  | noEntry =>
    cases h
    rfl
  | notDir =>
    cases h
    rfl

/-- **The file buffer.** It is used while it is null exactly if the file does
    not fit behind the driver and reading it does not fail at once. -/
theorem bootFromConfig_iff {st stEnd : Boot} {out : Outcome} {calls : List Call}
    {finfo : FatFile} {fs : FatFs} (hu : InUse r st.heap us) (hs : Stacked r us d)
    (hd : d + 3508 ≤ r.stop) (hpos : 0 < r.basePtr) (hcount : (mc.mmap.getD []).length ≤ 32)
    (hpath : FatFs.findByPath w v fuel st.fs bootConfigName = some (.ok finfo, fs))
    (h : bootFromConfig w v mc fuel st = some (out, stEnd, calls)) :
    out ≠ .nullBuffer ↔ (finfo.size ≤ bootConfigMaxSize →
      r.stop < d + 8 + roundCount (UInt32.ofNat (finfo.size + 1)).toNat →
      FailsAtOnce w v fuel fs finfo) := by
  obtain ⟨found, hpath', h⟩ := Option.bind_eq_some_iff.mp h
  cases hpath.symm.trans hpath'
  dsimp only at h
  split at h
  · next hbig =>
    cases h
    constructor
    · intro _ hsmall
      omega
    · intro _
      exact Outcome.noConfusion
  next hsmall =>
  obtain ⟨⟨p, heap⟩, hmalloc, h⟩ := Option.bind_eq_some_iff.mp h
  obtain ⟨⟨rdRet, data, fs'⟩, hread, h⟩ := Option.bind_eq_some_iff.mp h
  dsimp only at h hread
  have hle : d ≤ r.stop := by omega
  rcases hu.malloc_stacked hs hle hpos hmalloc with ⟨hfull, rfl, rfl⟩ | ⟨hroom, rfl, hu'⟩
  · -- no room: `BOOT.CFG` is read through a null pointer, unless that fails
    have hfails : FailsAtOnce w v fuel fs finfo ↔ rdRet < 0 ∧ data = [] := by
      constructor
      · intro hfails
        exact hfails _ _ _ hread
      · intro hnow ret data' fs'' hread'
        rw [hread] at hread'
        cases hread'
        exact hnow
    -- anything that is read is stored
    by_cases huse : data ≠ [] ∨ 0 ≤ rdRet
    · rw [if_pos (by simpa using huse)] at h
      cases h
      constructor
      · intro hne
        exact absurd rfl hne
      · intro hall
        obtain ⟨hneg, hnil⟩ := hfails.mp (hall (by omega) hfull)
        rcases huse with hdata | hnonneg
        · exact absurd hnil hdata
        · omega
    · rw [if_neg (by simpa using huse)] at h
      simp only [not_or, ne_eq, not_not, not_le] at huse
      rw [if_pos huse.2] at h
      cases h
      constructor
      · intro _ _ _
        exact hfails.mpr huse.symm
      · intro _
        exact Outcome.noConfusion
  · rw [if_neg (by simp)] at h
    split at h
    · cases h
      constructor
      · intro _ _ hfull
        omega
      · intro _
        exact Outcome.noConfusion
    · constructor
      · intro _ _ hfull
        omega
      · intro _
        exact runConfig_safe hs hd hroom hpos hcount hu' h

end Config

/-! ## Section 4: The driver -/

/-- The cluster sizes that FAT allows, in sectors. -/
def Volume.FormatAllows (v : Volume) : Prop :=
  v.super.sectorsPerCluster ∈ [1, 2, 4, 8, 16, 32, 64, 128]

instance : Decidable v.FormatAllows :=
  inferInstanceAs (Decidable (v.super.sectorsPerCluster ∈ [1, 2, 4, 8, 16, 32, 64, 128]))

/-- Where `_start` puts the heap: behind the image and the stack of stage2,
    whose end is a multiple of 512. -/
structure Machine.Placed (mc : Machine) : Prop where
  aligned : mc.heapPtr % 4 = 0
  pos : 0 < mc.heapPtr
  fits : mc.heapPtr + heapMaxSize < 2 ^ 32

def Machine.Placed.region (hp : mc.Placed) : HeapRegion where
  basePtr := mc.heapPtr
  maxSize := heapMaxSize
  aligned := hp.aligned
  room := heapMaxSize_ge
  fits := hp.fits

theorem Machine.Placed.stop (hp : mc.Placed) : hp.region.stop = mc.heapPtr + 8192 := by
  simp only [HeapRegion.stop, Machine.Placed.region, heapMaxSize]

/-- A check in front of the driver fails, and is reported. -/
def Machine.StopsEarly (mc : Machine) : Prop :=
  mc.geometry = none ∨ mc.enableA20 = false ∨ mc.mmap = none

/-- The driver as it is constructed. -/
def freshFs (w : World) : FatFs := FatFs.new (w.uninit .fatWindow []) (w.uninit .dataWindow [])

theorem loadSectors_unstored {fs : FatFs} {lba n : Nat} (hlba : lba < 2 ^ 32) (hn : 0 < n)
    (hload : w.loadSector v fs.loads lba = (false, [])) :
    (FatFs.loadSectors w v lba 0 n fs).1 = false := by
  cases n with
  | zero => omega
  | succ n =>
    unfold FatFs.loadSectors
    rw [Nat.add_zero, u32_of_lt hlba, hload]
    rfl

/-- The root directory of which nothing is stored is reported. -/
theorem findInDirectory_unstored (hstored : windowStored w v = false)
    (hsectors : 0 < v.super.sectorsPerCluster) {name : Bytes} {ret : FatFs.FindResult} {fs : FatFs}
    (h : FatFs.findInDirectory w v fuel (freshFs w) (FatFs.rootDir v) name = some (ret, fs))
    (finfo : FatFile) : ret ≠ .ok finfo := by
  unfold FatFs.findInDirectory at h
  split at h
  · cases h
    exact FatFs.FindResult.noConfusion
  split at h
  · cases h
    exact FatFs.FindResult.noConfusion
  cases fuel with
  | zero => cases h
  | succ n =>
    unfold FatFs.findLoop at h
    split at h
    · cases h
      exact FatFs.FindResult.noConfusion
    next hend =>
    have hend : ¬ v.super.rootDirIndex ≥ FatFs.endOfChain := hend
    -- the first cluster of the root directory cannot be read
    have hload : (FatFs.loadDataCluster w v (freshFs w) (FatFs.rootDir v).cluster).1 = false := by
      have hroot : (FatFs.rootDir v).cluster = v.super.rootDirIndex := rfl
      rw [hroot]
      unfold FatFs.loadDataCluster
      split
      · rfl
      next hlow =>
      split
      · next hcached =>
        have hnone : (freshFs w).currentDataCluster = 0xFFFFFFFF := rfl
        have hlimit : FatFs.endOfChain = 0x0FFFFFF0 := rfl
        omega
      · have hfails : w.loadSector v (freshFs w).loads
            (v.super.clusterIndex2Sector v.super.rootDirIndex) = (false, []) := by
          have hlow : 2 ≤ v.super.rootDirIndex := by omega
          have hend : v.super.rootDirIndex < FatFs.endOfChain := by omega
          show w.loadSector v [] _ = (false, [])
          simpa [windowStored, hlow, hend] using hstored
        have hfirst := loadSectors_unstored (v.super.clusterIndex2Sector_lt _) hsectors hfails
        split
        · next heq =>
          rw [heq] at hfirst
          cases hfirst
        · rfl
    split at h
    · cases h
      exact FatFs.FindResult.noConfusion
    · next heq =>
      rw [heq] at hload
      cases hload

theorem findByPath_unstored (hstored : windowStored w v = false)
    (hsectors : 0 < v.super.sectorsPerCluster) {ret : FatFs.FindResult} {fs : FatFs}
    (h : FatFs.findByPath w v fuel (freshFs w) bootConfigName = some (ret, fs))
    (finfo : FatFile) : ret ≠ .ok finfo := by
  cases fuel with
  | zero => cases h
  | succ n =>
    -- the name has no slash: one lookup, in the root directory
    have hstep : FatFs.findByPath w v (n + 1) (freshFs w) bootConfigName =
        (FatFs.findInDirectory w v (n + 1) (freshFs w) (FatFs.rootDir v) bootConfigName).bind _ :=
      rfl
    rw [hstep] at h
    obtain ⟨⟨ret₁, fs₁⟩, hfind, h⟩ := Option.bind_eq_some_iff.mp h
    have hnot := findInDirectory_unstored hstored hsectors hfind
    cases ret₁ with
    | ok out => exact absurd rfl (hnot out)
    | nameInvalid =>
      cases h
      exact FatFs.FindResult.noConfusion
    | ioError =>
      cases h
      exact FatFs.FindResult.noConfusion
    | noEntry =>
      cases h
      exact FatFs.FindResult.noConfusion
    | notDir =>
      cases h
      exact FatFs.FindResult.noConfusion

/-- How far `main` gets: it stops at a check, uses a window that it did not get,
    or has a driver, and behind it the rest of the heap. -/
theorem main_cases (hp : mc.Placed) (hsector : v.sectorSize = 512) {out : Outcome} {st : Boot}
    {calls : List Call} (hmain : main w v mc fuel = some (out, st, calls)) :
    (mc.StopsEarly ∧ out = .halted) ∨
    (¬ mc.StopsEarly ∧ 7604 < v.bytesPerCluster ∧ windowStored w v = true ∧ out = .nullBuffer) ∨
    (¬ mc.StopsEarly ∧ (v.bytesPerCluster ≤ 7604 ∨ windowStored w v = false) ∧
      ∃ st₀, st₀.fs = freshFs w ∧ bootFromConfig w v mc fuel st₀ = some (out, st, calls) ∧
        (v.bytesPerCluster + 12 ≤ 7604 → ∃ us, InUse hp.region st₀.heap us ∧
          Stacked hp.region us (mc.heapPtr + 588 + v.bytesPerCluster))) := by
  have hstop := hp.stop
  have hpos : 0 < hp.region.basePtr := hp.pos
  have hcluster : v.bytesPerCluster % 4 = 0 ∧ v.bytesPerCluster < 2 ^ 32 := by
    have hlt := v.super.sectorsPerCluster_lt
    rw [Volume.bytesPerCluster, hsector]
    omega
  have hbase : ∀ n ≤ 8192, hp.region.basePtr + n ≤ hp.region.stop := by
    intro n hn
    rw [hstop]
    exact Nat.add_le_add_left hn _
  obtain ⟨⟨part, heap⟩, hpart, hmain⟩ := Option.bind_eq_some_iff.mp hmain
  dsimp only at hmain
  obtain ⟨rfl, us₁, hu₁, hs₁⟩ := (inUse_start hp.region mc.memory).malloc_push
    (stacked_nil hp.region) hpos (c := 20) rfl (hbase 40 (by omega)) hpart
  by_cases hgeom : mc.geometry = none
  · rw [if_pos (by simp [hgeom])] at hmain
    cases hmain
    exact .inl ⟨.inl hgeom, rfl⟩
  rw [if_neg (by simpa using hgeom)] at hmain
  by_cases ha20 : mc.enableA20 = false
  · rw [if_pos (by simp [ha20])] at hmain
    cases hmain
    exact .inl ⟨.inr (.inl ha20), rfl⟩
  rw [if_neg (by simpa using ha20)] at hmain
  by_cases hmap : mc.mmap = none
  · rw [if_pos (by simp [hmap])] at hmain
    cases hmain
    exact .inl ⟨.inr (.inr hmap), rfl⟩
  rw [if_neg (by simpa using hmap)] at hmain
  have hgoes : ¬ mc.StopsEarly := by
    rintro (h | h | h)
    · exact hgeom h
    · exact ha20 h
    · exact hmap h
  obtain ⟨⟨fs, heap₂⟩, hfs, hmain⟩ := Option.bind_eq_some_iff.mp hmain
  dsimp only at hmain
  obtain ⟨rfl, us₂, hu₂, hs₂⟩ := hu₁.malloc_push hs₁ hpos (c := 24) rfl
    (hbase 72 (by omega)) hfs
  rw [if_neg (by omega)] at hmain
  obtain ⟨⟨fatWindow, heap₃⟩, hfat, hmain⟩ := Option.bind_eq_some_iff.mp hmain
  obtain ⟨⟨dataWindow, heap₄⟩, hdata, hmain⟩ := Option.bind_eq_some_iff.mp hmain
  dsimp only at hmain hdata
  rw [hsector] at hfat
  obtain ⟨rfl, us₃, hu₃, hs₃⟩ := hu₂.malloc_push hs₂ hpos (c := 512)
    (roundCount_ofNat (by omega) (by omega)) (hbase 592 (by omega)) hfat
  have hround := roundCount_ofNat hcluster.1 hcluster.2
  rcases hu₃.malloc_stacked hs₃ (hbase 580 (by omega)) hpos hdata with
    ⟨hfull, rfl, rfl⟩ | ⟨hroom, rfl, hu₄⟩
  · -- no room for the data window
    rw [hround, hstop] at hfull
    have hlarge : 7604 < v.bytesPerCluster := by
      have hb : hp.region.basePtr = mc.heapPtr := rfl
      omega
    by_cases hstored : windowStored w v = true
    · rw [if_pos (by simp [hstored])] at hmain
      cases hmain
      exact .inr (.inl ⟨hgoes, hlarge, hstored, rfl⟩)
    · rw [if_neg (by simp [hstored])] at hmain
      refine .inr (.inr ⟨hgoes, .inr (by simpa using hstored), _, ?_, hmain, ?_⟩)
      · rfl
      · intro hsmall
        omega
  · rw [if_neg (by simp)] at hmain
    rw [hround] at hroom hu₄
    refine .inr (.inr ⟨hgoes, .inl ?_, _, ?_, hmain, ?_⟩)
    · have hb : hp.region.basePtr = mc.heapPtr := rfl
      omega
    · rfl
    · intro hsmall
      have hpush := hs₃.push hroom
      have hb : hp.region.basePtr = mc.heapPtr := rfl
      have hend : blockEnd hp.region (hp.region.basePtr + 8 + 20 + 8 + 24 + 8 + 512)
          v.bytesPerCluster = mc.heapPtr + 588 + v.bytesPerCluster := by
        rw [blockEnd_of_room (by omega)]
        omega
      rw [hend] at hu₄ hpush
      exact ⟨_, hu₄, hpush⟩

/-! ## Section 5: Which boots use what they did not get -/

/-- The heap is large enough for the clusters and the configuration file, or
    `main` reports some other failure before it gets there. -/
def Roomy (w : World) (v : Volume) (mc : Machine) (fuel : Nat) : Prop :=
  mc.StopsEarly ∨
  (v.super.sectorsPerCluster ≤ 8 ∨ windowStored w v = false) ∧
    ∀ finfo fs, FatFs.findByPath w v fuel (freshFs w) bootConfigName = some (.ok finfo, fs) →
      v.super.sectorsPerCluster = 8 → 3500 ≤ finfo.size → finfo.size ≤ bootConfigMaxSize →
      FailsAtOnce w v fuel fs finfo

theorem roundCount_le_iff {n k : Nat} (hk : k % 4 = 0) (hn : n + 4 < 2 ^ 32) :
    roundCount (UInt32.ofNat n).toNat ≤ k ↔ n ≤ k := by
  have hlt : n < 2 ^ 32 := by omega
  rw [UInt32.toNat_ofNat_of_lt' hlt, roundCount]
  split
  · rw [u32_of_lt (by omega)]
    omega
  · exact Iff.rfl

/-- Behind the driver there are 7604 bytes for the data window and the file. -/
theorem fileBuffer_full_iff {bytes sectors size : Nat} (hbytes : bytes = sectors * 512)
    (hsteps : sectors ≤ 4 ∨ sectors = 8) (hsize : size ≤ bootConfigMaxSize) :
    mc.heapPtr + 8192 < mc.heapPtr + 588 + bytes + 8 +
      roundCount (UInt32.ofNat (size + 1)).toNat ↔ sectors = 8 ∧ 3500 ≤ size := by
  have hsize : size ≤ 4096 := hsize
  have hround := roundCount_le_iff (n := size + 1) (k := 7596 - bytes) (by omega) (by omega)
  omega

/-- Once the file is found, its size alone decides. -/
theorem bootFromConfig_size_iff (hp : mc.Placed) (hcount : (mc.mmap.getD []).length ≤ 32)
    (hsize : v.bytesPerCluster = v.super.sectorsPerCluster * 512)
    (hsteps : v.super.sectorsPerCluster ≤ 4 ∨ v.super.sectorsPerCluster = 8)
    {st stEnd : Boot} {out : Outcome} {calls : List Call} {us : List Block} {finfo : FatFile}
    {fs : FatFs} (hu : InUse hp.region st.heap us)
    (hs : Stacked hp.region us (mc.heapPtr + 588 + v.bytesPerCluster))
    (hpath : FatFs.findByPath w v fuel st.fs bootConfigName = some (.ok finfo, fs))
    (hboot : bootFromConfig w v mc fuel st = some (out, stEnd, calls)) :
    out ≠ .nullBuffer ↔ (v.super.sectorsPerCluster = 8 → 3500 ≤ finfo.size →
      finfo.size ≤ bootConfigMaxSize → FailsAtOnce w v fuel fs finfo) := by
  have hstop := hp.stop
  rw [bootFromConfig_iff hu hs (by omega) hp.pos hcount hpath hboot, hstop]
  constructor
  · intro hall height hlong hle
    exact hall hle ((fileBuffer_full_iff hsize hsteps hle).mpr ⟨height, hlong⟩)
  · intro hfails hle hfull
    obtain ⟨height, hlong⟩ := (fileBuffer_full_iff hsize hsteps hle).mp hfull
    exact hfails height hlong hle

/-- **No boot uses a null pointer** exactly if there is room: on every volume
    whose clusters FAT allows, for every configuration file, every memory map of
    up to 32 entries and whatever the script does. -/
theorem main_null_iff (hp : mc.Placed) (hsector : v.sectorSize = 512) (hformat : v.FormatAllows)
    (hmap : ∀ map, mc.mmap = some map → map.length ≤ 32) {out : Outcome} {st : Boot}
    {calls : List Call} (hmain : main w v mc fuel = some (out, st, calls)) :
    out ≠ .nullBuffer ↔ Roomy w v mc fuel := by
  have hcount : (mc.mmap.getD []).length ≤ 32 := by
    cases hmc : mc.mmap with
    | none => simp
    | some map => exact hmap map hmc
  have hsize : v.bytesPerCluster = v.super.sectorsPerCluster * 512 := by
    rw [Volume.bytesPerCluster, hsector]
  simp only [Volume.FormatAllows, List.mem_cons, List.not_mem_nil, or_false] at hformat
  -- main stops early, on the windows, or gets to the configuration
  rcases main_cases hp hsector hmain with
    ⟨hearly, rfl⟩ | ⟨hgoes, hlarge, hstored, rfl⟩ | ⟨hgoes, hwindow, st₀, hfs, hboot, hstack⟩
  · constructor
    · intro _
      exact .inl hearly
    · intro _
      exact Outcome.noConfusion
  · constructor
    · intro hne
      exact absurd rfl hne
    · intro hroomy
      rcases hroomy with hearly | ⟨hsmall | hunstored, -⟩
      · exact absurd hearly hgoes
      · omega
      · rw [hstored] at hunstored
        cases hunstored
  · obtain ⟨⟨ret, fs⟩, hpath, -⟩ := Option.bind_eq_some_iff.mp hboot
    have hfresh := hpath
    rw [hfs] at hfresh
    have hclusters : v.super.sectorsPerCluster ≤ 8 ∨ windowStored w v = false := by
      rcases hwindow with hsmall | hunstored
      · exact .inl (by omega)
      · exact .inr hunstored
    -- without `BOOT.CFG` there is no third allocation
    by_cases hfound : ∃ finfo, ret = .ok finfo
    swap
    · have hnot : ∀ finfo, ret ≠ .ok finfo := fun finfo hok => hfound ⟨finfo, hok⟩
      rw [bootFromConfig_notFound hpath hnot hboot]
      constructor
      · intro _
        refine .inr ⟨hclusters, ?_⟩
        intro finfo fs' hpath'
        rw [hfresh] at hpath'
        cases hpath'
        exact absurd rfl (hnot finfo)
      · intro _
        exact Outcome.noConfusion
    · obtain ⟨finfo, rfl⟩ := hfound
      -- a window that is not stored finds no file
      have hsmall : v.super.sectorsPerCluster ≤ 8 := by
        rcases hclusters with hsmall | hunstored
        · exact hsmall
        · exact absurd rfl (findByPath_unstored hunstored (by omega) hfresh finfo)
      obtain ⟨us, hu, hs⟩ := hstack (by omega)
      rw [bootFromConfig_size_iff hp hcount hsize (by omega) hu hs hpath hboot]
      constructor
      · intro hall
        refine .inr ⟨.inl hsmall, ?_⟩
        intro finfo' fs' hpath'
        rw [hfresh] at hpath'
        cases hpath'
        exact hall
      · intro hroomy
        rcases hroomy with hearly | ⟨-, hfails⟩
        · exact absurd hearly hgoes
        · exact hfails finfo fs hfresh

/-! ## Section 6: Volumes -/

/-- A volume whose clusters have `n` sectors; `BOOT.CFG` has `size` bytes. -/
def bigClusters (n size : Nat) : Volume where
  super := ⟨splice sampleSuper.raw 13 (leBytes 1 n)⟩
  sectorSize := 512
  sector lba := toSector (
    if lba = 1 then [0x0FFFFFF8, 0x0FFFFFFF, 0x0FFFFFFF, 0x0FFFFFFF].flatMap (leBytes 4)
    else if lba = 2 then (sampleRecord (str "BOOT") (str "CFG") 3 size).raw
    else [])
  sectorSize_lt := sectorBytes_lt
  length_sector lba := by
    unfold toSector
    rw [List.length_take, List.length_append, List.length_replicate]
    omega

theorem sampleMachine_placed : sampleMachine.Placed where
  aligned := by decide
  pos := by decide
  fits := by decide

/-- 16 sectors make a window of 8192 bytes, and with 8 sectors there is no room
    for a configuration file of 3500 bytes. -/
theorem main_uses_null :
    ((bigClusters 16 0).FormatAllows ∧
      (main reliable (bigClusters 16 0) sampleMachine 60).map (·.1) = some .nullBuffer) ∧
    ((bigClusters 8 3500).FormatAllows ∧
      (main reliable (bigClusters 8 3500) sampleMachine 60).map (·.1) = some .nullBuffer) := by
  refine ⟨⟨?_, ?_⟩, ?_, ?_⟩
  · decide
  · decide
  · decide
  · decide

/-- There is room for the boot with two kernels, which starts one of them. -/
theorem roomy_twoKernels : Roomy reliable twoKernels sampleMachine 60 := by
  obtain ⟨st, calls, hmain, -⟩ := main_twoKernels
  have hformat : twoKernels.FormatAllows := by decide
  have hmap : ∀ map, sampleMachine.mmap = some map → map.length ≤ 32 := by
    intro map hmap
    cases hmap
    decide
  exact (main_null_iff sampleMachine_placed rfl hformat hmap hmain).mp Outcome.noConfusion

end Hausboot

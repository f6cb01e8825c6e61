import Hausboot.Stage2.Load

/-! # The stage2 Boot Loader: Where Loading Is Exact

    The bound of the copy loop compares a file offset with a length, a block
    is not cut at the end of the segment, and the BSS is cleared behind the
    last block. So the loaded image is the declared segment only if the three
    numbers happen to fit. This file states for which kernels they do. -/

open ByteLib

namespace Hausboot

/-- Where high memory starts. -/
def highMemory : Nat := 0x100000

variable {v : Volume} {finfo : FatFile} {l : List Nat} {hdr : MultiBootHeader}
  {off fileStart memStart count : Nat}

theorem KernelFile.movedBytes_lt (hk : KernelFile v finfo l) (fileStart count : Nat) :
    movedBytes (v.fileBytes finfo l).length fileStart count < 2 ^ 32 := by
  have hle := movedBytes_le (v.fileBytes finfo l).length fileStart count
  have hlen := hk.length_le
  have hsize := hk.size_lt
  omega

/-- The memory after a successful call, `i` bytes behind `memStart`. -/
theorem mbLoadKernel_apply (hk : KernelFile v finfo l) (hoff : off < finfo.size)
    (hlay : hdr.extractMemLayout off finfo.size = some (fileStart, memStart, count))
    {w : World} {st st' : Boot} (hco : Coherent v st.fs) {fuel : Nat}
    (hcall : mbLoadKernel w v fuel st finfo hdr off = some (true, st')) (mem : Store) (a : Nat) :
    let m := movedBytes (v.fileBytes finfo l).length fileStart count
    PmCall.runAll st'.pmCalls mem a =
      if sub32 a memStart < m then
        if sub32 a memStart + 2 ^ 32 < m + hdr.bssSize then 0
        else (v.fileBytes finfo l).getD (fileStart + sub32 a memStart) 0
      else if sub32 a memStart < m + hdr.bssSize then 0
      else PmCall.runAll st.pmCalls mem a := by
  intro m
  have hlen := length_loadedPart (v.fileBytes finfo l) fileStart count
  have hm := hk.movedBytes_lt fileStart count
  rw [mbLoadKernel_memory hk hoff hlay hco hcall mem,
    loadedMemory_apply _ _ _ _ (by rw [hlen]; exact hm), hlen]
  by_cases hin : sub32 a memStart < movedBytes (v.fileBytes finfo l).length fileStart count
  · rw [if_pos hin, if_pos hin, getD_loadedPart _ _ _ (by rw [hlen]; exact hin)]
  · rw [if_neg hin, if_neg hin]

theorem uint8_add_one_ne (x : UInt8) : x + 1 ≠ x := by
  intro h
  have := congrArg UInt8.toNat h
  rw [UInt8.toNat_add] at this
  have hx := x.toNat_lt
  simp only [UInt8.reduceToNat] at this
  omega

/-- Some memory that differs from every byte of the file at its place. -/
theorem exists_otherMemory (file : Bytes) (fileStart memStart : Nat) :
    ∃ mem : Store, ∀ i, mem (memStart + i) ≠ file.getD (fileStart + i) 0 :=
  ⟨fun a => file.getD (fileStart + (a - memStart)) 0 + 1, fun i => by
    show file.getD (fileStart + (memStart + i - memStart)) 0 + 1 ≠ _
    rw [Nat.add_sub_cancel_left]
    exact uint8_add_one_ne _⟩

/-! ## Section 1: Sample kernels -/

/-- A valid header with layout information at the start of its segment. -/
def sampleHeader (loadAddr loadEndAddr bssEndAddr entryAddr : Nat) : MultiBootHeader where
  raw := [MultiBootHeader.magicValue, MultiBootHeader.haveLayoutInfo, 0xE4514FFE, loadAddr,
    loadAddr, loadEndAddr, bssEndAddr, entryAddr].flatMap (leBytes 4)

/-- 16 bytes in front of a kernel of 32 bytes: the bound of the copy loop is
    16, which is where the loop would start. -/
def shiftedHeader : MultiBootHeader := sampleHeader 0x100000 0x100020 0x100020 0x100000

def shiftedKernel : Volume :=
  sampleVolume [0x0FFFFFF8, 0x0FFFFFFF, 0x0FFFFFFF, 0x0FFFFFFF] fun lba =>
    if lba = 3 then List.replicate 16 0xAA ++ shiftedHeader.raw else []

def shiftedKernelFile : FatFile := ⟨3, 48, 0⟩

theorem shiftedKernelFile_ok : KernelFile shiftedKernel shiftedKernelFile [3] where
  chain := .link (by decide) ⟨by decide, by decide⟩ (.done (by decide))
  pos := by decide
  size_lt := by decide

/-- A segment of 48 bytes at the front of a file of 64. -/
def trailingHeader : MultiBootHeader := sampleHeader 0x100000 0x100030 0x100030 0x100000

def trailingKernel : Volume :=
  sampleVolume [0x0FFFFFF8, 0x0FFFFFFF, 0x0FFFFFFF, 0x0FFFFFFF] fun lba =>
    if lba = 3 then trailingHeader.raw ++ List.replicate 32 0xAA else []

def trailingKernelFile : FatFile := ⟨3, 64, 0⟩

theorem trailingKernelFile_ok : KernelFile trailingKernel trailingKernelFile [3] where
  chain := .link (by decide) ⟨by decide, by decide⟩ (.done (by decide))
  pos := by decide
  size_lt := by decide

/-! ## Section 2: The memory layout -/

/-- Where the segment starts in the file, and how long it is: the differences
    that `ExtractMemLayout` takes, as integers. -/
def MultiBootHeader.layoutStart (hdr : MultiBootHeader) (hdrFileOffset : Nat) : Int :=
  hdrFileOffset - ((hdr.hdrAddr : Int) - hdr.loadAddr)

def MultiBootHeader.layoutCount (hdr : MultiBootHeader) : Int :=
  (hdr.loadEndAddr : Int) - hdr.loadAddr

/-- The layout that a header declares is in order and lies inside of the file. -/
structure LayoutFits (hdr : MultiBootHeader) (hdrFileOffset filesize : Nat) : Prop where
  order : hdr.loadAddr < hdr.loadEndAddr
  bss : hdr.loadAddr ≤ hdr.bssEndAddr
  header : hdr.loadAddr ≤ hdr.hdrAddr ∧ hdr.hdrAddr < hdr.loadEndAddr
  entry : hdr.loadAddr ≤ hdr.entryAddr ∧ hdr.entryAddr < hdr.loadEndAddr
  start : (hdr.hdrAddr : Int) - hdr.loadAddr ≤ hdrFileOffset
  fits : hdr.layoutStart hdrFileOffset + hdr.layoutCount ≤ filesize

/-- **The layout is decided exactly**, whatever stands in the header: no
    difference in 32 bits wraps in a way that changes the answer. -/
theorem extractMemLayout_exact (hdr : MultiBootHeader) {hdrFileOffset filesize : Nat}
    (hoff : hdrFileOffset < filesize) (hsize : filesize < 2 ^ 32) :
    ((hdr.extractMemLayout hdrFileOffset filesize).isSome = true ↔
      LayoutFits hdr hdrFileOffset filesize) ∧
    ∀ fileStart memStart count,
      hdr.extractMemLayout hdrFileOffset filesize = some (fileStart, memStart, count) →
      (fileStart : Int) = hdr.layoutStart hdrFileOffset ∧ memStart = hdr.loadAddr ∧
        (count : Int) = hdr.layoutCount := by
  have hload : hdr.loadAddr < 2 ^ 32 := hdr.field_lt 4
  have hend : hdr.loadEndAddr < 2 ^ 32 := hdr.field_lt 5
  have hhdr : hdr.hdrAddr < 2 ^ 32 := hdr.field_lt 3
  unfold MultiBootHeader.extractMemLayout
  dsimp only
  -- each check that fails contradicts one part of `LayoutFits`
  split
  · next hle =>
    exact ⟨⟨nofun, fun h => by have := h.order; omega⟩, nofun⟩
  split
  · next hlt =>
    exact ⟨⟨nofun, fun h => by have := h.bss; omega⟩, nofun⟩
  split
  · next hout =>
    simp only [Bool.or_eq_true, decide_eq_true_eq] at hout
    exact ⟨⟨nofun, fun h => by have := h.header; omega⟩, nofun⟩
  split
  · next hout =>
    simp only [Bool.or_eq_true, decide_eq_true_eq] at hout
    exact ⟨⟨nofun, fun h => by have := h.entry; omega⟩, nofun⟩
  next horder hbss hheader hentry =>
  simp only [Bool.or_eq_true, decide_eq_true_eq, not_or, Nat.not_lt, Nat.not_le] at *
  rw [sub32_of_le (a := hdr.hdrAddr) (by omega) hhdr, sub32_of_le (by omega) hend]
  split
  · next hfar =>
    exact ⟨⟨nofun, fun h => by have := h.start; omega⟩, nofun⟩
  next hnear =>
  -- the header lies in the file, so there is no wrap from here on
  have hstart : (if hdrFileOffset > hdr.hdrAddr - hdr.loadAddr then
      sub32 hdrFileOffset (hdr.hdrAddr - hdr.loadAddr) else 0) =
      hdrFileOffset - (hdr.hdrAddr - hdr.loadAddr) := by
    split
    · exact sub32_of_le (by omega) (by omega)
    · omega
  rw [hstart, sub32_of_le (by omega) hsize]
  split
  · next hfits =>
    refine ⟨⟨fun _ => ⟨horder, hbss, hheader, hentry, by omega, ?_⟩, fun _ => rfl⟩, ?_⟩
    · unfold MultiBootHeader.layoutStart MultiBootHeader.layoutCount
      omega
    · intro fileStart memStart count heq
      cases heq
      unfold MultiBootHeader.layoutStart MultiBootHeader.layoutCount
      exact ⟨by omega, rfl, by omega⟩
  · next hlong =>
    refine ⟨⟨nofun, fun h => ?_⟩, nofun⟩
    have hfits := h.fits
    unfold MultiBootHeader.layoutStart MultiBootHeader.layoutCount at hfits
    omega

/-- A header 16 bytes behind the start of the file. -/
theorem extractMemLayout_exact_shifted : LayoutFits shiftedHeader 16 48 :=
  (extractMemLayout_exact shiftedHeader (by decide) (by decide)).1.mp (by decide)

/-! ## Section 3: The declared segment -/

/-- **Which kernels are loaded exactly**: every successful call puts the file
    bytes of the segment into the memory range of the segment exactly if the
    file has these bytes, the loop and the BSS together reach to the end of the
    range, and each non-zero byte lies within the part that the loop moves and
    is not cleared again by a BSS that runs around the address space. -/
theorem mbLoadKernel_exact_iff (hk : KernelFile v finfo l) (hoff : off < finfo.size)
    (hlay : hdr.extractMemLayout off finfo.size = some (fileStart, memStart, count)) :
    (∀ w st st' fuel mem, Coherent v st.fs →
      mbLoadKernel w v fuel st finfo hdr off = some (true, st') → ∀ i < count,
        (v.fileBytes finfo l)[fileStart + i]? =
          some (PmCall.runAll st'.pmCalls mem (memStart + i))) ↔
    fileStart + count ≤ (v.fileBytes finfo l).length ∧
    count ≤ movedBytes (v.fileBytes finfo l).length fileStart count + hdr.bssSize ∧
    ∀ i < count, (v.fileBytes finfo l).getD (fileStart + i) 0 ≠ 0 →
      i < movedBytes (v.fileBytes finfo l).length fileStart count ∧
      movedBytes (v.fileBytes finfo l).length fileStart count + hdr.bssSize ≤ i + 2 ^ 32 := by
  generalize hfile : v.fileBytes finfo l = file
  generalize hm : movedBytes file.length fileStart count = m
  have hend : hdr.loadEndAddr < 2 ^ 32 := hdr.field_lt 5
  have hlayout := extractMemLayout_spec (by have := hk.size_lt; omega) hlay
  have hcount := hlayout.count_eq
  have hpos := hlayout.count_pos
  constructor
  · intro hall
    obtain ⟨w, fuel, st', hcall⟩ := exists_mbLoadKernel hk hoff hlay
    obtain ⟨mem, hother⟩ := exists_otherMemory file fileStart memStart
    have hbyte : ∀ i < count, file[fileStart + i]? =
        some (PmCall.runAll st'.pmCalls mem (memStart + i)) :=
      hall w freshBoot st' fuel mem (Coherent.new v [] []) hcall
    have hval : ∀ i < count, file.getD (fileStart + i) 0 =
        if i < m then
          if i + 2 ^ 32 < m + hdr.bssSize then 0 else file.getD (fileStart + i) 0
        else if i < m + hdr.bssSize then 0 else mem (memStart + i) := by
      intro i hi
      have happly := mbLoadKernel_apply hk hoff hlay (Coherent.new v [] []) hcall mem (memStart + i)
      rw [sub32_self_add (by omega), hfile, hm] at happly
      rw [List.getD_eq_getElem?_getD, hbyte i hi, happly]
      rw [List.getD_eq_getElem?_getD, hbyte i hi, happly]
      split <;> split <;> rfl
    refine ⟨?_, ?_, ?_⟩
    · have hlast := hbyte (count - 1) (by omega)
      obtain ⟨hlt, -⟩ := List.getElem?_eq_some_iff.mp hlast
      omega
    · -- else the first byte behind the BSS keeps its old value
      by_contra hshort
      have hv := hval (m + hdr.bssSize) (by omega)
      rw [if_neg (by omega), if_neg (by omega)] at hv
      exact hother _ hv.symm
    · intro i hi hne
      have hv := hval i hi
      by_contra hnot
      by_cases him : i < m
      · rw [if_pos him, if_pos (by omega)] at hv
        exact hne hv
      · rw [if_neg him] at hv
        split at hv
        · exact hne hv
        · exact hother i hv.symm
  · rintro ⟨hfit, hreach, hnonzero⟩ w st st' fuel mem hco hcall i hi
    have happly := mbLoadKernel_apply hk hoff hlay hco hcall mem (memStart + i)
    rw [sub32_self_add (by omega), hfile, hm] at happly
    rw [happly, List.getElem?_eq_getElem (by omega)]
    have hget : file.getD (fileStart + i) 0 = file[fileStart + i] := by
      rw [List.getD_eq_getElem?_getD, List.getElem?_eq_getElem (by omega), Option.getD_some]
    rw [← hget]
    by_cases hz : file.getD (fileStart + i) 0 = 0
    · rw [hz]
      by_cases him : i < m
      · rw [if_pos him, ite_self]
      · rw [if_neg him, if_pos (by omega)]
    · obtain ⟨him, hwrap⟩ := hnonzero i hi hz
      rw [if_pos him, if_neg (by omega)]

/-- The segment of `trailingKernel` is loaded exactly. -/
theorem mbLoadKernel_exact_trailing :
    (trailingKernel.fileBytes trailingKernelFile [3]).length = 64 ∧
    ∀ w st st' fuel mem, Coherent trailingKernel st.fs →
      mbLoadKernel w trailingKernel fuel st trailingKernelFile trailingHeader 0 =
        some (true, st') → ∀ i < 48,
        (trailingKernel.fileBytes trailingKernelFile [3])[0 + i]? =
          some (PmCall.runAll st'.pmCalls mem (0x100000 + i)) := by
  have hlen : (trailingKernel.fileBytes trailingKernelFile [3]).length = 64 := by decide
  have hmoved : movedBytes 64 0 48 = 64 := by decide
  refine ⟨hlen, ?_⟩
  apply (mbLoadKernel_exact_iff trailingKernelFile_ok (by decide) (by decide)).mpr
  rw [hlen, hmoved]
  exact ⟨by decide, by omega, fun i hi _ => ⟨by omega, by
    have hbss : trailingHeader.bssSize = 0 := by decide
    omega⟩⟩

/-- Nothing of the kernel in `shiftedKernel` reaches the memory. -/
theorem mbLoadKernel_skips_shifted :
    ∃ hdr st₁ st', mbFindHeader reliable shiftedKernel 20 freshBoot shiftedKernelFile =
        some (some (16, hdr), st₁) ∧
      hdr.extractMemLayout 16 shiftedKernelFile.size = some (16, 0x100000, 32) ∧
      mbLoadKernel reliable shiftedKernel 20 freshBoot shiftedKernelFile hdr 16 =
        some (true, st') ∧
      (shiftedKernel.fileBytes shiftedKernelFile [3])[16 + 0]? ≠
        some (PmCall.runAll st'.pmCalls (fun _ => 0) (0x100000 + 0)) := by
  have hfind : (mbFindHeader reliable shiftedKernel 20 freshBoot shiftedKernelFile).map Prod.fst =
      some (some (16, shiftedHeader)) := by
    decide
  have hload : (mbLoadKernel reliable shiftedKernel 20 freshBoot shiftedKernelFile
      shiftedHeader 16).map
        (fun r => (r.1, r.2.pmCalls)) = some (true, [.clear 0x100000 0]) := by
    decide
  obtain ⟨⟨_, st₁⟩, hfind, rfl⟩ := Option.map_eq_some_iff.mp hfind
  obtain ⟨⟨ok, st'⟩, hload, hres⟩ := Option.map_eq_some_iff.mp hload
  obtain ⟨rfl, hcalls⟩ := Prod.mk.inj hres
  refine ⟨_, st₁, st', hfind, by decide, hload, ?_⟩
  dsimp only at hcalls
  rw [hcalls]
  decide

/-! ## Section 4: The BSS and the memory around the segment -/

/-- High memory outside the segment and its BSS is as before. -/
def HighFrame (hdr : MultiBootHeader) (before after : Store) : Prop :=
  ∀ a, highMemory ≤ a → a < 2 ^ 32 →
    ¬ (hdr.loadAddr ≤ a ∧ a < max hdr.loadEndAddr hdr.bssEndAddr) → after a = before a

/-- The declared BSS is zero. -/
def BssZero (hdr : MultiBootHeader) (after : Store) : Prop :=
  ∀ a, hdr.loadEndAddr ≤ a → a < hdr.bssEndAddr → after a = 0

/-- The offset of an address from `memStart`, in front of it and behind it. -/
theorem sub32_cases {a d : Nat} (ha : a < 2 ^ 32) (hd : d < 2 ^ 32) :
    (d ≤ a ∧ sub32 a d = a - d) ∨ (a < d ∧ sub32 a d = a + 2 ^ 32 - d) := by
  unfold sub32
  omega

/-- **Which kernels are loaded cleanly**: every successful call leaves a zero
    BSS and writes no high memory outside the declared range exactly if the
    loop stops at the end of the segment; or stops before it and there is no
    BSS; or runs past it, but everything stays below high memory and the file
    bytes that lie over the BSS are zero. -/
theorem mbLoadKernel_clean_iff (hk : KernelFile v finfo l) (hoff : off < finfo.size)
    (hlay : hdr.extractMemLayout off finfo.size = some (fileStart, memStart, count)) :
    (∀ w st st' fuel mem, Coherent v st.fs →
      mbLoadKernel w v fuel st finfo hdr off = some (true, st') →
        BssZero hdr (PmCall.runAll st'.pmCalls mem) ∧
        HighFrame hdr (PmCall.runAll st.pmCalls mem) (PmCall.runAll st'.pmCalls mem)) ↔
    (movedBytes (v.fileBytes finfo l).length fileStart count = count ∨
     (movedBytes (v.fileBytes finfo l).length fileStart count < count ∧ hdr.bssSize = 0) ∨
     (count < movedBytes (v.fileBytes finfo l).length fileStart count ∧
      memStart + movedBytes (v.fileBytes finfo l).length fileStart count + hdr.bssSize
        ≤ highMemory ∧
      ∀ j < hdr.bssSize, count + j < movedBytes (v.fileBytes finfo l).length fileStart count →
        (v.fileBytes finfo l).getD (fileStart + count + j) 0 = 0)) := by
  have hm := hk.movedBytes_lt fileStart count
  generalize hfile : v.fileBytes finfo l = file at hm ⊢
  generalize hm' : movedBytes file.length fileStart count = m at hm ⊢
  have hend : hdr.loadEndAddr < 2 ^ 32 := hdr.field_lt 5
  have hbssEnd : hdr.bssEndAddr < 2 ^ 32 := hdr.field_lt 6
  have hlayout := extractMemLayout_spec (by have := hk.size_lt; omega) hlay
  have hcount := hlayout.count_eq
  have hstart := hlayout.memStart_eq
  have hpos := hlayout.count_pos
  have hbss := hdr.bssSize_eq
  generalize hz : hdr.bssSize = z at hbss ⊢
  constructor
  · intro hall
    obtain ⟨w, fuel, st', hcall⟩ := exists_mbLoadKernel hk hoff hlay
    obtain ⟨mem, hother⟩ := exists_otherMemory file fileStart memStart
    have happly := fun mem => mbLoadKernel_apply hk hoff hlay (Coherent.new v [] []) hcall mem
    simp only [hfile, hm', hz] at happly
    have hprop := fun mem => hall w freshBoot st' fuel mem (Coherent.new v [] []) hcall
    rcases Nat.lt_trichotomy m count with hlt | heq | hgt
    · -- the last byte of the BSS would keep its old value
      refine .inr (.inl ⟨hlt, ?_⟩)
      by_contra hzpos
      have hzero := (hprop fun _ => 1).1 (hdr.bssEndAddr - 1) (by omega) (by omega)
      have hsub := sub32_of_le (a := hdr.bssEndAddr - 1) (b := memStart) (by omega) (by omega)
      rw [happly, hsub, if_neg (by omega), if_neg (by omega)] at hzero
      have hone : PmCall.runAll freshBoot.pmCalls (fun _ => 1) (hdr.bssEndAddr - 1) = 1 := rfl
      rw [hone] at hzero
      exact absurd hzero (by decide)
    · exact .inl heq
    · have hbelow : memStart + m + z ≤ highMemory := by
        -- else a high address behind the declared range has been written
        by_contra hhigh
        have hlim : highMemory < 2 ^ 32 := by decide
        obtain ⟨a, ha, ham, hdecl, hhi⟩ : ∃ a, a < 2 ^ 32 ∧ a < memStart + m + z ∧
            memStart + count + z ≤ a ∧ highMemory ≤ a :=
          ⟨max (memStart + count + z) highMemory, by omega, by omega, by omega, by omega⟩
        have hkept := fun mem => (hprop mem).2 a hhi ha (by omega)
        have hsub := sub32_of_le (a := a) (b := memStart) (by omega) ha
        have hsame : PmCall.runAll st'.pmCalls (fun _ => 0) a =
            PmCall.runAll st'.pmCalls (fun _ => 1) a := by
          rw [happly, happly, hsub, if_pos (c := a - memStart < m + z) (by omega),
            if_pos (c := a - memStart < m + z) (by omega)]
        rw [hkept, hkept] at hsame
        have hne : PmCall.runAll freshBoot.pmCalls (fun _ => 0) a ≠
            PmCall.runAll freshBoot.pmCalls (fun _ => 1) a := by
          show (0 : UInt8) ≠ 1
          decide
        exact hne hsame
      refine .inr (.inr ⟨hgt, hbelow, ?_⟩)
      intro j hj hjm
      have hzero := (hprop fun _ => 0).1 (hdr.loadEndAddr + j) (by omega) (by omega)
      have hsub := sub32_of_le (a := hdr.loadEndAddr + j) (b := memStart) (by omega) (by omega)
      have hoff' : hdr.loadEndAddr + j - memStart = count + j := by omega
      have hlim : highMemory < 2 ^ 32 := by decide
      rw [happly, hsub, hoff', if_pos hjm, if_neg (by omega), ← Nat.add_assoc] at hzero
      exact hzero
  · intro hcond w st st' fuel mem hco hcall
    have happly := mbLoadKernel_apply hk hoff hlay hco hcall mem
    simp only [hfile, hm', hz] at happly
    have hlim : highMemory < 2 ^ 32 := by decide
    constructor
    · intro a hlo hhi
      rw [happly, sub32_of_le (by omega) (by omega)]
      by_cases ham : a - memStart < m
      · rw [if_pos ham]
        split
        · rfl
        · rcases hcond with heq | ⟨hlt, -⟩ | ⟨-, -, hzeros⟩
          · omega
          · omega
          · have hj := hzeros (a - hdr.loadEndAddr) (by omega) (by omega)
            rw [show fileStart + count + (a - hdr.loadEndAddr) = fileStart + (a - memStart) by
              omega] at hj
            exact hj
      · rw [if_neg ham, if_pos (by omega)]
    · intro a hhi ha hout
      rw [happly]
      -- the written range lies inside the declared one, or below high memory
      have hwritten : m + z ≤ count + z ∨ memStart + m + z ≤ highMemory := by
        rcases hcond with heq | ⟨hlt, -⟩ | ⟨-, hbelow, -⟩
        · exact .inl (by omega)
        · exact .inl (by omega)
        · exact .inr hbelow
      have hoffset : m + z ≤ sub32 a memStart := by
        rcases sub32_cases ha (show memStart < 2 ^ 32 by omega) with ⟨hle, hsub⟩ | ⟨hlt, hsub⟩
        · omega
        · omega
      rw [if_neg (by omega), if_neg (by omega)]

/-- Where nothing is loaded and there is no BSS, nothing is written. -/
theorem mbLoadKernel_clean_shifted :
    movedBytes 48 16 32 = 0 ∧
    ∀ w st st' fuel mem, Coherent shiftedKernel st.fs →
      mbLoadKernel w shiftedKernel fuel st shiftedKernelFile shiftedHeader 16 =
        some (true, st') →
        BssZero shiftedHeader (PmCall.runAll st'.pmCalls mem) ∧
        HighFrame shiftedHeader (PmCall.runAll st.pmCalls mem)
          (PmCall.runAll st'.pmCalls mem) := by
  have hlen : (shiftedKernel.fileBytes shiftedKernelFile [3]).length = 48 := by decide
  have hmoved : movedBytes 48 16 32 = 0 := by decide
  have hlay : shiftedHeader.extractMemLayout 16 shiftedKernelFile.size =
      some (16, 0x100000, 32) := by decide
  refine ⟨hmoved, ?_⟩
  apply (mbLoadKernel_clean_iff shiftedKernelFile_ok (by decide) hlay).mpr
  rw [hlen, hmoved]
  exact .inr (.inl ⟨by decide, by decide⟩)

/-- The bytes behind the segment of `trailingKernel` are loaded too, and change
    the memory behind the declared range. -/
theorem mbLoadKernel_overruns_trailing :
    ∃ hdr st₁ st', mbFindHeader reliable trailingKernel 20 freshBoot trailingKernelFile =
        some (some (0, hdr), st₁) ∧
      hdr.extractMemLayout 0 trailingKernelFile.size = some (0, 0x100000, 48) ∧
      mbLoadKernel reliable trailingKernel 20 freshBoot trailingKernelFile hdr 0 =
        some (true, st') ∧
      ¬ HighFrame hdr (PmCall.runAll freshBoot.pmCalls fun _ => 0)
        (PmCall.runAll st'.pmCalls fun _ => 0) := by
  have hfind : (mbFindHeader reliable trailingKernel 20 freshBoot trailingKernelFile).map
      Prod.fst = some (some (0, trailingHeader)) := by
    decide
  have hload : (mbLoadKernel reliable trailingKernel 20 freshBoot trailingKernelFile
      trailingHeader 0).map
      (fun r => (r.1, r.2.pmCalls)) =
      some (true,
        [.copy 0x100000 (trailingHeader.raw ++ List.replicate 32 0xAA), .clear 0x100040 0]) := by
    decide
  obtain ⟨⟨_, st₁⟩, hfind, rfl⟩ := Option.map_eq_some_iff.mp hfind
  obtain ⟨⟨ok, st'⟩, hload, hres⟩ := Option.map_eq_some_iff.mp hload
  obtain ⟨rfl, hcalls⟩ := Prod.mk.inj hres
  refine ⟨_, st₁, st', hfind, by decide, hload, ?_⟩
  dsimp only at hcalls
  intro hframe
  have hbyte := hframe 0x100030 (by decide) (by decide) (by decide)
  rw [hcalls] at hbyte
  revert hbyte
  decide

end Hausboot

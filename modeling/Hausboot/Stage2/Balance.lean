import Hausboot.Heap.BestFit
import Hausboot.Heap.Room
import Hausboot.Stage2.Started

/-! # The stage2 Boot Loader: Are the Buffers Freed?

    The command `multiboot` takes a buffer for the search and another one for
    the copy loop. `TempBuffer` says what holds of the heap around such a buffer;
    the results of Section 2 hold for any such pair of predicates.

    All ways out of the command free the buffer that they have taken, but for
    the one on which a read of the copy loop fails (`cmdMultiboot_balanced_iff`). -/

open ByteLib Tiling

namespace Hausboot

open HeapEntry

variable {w : World} {v : Volume} {fuel : Nat}

/-! ## Section 1: Reads of the copy loop -/

section Reads

variable (w : World) (v : Volume) (fuel : Nat)

/-- The copy loop gets from one offset to another, each read with a positive
    result. -/
inductive Copied (finfo : FatFile) (bound : Nat) : Nat → FatFs → Nat → FatFs → Prop where
  | refl (offset : Nat) (fs : FatFs) : Copied finfo bound offset fs offset fs
  | read {offset offset' : Nat} {fs fs₁ fs' : FatFs} {ret : Int} {data : Bytes} :
      offset < bound → FatFs.readAt w v fuel fs finfo offset 1024 = some (ret, data, fs₁) →
      0 < ret → Copied finfo bound (u32 (offset + ret.toNat)) fs₁ offset' fs' →
      Copied finfo bound offset fs offset' fs'

/-- One of the reads of the copy loop returns an error. -/
def ReadFails (finfo : FatFile) (bound offset : Nat) (fs : FatFs) : Prop :=
  ∃ offset' fs' ret data fs'', Copied w v fuel finfo bound offset fs offset' fs' ∧
    offset' < bound ∧ FatFs.readAt w v fuel fs' finfo offset' 1024 = some (ret, data, fs'') ∧
    ret < 0

/-- `MBLoadKernel` gets its buffer, and then a read fails. -/
def LoadReadFails (st : Boot) (finfo : FatFile) (hdr : MultiBootHeader) (fileOffset : Nat) : Prop :=
  ∃ fileStart memStart count buffer heap,
    hdr.extractMemLayout fileOffset finfo.size = some (fileStart, memStart, count) ∧
    malloc fuel st.heap 1024 = some (buffer, heap) ∧ buffer ≠ 0 ∧
    ReadFails w v fuel finfo (sub32 count fileStart) fileStart st.fs

/-- The command finds a header that it supports, and then a read of the copy
    loop fails. -/
def CopyReadFails (pre : Boot) (path : Bytes) : Prop :=
  ∃ finfo off hdr st, findHeader w v fuel pre path = some (finfo, off, hdr, st) ∧
    FlagField.isSet hdr.flags MultiBootHeader.wantVidmode = false ∧
    FlagField.isSet hdr.flags MultiBootHeader.haveLayoutInfo = true ∧
    LoadReadFails w v fuel st finfo hdr off

end Reads

/-- A failing read can only be the next one, or one behind it. -/
theorem readFails_iff {finfo : FatFile} {bound offset : Nat} {fs fs₁ : FatFs} {ret : Int}
    {data : Bytes} (hlt : offset < bound)
    (hread : FatFs.readAt w v fuel fs finfo offset 1024 = some (ret, data, fs₁)) :
    ReadFails w v fuel finfo bound offset fs ↔
      ret < 0 ∨ 0 < ret ∧ ReadFails w v fuel finfo bound (u32 (offset + ret.toNat)) fs₁ := by
  constructor
  · intro ⟨o, fs₂, ret₂, data₂, fs₃, hcopied, hlt₂, hread₂, hneg⟩
    cases hcopied with
    | refl =>
      cases hread.symm.trans hread₂
      exact .inl hneg
    | read _ hread₁ hpos hrest =>
      cases hread.symm.trans hread₁
      exact .inr ⟨hpos, o, fs₂, ret₂, data₂, fs₃, hrest, hlt₂, hread₂, hneg⟩
  · rintro (hneg | ⟨hpos, o, fs₂, ret₂, data₂, fs₃, hrest, hlast⟩)
    · exact ⟨offset, fs, ret, data, fs₁, .refl _ _, hlt, hread, hneg⟩
    · exact ⟨o, fs₂, ret₂, data₂, fs₃, .read hlt hread hpos hrest, hlast⟩

/-- Once layout and buffer are settled, only the reads are open. -/
theorem loadReadFails_iff {st : Boot} {finfo : FatFile} {hdr : MultiBootHeader}
    {fileOffset fileStart memStart count buffer : Nat} {heap : Heap}
    (hlay : hdr.extractMemLayout fileOffset finfo.size = some (fileStart, memStart, count))
    (hmalloc : malloc fuel st.heap 1024 = some (buffer, heap)) :
    LoadReadFails w v fuel st finfo hdr fileOffset ↔
      buffer ≠ 0 ∧ ReadFails w v fuel finfo (sub32 count fileStart) fileStart st.fs := by
  constructor
  · intro ⟨fileStart', memStart', count', buffer', heap', hlay', hmalloc', hrest⟩
    cases hlay.symm.trans hlay'
    cases hmalloc.symm.trans hmalloc'
    exact hrest
  · intro hrest
    exact ⟨fileStart, memStart, count, buffer, heap, hlay, hmalloc, hrest⟩

/-- Once the header is found, only its flags and the reads are open. -/
theorem copyReadFails_iff {pre st : Boot} {path : Bytes} {finfo : FatFile} {off : Nat}
    {hdr : MultiBootHeader} (hfinds : findHeader w v fuel pre path = some (finfo, off, hdr, st)) :
    CopyReadFails w v fuel pre path ↔
      FlagField.isSet hdr.flags MultiBootHeader.wantVidmode = false ∧
      FlagField.isSet hdr.flags MultiBootHeader.haveLayoutInfo = true ∧
      LoadReadFails w v fuel st finfo hdr off := by
  constructor
  · intro ⟨finfo', off', hdr', st', hfinds', hrest⟩
    cases hfinds.symm.trans hfinds'
    exact hrest
  · intro hrest
    exact ⟨finfo, off, hdr, st, hfinds, hrest⟩

/-- The copy loop gives up if and only if a read fails. It leaves the heap as
    it is. -/
theorem copyLoop_fails_iff {finfo : FatFile} {bound n offset memStart : Nat} {st st' : Boot}
    {res : Option Nat}
    (h : copyLoop w v fuel finfo bound n offset memStart st = some (res, st')) :
    st'.heap = st.heap ∧ (res = none ↔ ReadFails w v fuel finfo bound offset st.fs) := by
  -- on the rounds that are left
  induction n generalizing offset memStart st with
  | zero => cases h
  | succ n ih =>
    unfold copyLoop at h
    split at h
    swap
    · next hend =>
      cases h
      refine ⟨rfl, by simp, ?_⟩
      rintro ⟨o, fs, ret, data, fs', hcopied, hlt, -⟩
      cases hcopied with
      | refl => exact absurd hlt hend
      | read hlt' => exact absurd hlt' hend
    next hlt =>
    obtain ⟨⟨ret, data, fs⟩, hread, h⟩ := Option.bind_eq_some_iff.mp h
    dsimp only at h
    rw [readFails_iff hlt hread]
    split at h
    · next hzero =>
      cases h
      exact ⟨rfl, by simp [hzero]⟩
    split at h
    · next hneg =>
      cases h
      exact ⟨rfl, by simp [hneg]⟩
    · next hzero hneg =>
      have hpos : 0 < ret := by omega
      obtain ⟨hheap, hiff⟩ := ih h
      refine ⟨hheap, ?_⟩
      rw [hiff]
      simp [hpos, hneg, Boot.protectedModeCall]

/-! ## Section 2: What a temporary buffer does to the heap -/

/-- `P` holds of the heap without the buffer, and `B p` while it is allocated
    at `p`. -/
structure TempBuffer (fuel : Nat) (P : Heap → Prop) (B : Nat → Heap → Prop) : Prop where
  taken : ∀ {h h' : Heap} {p : Nat}, P h → malloc fuel h 1024 = some (p, h') →
    (p = 0 ∧ h' = h) ∨ (p ≠ 0 ∧ B p h')
  freed : ∀ {h h' : Heap} {p : Nat}, B p h → free fuel h p = some h' → P h'

variable {P : Heap → Prop} {B : Nat → Heap → Prop}

theorem TempBuffer.mbFindHeader (hb : TempBuffer fuel P B) {finfo : FatFile} {st st' : Boot}
    {res : Option (Nat × MultiBootHeader)} (hp : P st.heap)
    (h : mbFindHeader w v fuel st finfo = some (res, st')) : P st'.heap := by
  obtain ⟨⟨buffer, heap⟩, hmalloc, h⟩ := Option.bind_eq_some_iff.mp h
  dsimp only at h
  rcases hb.taken hp hmalloc with ⟨rfl, rfl⟩ | ⟨hbuf, htaken⟩
  · cases h
    exact hp
  · rw [if_neg hbuf] at h
    obtain ⟨⟨res, fs⟩, -, h⟩ := Option.bind_eq_some_iff.mp h
    obtain ⟨heap', hfree, h⟩ := Option.bind_eq_some_iff.mp h
    cases h
    exact hb.freed htaken hfree

theorem TempBuffer.mbLoadKernel (hb : TempBuffer fuel P B) {finfo : FatFile}
    {hdr : MultiBootHeader} {fileOffset : Nat} {st st' : Boot} {ok : Bool} (hp : P st.heap)
    (h : mbLoadKernel w v fuel st finfo hdr fileOffset = some (ok, st')) :
    (P st'.heap ∧ ¬ LoadReadFails w v fuel st finfo hdr fileOffset) ∨
    (ok = false ∧ LoadReadFails w v fuel st finfo hdr fileOffset ∧ ∃ p, B p st'.heap) := by
  unfold Hausboot.mbLoadKernel at h
  cases hlay : hdr.extractMemLayout fileOffset finfo.size with
  | none =>
    rw [hlay] at h
    cases h
    refine .inl ⟨hp, ?_⟩
    rintro ⟨fileStart, memStart, count, buffer, heap, hsome, -⟩
    cases hlay.symm.trans hsome
  | some layout =>
    obtain ⟨fileStart, memStart, count⟩ := layout
    rw [hlay] at h
    obtain ⟨⟨buffer, heap⟩, hmalloc, h⟩ := Option.bind_eq_some_iff.mp h
    change malloc fuel st.heap 1024 = some (buffer, heap) at hmalloc
    dsimp only at h
    rw [loadReadFails_iff hlay hmalloc]
    rcases hb.taken hp hmalloc with ⟨rfl, rfl⟩ | ⟨hbuf, htaken⟩
    · cases h
      exact .inl ⟨hp, fun hno => hno.1 rfl⟩
    · rw [if_neg hbuf] at h
      obtain ⟨⟨res, st₂⟩, hloop, h⟩ := Option.bind_eq_some_iff.mp h
      obtain ⟨hkeep, hiff⟩ := copyLoop_fails_iff hloop
      change st₂.heap = heap at hkeep
      change res = none ↔ ReadFails w v fuel finfo (sub32 count fileStart) fileStart st.fs at hiff
      rw [← hiff]
      cases res with
      | none =>
        -- this path does not free the buffer
        cases h
        exact .inr ⟨rfl, ⟨hbuf, rfl⟩, buffer, hkeep ▸ htaken⟩
      | some memEnd =>
        obtain ⟨heap', hfree, h⟩ := Option.bind_eq_some_iff.mp h
        cases h
        rw [hkeep] at hfree
        exact .inl ⟨hb.freed htaken hfree, by simp⟩

/-- The heap is as before the command, or a read of the copy loop has failed
    and the buffer is still allocated. -/
theorem TempBuffer.cmdMultiboot (hb : TempBuffer fuel P B) {st st' : Boot} {path : Bytes}
    {ok : Bool} (hp : P st.heap) (h : cmdMultiboot w v fuel st path = some (ok, st')) :
    (P st'.heap ∧ ¬ CopyReadFails w v fuel st path) ∨
    (ok = false ∧ CopyReadFails w v fuel st path ∧ ∃ p, B p st'.heap) := by
  obtain ⟨⟨ret, fs⟩, hpath, h⟩ := Option.bind_eq_some_iff.mp h
  -- without a header there is no copy loop
  have hnone : findHeader w v fuel st path = none → ¬ CopyReadFails w v fuel st path := by
    rintro hnone ⟨finfo, off, hdr, st₁, hfinds, -⟩
    cases hnone.symm.trans hfinds
  cases ret with
  | ok finfo =>
    obtain ⟨⟨res, st₁⟩, hfind, h⟩ := Option.bind_eq_some_iff.mp h
    have hp₁ : P st₁.heap := by
      apply hb.mbFindHeader _ hfind
      exact hp
    cases res with
    | none =>
      cases h
      refine .inl ⟨hp₁, hnone ?_⟩
      simp only [findHeader, hpath, Option.bind_eq_bind, Option.bind_some, hfind]
    | some found =>
      obtain ⟨off, hdr⟩ := found
      have hfinds : findHeader w v fuel st path = some (finfo, off, hdr, st₁) := by
        simp only [findHeader, hpath, Option.bind_eq_bind, Option.bind_some, hfind]
      rw [copyReadFails_iff hfinds]
      dsimp only at h
      split at h
      · next hvid =>
        cases h
        exact .inl ⟨hp₁, fun hno => by simp [hvid] at hno⟩
      next hvid =>
      split at h
      · next hlay =>
        cases h
        refine .inl ⟨hp₁, fun hno => ?_⟩
        rw [hno.2.1] at hlay
        cases hlay
      next hlay =>
      obtain ⟨⟨loaded, st₂⟩, hload, h⟩ := Option.bind_eq_some_iff.mp h
      rw [Bool.not_eq_true] at hvid
      rw [Bool.not_eq_true, Bool.not_eq_false'] at hlay
      have hcases := hb.mbLoadKernel hp₁ hload
      cases loaded with
      | false =>
        cases h
        rcases hcases with ⟨hp₂, hreads⟩ | ⟨-, hfails, htaken⟩
        · exact .inl ⟨hp₂, fun hno => hreads hno.2.2⟩
        · exact .inr ⟨rfl, ⟨hvid, hlay, hfails⟩, htaken⟩
      | true =>
        cases h
        rcases hcases with ⟨hp₂, hreads⟩ | ⟨hfalse, -⟩
        · exact .inl ⟨hp₂, fun hno => hreads hno.2.2⟩
        · cases hfalse
  | nameInvalid =>
    cases h
    exact .inl ⟨hp, hnone (by simp [findHeader, hpath])⟩
  | ioError =>
    cases h
    exact .inl ⟨hp, hnone (by simp [findHeader, hpath])⟩
  | noEntry =>
    cases h
    exact .inl ⟨hp, hnone (by simp [findHeader, hpath])⟩
  | notDir =>
    cases h
    exact .inl ⟨hp, hnone (by simp [findHeader, hpath])⟩

/-- A buffer anywhere in the heap. -/
theorem borrowed_tempBuffer (r : HeapRegion) (us : List Block) :
    TempBuffer fuel (InUse r · us) (Borrowed r us) where
  taken := fun hu hcall => hu.borrow hcall
  freed := fun hb hcall => hb.free hcall

/-! ## Section 3: The blocks in use, as memory shows them -/

/-- The reserved entries of the linked list. -/
def LiveBlocks (h : Heap) (us : List (Nat × Nat × Bool)) : Prop :=
  ∃ bl, HasBlocks h bl ∧ us = bl.filter fun b => b.2.2

/-- Both heaps have the same blocks in use. -/
def SameLive (h h' : Heap) : Prop := ∃ us, LiveBlocks h us ∧ LiveBlocks h' us

variable {r : HeapRegion} {us : List Block} {h h' : Heap}

theorem LiveBlocks.unique {bl bl' : List (Nat × Nat × Bool)} (hl : LiveBlocks h bl)
    (hl' : LiveBlocks h bl') : bl = bl' := by
  obtain ⟨all, hall, rfl⟩ := hl
  obtain ⟨all', hall', rfl⟩ := hl'
  rw [hall.unique hall']

theorem InUse.liveBlocks (hu : InUse r h us) : LiveBlocks h (us.map entryOf) := by
  obtain ⟨bs, live, hinv, rfl⟩ := hu
  refine ⟨bs.map entryOf, hinv.repr.hasBlocks, ?_⟩
  rw [List.filter_map]
  rfl

theorem InUse.sameLive (hu : InUse r h us) (hu' : InUse r h' us) : SameLive h h' :=
  ⟨_, hu.liveBlocks, hu'.liveBlocks⟩

/-- With one block more, the blocks in use are not the same. -/
theorem Borrowed.not_sameLive {p : Nat} (hu : InUse r h us) (hb : Borrowed r us p h') :
    ¬ SameLive h h' := by
  obtain ⟨pre, s, post, rfl, -, hu'⟩ := hb
  rintro ⟨bl, hl, hl'⟩
  have hsame := (hl.unique hu.liveBlocks).symm.trans (hl'.unique hu'.liveBlocks)
  have hlength := congrArg List.length hsame
  simp at hlength

/-! ## Section 4: A read that fails, and all other commands -/

theorem reserved_not_sameLive (hempty : LiveBlocks h []) (hne : h'.heap ≠ h'.heapEnd)
    (hfirst : isFree h'.mem h'.heap = false) : ¬ SameLive h h' := by
  rintro ⟨bl, hl, hl'⟩
  obtain rfl := hl.unique hempty
  obtain ⟨all, ⟨es, hfollows, rfl⟩, hfilter⟩ := hl'
  cases es with
  | nil => exact hne hfollows
  | cons e es =>
    obtain ⟨rfl, -⟩ := hfollows
    simp [hfirst] at hfilter

/-- Kernel `B` on the device with the bad sector: the first block of the heap
    stays reserved. -/
theorem cmdMultiboot_leaks :
    ∃ st', cmdMultiboot badSector twoKernels 60 freshBoot (str "B") = some (false, st') ∧
      ¬ SameLive freshBoot.heap st'.heap := by
  have hrun : (cmdMultiboot badSector twoKernels 60 freshBoot (str "B")).map (fun r =>
      (r.1, r.2.heap.heap, r.2.heap.heapEnd, isFree r.2.heap.mem r.2.heap.heap)) =
      some (false, 4096, 12288, false) := by
    decide +kernel
  obtain ⟨⟨ok, st'⟩, hcall, heq⟩ := Option.map_eq_some_iff.mp hrun
  simp only [Prod.mk.injEq] at heq
  obtain ⟨rfl, hheap, hend, hfirst⟩ := heq
  refine ⟨st', hcall, reserved_not_sameLive ?_ (by omega) hfirst⟩
  exact (inUse_start ⟨4096, heapMaxSize, by decide, heapMaxSize_ge, by decide⟩ _).liveBlocks

/-- **No leak**: a `multiboot` command leaves the blocks in use as they were,
    unless a read of its copy loop fails. -/
theorem cmdMultiboot_balanced_iff (w : World) (v : Volume) (fuel : Nat) (r : HeapRegion)
    (st : Boot) (live : List Nat) (hr : r.Reachable ⟨st.heap, live⟩) (path : Bytes) (ok : Bool)
    (st' : Boot) (h : cmdMultiboot w v fuel st path = some (ok, st')) :
    SameLive st.heap st'.heap ↔ ¬ CopyReadFails w v fuel st path := by
  obtain ⟨bs, hinv⟩ := runInv_reachable hr
  have hu : InUse r st.heap (bs.filter Segment.used) := ⟨bs, live, hinv, rfl⟩
  have hbuffer : TempBuffer fuel _ _ := borrowed_tempBuffer r (bs.filter Segment.used)
  rcases hbuffer.cmdMultiboot hu h with ⟨hu', hreads⟩ | ⟨-, hfails, p, hb⟩
  · exact iff_of_true (hu.sameLive hu') hreads
  · exact iff_of_false (hb.not_sameLive hu) (not_not_intro hfails)

/-- The read of sector 7 is the one that fails. -/
theorem cmdMultiboot_balanced_iff_badSector :
    CopyReadFails badSector twoKernels 60 freshBoot (str "B") := by
  obtain ⟨st', hcall, hnot⟩ := cmdMultiboot_leaks
  let r : HeapRegion := ⟨4096, heapMaxSize, by decide, heapMaxSize_ge, by decide⟩
  by_contra hreads
  exact hnot ((cmdMultiboot_balanced_iff badSector twoKernels 60 r freshBoot [] ⟨_, .refl⟩ _ _ _
    hcall).mpr hreads)

/-- The command does not always leave the heap as it found it. -/
theorem cmdMultiboot_unbalanced :
    ¬ ∀ (w : World) (v : Volume) (fuel : Nat) (r : HeapRegion) (st : Boot) (live : List Nat),
      r.Reachable ⟨st.heap, live⟩ → ∀ path ok st',
        cmdMultiboot w v fuel st path = some (ok, st') → SameLive st.heap st'.heap := by
  intro hall
  obtain ⟨st', hcall, hnot⟩ := cmdMultiboot_leaks
  let r : HeapRegion := ⟨4096, heapMaxSize, by decide, heapMaxSize_ge, by decide⟩
  exact hnot (hall badSector twoKernels 60 r freshBoot [] ⟨_, .refl⟩ _ _ _ hcall)

end Hausboot

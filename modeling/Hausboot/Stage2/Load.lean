import Hausboot.FatFs.Read
import Hausboot.Heap.Runs
import Hausboot.Stage2.Model

/-! # The stage2 Boot Loader: Loading a Kernel

    What a call of `MBLoadKernel` writes. The copy loop moves blocks of 1024
    bytes until the file offset reaches the bound or the file ends, so what it
    has moved in the end is one window of the file (`copyLoop_spec`). The BSS
    is then cleared behind that window, wherever it ends
    (`mbLoadKernel_memory`). -/

open ByteLib

namespace Hausboot

/-! ## Section 1: Addresses -/

theorem sub32_self_add {d i : Nat} (hi : i < 2 ^ 32) : sub32 (d + i) d = i := by
  unfold sub32
  omega

theorem sub32_add {x d n : Nat} (hn : n < 2 ^ 32) :
    sub32 x (u32 (d + n)) = if n ≤ sub32 x d then sub32 x d - n else sub32 x d + 2 ^ 32 - n := by
  unfold sub32 u32
  split <;> omega

theorem copyMemory32_nil (m : Store) (d : Nat) : copyMemory32 m d [] = m := by
  funext a
  simp [copyMemory32]

/-- Copies to neighbouring destinations are one copy, as long as the second
    does not run around the address space into the first. -/
theorem copyMemory32_append (m : Store) (d : Nat) {a b : Bytes}
    (h : a.length + b.length ≤ 2 ^ 32) (ha : a.length < 2 ^ 32) :
    copyMemory32 (copyMemory32 m d a) (u32 (d + a.length)) b = copyMemory32 m d (a ++ b) := by
  funext x
  have hx := sub32_lt x d
  unfold copyMemory32
  rw [sub32_add ha, List.length_append]
  by_cases hin : sub32 x d < a.length
  · rw [if_neg (c := a.length ≤ sub32 x d) (by omega), if_neg (by omega), if_pos hin,
      if_pos (by omega), List.getD_append _ _ _ _ hin]
  · rw [if_pos (c := a.length ≤ sub32 x d) (by omega)]
    by_cases hb : sub32 x d - a.length < b.length
    · rw [if_pos hb, if_pos (by omega), List.getD_append_right _ _ _ _ (by omega)]
    · rw [if_neg hb, if_neg hin, if_neg (by omega)]

theorem PmCall.runAll_append (a b : List PmCall) (m : Store) :
    runAll (a ++ b) m = runAll b (runAll a m) := List.foldl_append

/-! ## Section 2: ExtractMemLayout -/

/-- What a memory layout promises. -/
structure Layout (hdr : MultiBootHeader) (hdrFileOffset filesize fileStart memStart count : Nat) :
    Prop where
  memStart_eq : memStart = hdr.loadAddr
  count_eq : memStart + count = hdr.loadEndAddr
  count_pos : 0 < count
  fileStart_le : fileStart ≤ hdrFileOffset
  bss : hdr.loadAddr ≤ hdr.bssEndAddr

theorem extractMemLayout_spec {hdr : MultiBootHeader} {off size fileStart memStart count : Nat}
    (hoff : off < 2 ^ 32)
    (h : hdr.extractMemLayout off size = some (fileStart, memStart, count)) :
    Layout hdr off size fileStart memStart count := by
  have hend : hdr.loadEndAddr < 2 ^ 32 := hdr.field_lt 5
  have hhdr : hdr.hdrAddr < 2 ^ 32 := hdr.field_lt 3
  simp only [MultiBootHeader.extractMemLayout, Option.ite_none_left_eq_some,
    Option.ite_none_right_eq_some, Option.some.injEq, Prod.mk.injEq, Bool.or_eq_true,
    decide_eq_true_eq, not_or, Nat.not_le, Nat.not_lt] at h
  obtain ⟨hlt, hbss, hhdrIn, -, hdist, -, hstart, hmem, hcount⟩ := h
  rw [sub32_of_le (by omega) hend] at hcount
  refine ⟨hmem.symm, by omega, by omega, ?_, hbss⟩
  rw [← hstart]
  split
  · rw [sub32_of_le hdist hoff]
    omega
  · omega

/-! ## Section 3: The copy loop -/

/-- The number of bytes that the copy loop moves from file offset `offset` on:
    whole blocks until `bound`, but not more than the file has. -/
def loadedBytes (avail bound offset : Nat) : Nat :=
  if offset < bound then min (avail - offset) (1024 * ((bound - offset + 1023) / 1024)) else 0

theorem loadedBytes_le (avail bound offset : Nat) :
    loadedBytes avail bound offset ≤ avail - offset := by
  unfold loadedBytes
  split <;> omega

/-- One more block. -/
theorem loadedBytes_step {avail bound offset : Nat} (h : offset < bound) :
    loadedBytes avail bound offset =
      min 1024 (avail - offset) +
        loadedBytes avail bound (offset + min 1024 (avail - offset)) := by
  unfold loadedBytes
  rw [if_pos h]
  split <;> omega

variable {w : World} {v : Volume} {finfo : FatFile} {l : List Nat}

/-- A file with a terminated chain and a recorded size. -/
structure KernelFile (v : Volume) (finfo : FatFile) (l : List Nat) : Prop where
  chain : v.FsChain finfo.cluster l
  pos : 0 < finfo.size
  size_lt : finfo.size < 2 ^ 32

theorem KernelFile.length_le (hk : KernelFile v finfo l) :
    (v.fileBytes finfo l).length ≤ finfo.size := by
  simp only [Volume.fileBytes, gt_iff_lt, hk.pos, if_true, List.length_take]
  omega

/-- The copy loop either runs out of fuel, or moves one window of the file, or
    hits a failing device read. -/
theorem Reading.copyLoop {I : FatFs → Prop} {file : Bytes} {Dry Bad : Prop} {fuel : Nat}
    (hreads : Reading w v fuel finfo I file Dry Bad) (hfile : file.length < 2 ^ 32)
    (bound n offset : Nat) {memStart : Nat} {st : Boot} (hco : I st.fs) (hmem : memStart < 2 ^ 32) :
    let m := loadedBytes file.length bound offset
    (Hausboot.copyLoop w v fuel finfo bound n offset memStart st = none ∧ (Dry ∨ n ≤ m)) ∨
    (∃ fs' calls, I fs' ∧
        Hausboot.copyLoop w v fuel finfo bound n offset memStart st =
          some (some (u32 (memStart + m)),
            { st with fs := fs', pmCalls := st.pmCalls ++ calls }) ∧
        ∀ mem, PmCall.runAll calls mem = copyMemory32 mem memStart (slice file offset m)) ∨
    (Bad ∧ ∃ st',
      Hausboot.copyLoop w v fuel finfo bound n offset memStart st = some (none, st')) := by
  intro m
  induction n generalizing offset memStart st with
  | zero => exact .inl ⟨rfl, .inr (Nat.zero_le _)⟩
  | succ n ih =>
    have hm : m = loadedBytes file.length bound offset := rfl
    unfold Hausboot.copyLoop
    by_cases hoff : offset < bound
    swap
    · have hm0 : m = 0 := by rw [hm, loadedBytes, if_neg hoff]
      rw [if_neg hoff]
      refine .inr (.inl ⟨st.fs, [], hco, ?_, fun mem => ?_⟩)
      · simp [hm0, u32_of_lt hmem]
      · simp [hm0, slice_zero, copyMemory32_nil, PmCall.runAll]
    rw [if_pos hoff]
    rcases hreads _ hco offset 1024 (by decide) with
      ⟨hnone, hfuel⟩ | ⟨fs', hread, hco'⟩ | ⟨hfault, data, fs', hread⟩
    · rw [hnone]
      exact .inl ⟨rfl, .inl hfuel⟩
    · generalize hdata : slice file offset 1024 = data at hread
      have hlen : data.length = min 1024 (file.length - offset) := by rw [← hdata, length_slice]
      have hstep : m = data.length + loadedBytes file.length bound (offset + data.length) := by
        rw [hm, hlen]
        exact loadedBytes_step hoff
      rw [hread]
      by_cases hzero : data.length = 0
      · -- the end of the file
        have hm0 : m = 0 := by
          have := loadedBytes_le file.length bound offset
          omega
        refine .inr (.inl ⟨fs', [], hco', ?_, fun mem => ?_⟩)
        · simp [hzero, hm0, u32_of_lt hmem]
        · simp [hm0, slice_zero, copyMemory32_nil, PmCall.runAll]
      · have hneg : ¬ ((data.length : Int) < 0) := by omega
        have hle := loadedBytes_le file.length bound (offset + data.length)
        have hoff' : u32 (offset + data.length) = offset + data.length := u32_of_lt (by omega)
        simp only [Option.bind_eq_bind, Option.bind_some, Int.natCast_eq_zero, hzero, if_false,
          hneg, Int.toNat_natCast, hoff']
        generalize hst : Boot.protectedModeCall { st with fs := fs' } (.copy memStart data) = st₁
        have hco₁ : I st₁.fs := by rw [← hst]; exact hco'
        have hmem₁ : u32 (memStart + data.length) < 2 ^ 32 := u32_lt _
        rcases ih (offset + data.length) hco₁ hmem₁ with
          ⟨hnone, hfuel | hn⟩ | ⟨fs'', calls, hco'', hloop, heff⟩ | hfault
        · exact .inl ⟨hnone, .inl hfuel⟩
        · exact .inl ⟨hnone, .inr (by omega)⟩
        · refine .inr (.inl ⟨fs'', .copy memStart data :: calls, hco'', ?_, fun mem => ?_⟩)
          · have hend : u32 (u32 (memStart + data.length) +
                loadedBytes file.length bound (offset + data.length)) = u32 (memStart + m) := by
              unfold u32
              omega
            rw [hloop, ← hst, hend]
            simp only [Boot.protectedModeCall, List.append_assoc, List.singleton_append]
          · -- the block and the blocks behind it make one window
            have hblock : slice file offset data.length = data := by
              rw [← hdata, slice_length_slice]
            have hwin : slice file offset m =
                data ++ slice file (offset + data.length)
                  (loadedBytes file.length bound (offset + data.length)) := by
              rw [hstep, slice_add, hblock]
            show PmCall.runAll calls (copyMemory32 mem memStart data) = _
            rw [heff, hwin, copyMemory32_append]
            · rw [length_slice]
              omega
            · omega
        · exact .inr (.inr hfault)
    · rw [hread]
      exact .inr (.inr ⟨hfault, _, rfl⟩)

theorem copyLoop_spec (hk : KernelFile v finfo l) (bound fuel n offset : Nat)
    {memStart : Nat} {st : Boot} (hco : Coherent v st.fs) (hmem : memStart < 2 ^ 32) :
    let file := v.fileBytes finfo l
    let m := loadedBytes file.length bound offset
    (copyLoop w v fuel finfo bound n offset memStart st = none ∧ (fuel ≤ l.length ∨ n ≤ m)) ∨
    (∃ fs' calls, Coherent v fs' ∧
        copyLoop w v fuel finfo bound n offset memStart st =
          some (some (u32 (memStart + m)),
            { st with fs := fs', pmCalls := st.pmCalls ++ calls }) ∧
        ∀ mem, PmCall.runAll calls mem = copyMemory32 mem memStart (slice file offset m)) ∨
    (w.Faulty ∧ ∃ st', copyLoop w v fuel finfo bound n offset memStart st = some (none, st')) :=
  (reading_of_chain hk.chain fuel).copyLoop (Nat.lt_of_le_of_lt hk.length_le hk.size_lt) bound n offset hco hmem

/-- The copy loop makes protected mode calls and nothing else that matters. -/
theorem copyLoop_frame {bound fuel n offset memStart : Nat} {st st' : Boot}
    {res : Option Nat}
    (h : copyLoop w v fuel finfo bound n offset memStart st = some (res, st')) :
    (∃ new, st'.pmCalls = st.pmCalls ++ new) ∧ st'.haveKernel = st.haveKernel ∧
      st'.kernelEntry = st.kernelEntry := by
  induction n generalizing offset memStart st with
  | zero => cases h
  | succ n ih =>
    unfold copyLoop at h
    split at h
    swap
    · cases h
      exact ⟨⟨[], by simp⟩, rfl, rfl⟩
    obtain ⟨⟨ret, data, fs⟩, -, h⟩ := Option.bind_eq_some_iff.mp h
    dsimp only at h
    split at h
    · cases h
      exact ⟨⟨[], by simp⟩, rfl, rfl⟩
    split at h
    · cases h
      exact ⟨⟨[], by simp⟩, rfl, rfl⟩
    · obtain ⟨⟨new, hnew⟩, hkernel, hentry⟩ := ih h
      refine ⟨⟨.copy memStart data :: new, ?_⟩, hkernel, hentry⟩
      rw [hnew]
      simp [Boot.protectedModeCall]

/-! ## Section 4: MBFindHeader -/

/-- What the inner loop of `MBFindHeader` returns lies inside the file. -/
def SearchResult.Inside (v : Volume) (fs : FatFs) (len offset : Nat) : SearchResult → Prop
  | .found off _ => off < len ∧ Coherent v fs
  | .failed => True
  | .exhausted ret _ => ∃ r : Nat, ret = r ∧ offset + r ≤ len ∧ Coherent v fs

theorem searchBlock_spec (hk : KernelFile v finfo l) {fuel offset : Nat} {buffer : Bytes}
    (n : Nat) {i r : Nat} {hdr : MultiBootHeader} {fs fs' : FatFs} {res : SearchResult}
    (hco : Coherent v fs) (hin : offset + r ≤ (v.fileBytes finfo l).length)
    (hcall : searchBlock w v fuel finfo offset buffer n i (r : Int) hdr fs = some (res, fs')) :
    res.Inside v fs' (v.fileBytes finfo l).length offset := by
  induction n generalizing i r hdr fs with
  | zero => cases hcall
  | succ n ih =>
    have hlen := hk.length_le
    have hsize := hk.size_lt
    unfold searchBlock at hcall
    split at hcall
    swap
    · cases hcall
      exact ⟨r, rfl, hin, hco⟩
    split at hcall
    · exact ih hco hin hcall
    have hoff : u32 (offset + i * 4) = offset + i * 4 := u32_of_lt (by omega)
    rw [hoff] at hcall
    obtain ⟨⟨ret, data, fs₁⟩, hread, hcall⟩ := Option.bind_eq_some_iff.mp hcall
    rcases FatFs.readAt_spec (w := w) hk.chain hco fuel (offset + i * 4)
      MultiBootHeader.sizeof with ⟨hnone, -⟩ | ⟨data', fs₂, hdata, hsome, hco'⟩ | ⟨-, _, _, hbad⟩
    · rw [hnone] at hread
      cases hread
    · -- a candidate that is turned down is the new bound of the block
      have hshort : data'.length ≤ 32 ∧
          data'.length ≤ (v.fileBytes finfo l).length - (offset + i * 4) := by
        rw [hdata, length_slice]
        exact ⟨Nat.min_le_left _ _, Nat.min_le_right _ _⟩
      rw [hsome, i32_of_lt (by omega)] at hread
      cases hread
      dsimp only at hcall
      split at hcall
      · cases hcall
        trivial
      · split at hcall
        · cases hcall
          exact ⟨by omega, hco'⟩
        · exact ih hco' (by omega) hcall
    · rw [hbad] at hread
      cases hread
      cases hcall
      trivial

theorem searchLoop_spec (hk : KernelFile v finfo l) {fuel scanSize : Nat} (n : Nat)
    {offset : Nat} {buffer : Bytes} {hdr hdr' : MultiBootHeader} {fs fs' : FatFs} {off : Nat}
    (hco : Coherent v fs)
    (hcall : searchLoop w v fuel finfo scanSize n offset buffer hdr fs =
      some (some (off, hdr'), fs')) :
    off < (v.fileBytes finfo l).length ∧ Coherent v fs' := by
  induction n generalizing offset buffer hdr fs with
  | zero => cases hcall
  | succ n ih =>
    unfold searchLoop at hcall
    split at hcall
    swap
    · cases hcall
    obtain ⟨⟨ret, data, fs₁⟩, hread, hcall⟩ := Option.bind_eq_some_iff.mp hcall
    rcases FatFs.readAt_spec (w := w) hk.chain hco fuel offset 1024 with
      ⟨hnone, -⟩ | ⟨data', fs₂, hdata, hsome, hco'⟩ | ⟨-, _, _, hbad⟩
    · rw [hnone] at hread
      cases hread
    · have hshort : data'.length ≤ 1024 ∧
          data'.length ≤ (v.fileBytes finfo l).length - offset := by
        rw [hdata, length_slice]
        exact ⟨Nat.min_le_left _ _, Nat.min_le_right _ _⟩
      rw [hsome, i32_of_lt (by omega)] at hread
      cases hread
      dsimp only at hcall
      split at hcall
      · cases hcall
      · obtain ⟨⟨res, fs₃⟩, hblock, hcall⟩ := Option.bind_eq_some_iff.mp hcall
        -- a header that is found lies in the block
        have hinside := searchBlock_spec hk fuel hco' (by omega) hblock
        cases res with
        | found off hdr =>
          cases hcall
          exact hinside
        | failed => cases hcall
        | exhausted ret hdr =>
          obtain ⟨r', rfl, -, hco₃⟩ := hinside
          exact ih hco₃ hcall
    · rw [hbad] at hread
      cases hread
      cases hcall

/-- A header that `MBFindHeader` reports starts inside the file. -/
theorem mbFindHeader_spec (hk : KernelFile v finfo l) {fuel : Nat} {st st' : Boot} {off : Nat}
    {hdr : MultiBootHeader} (hco : Coherent v st.fs)
    (hcall : mbFindHeader w v fuel st finfo = some (some (off, hdr), st')) :
    off < finfo.size ∧ Coherent v st'.fs := by
  simp only [mbFindHeader, Option.bind_eq_bind, Option.bind_eq_some_iff] at hcall
  obtain ⟨⟨buffer, heap⟩, -, hcall⟩ := hcall
  split at hcall
  · cases hcall
  · obtain ⟨⟨res, fs⟩, hloop, hcall⟩ := Option.bind_eq_some_iff.mp hcall
    obtain ⟨heap', -, hcall⟩ := Option.bind_eq_some_iff.mp hcall
    cases hcall
    obtain ⟨hlt, hco'⟩ := searchLoop_spec hk fuel hco hloop
    exact ⟨Nat.lt_of_lt_of_le hlt hk.length_le, hco'⟩

/-! ## Section 5: MBLoadKernel -/

/-- The memory after a load: the window of the file at `dst`, zeros behind. -/
def loadedMemory (m : Store) (dst : Nat) (data : Bytes) (bss : Nat) : Store :=
  clearMemory32 (copyMemory32 m dst data) (u32 (dst + data.length)) bss

/-- The memory after a load at an address `i` bytes behind `dst`. A BSS that
    runs around the address space clears the front of the image again. -/
theorem loadedMemory_apply (m : Store) (dst bss a : Nat) {data : Bytes}
    (hdata : data.length < 2 ^ 32) :
    loadedMemory m dst data bss a =
      if sub32 a dst < data.length then
        if sub32 a dst + 2 ^ 32 < data.length + bss then 0 else data.getD (sub32 a dst) 0
      else if sub32 a dst < data.length + bss then 0
      else m a := by
  unfold loadedMemory clearMemory32 copyMemory32
  rw [sub32_add hdata]
  by_cases hin : sub32 a dst < data.length
  · rw [if_neg (c := data.length ≤ sub32 a dst) (by omega), if_pos hin, if_pos hin]
    exact if_congr (by omega) rfl rfl
  · rw [if_pos (c := data.length ≤ sub32 a dst) (by omega), if_neg hin, if_neg hin]
    exact if_congr (by omega) rfl rfl

/-- The number of bytes that a call of `MBLoadKernel` moves for a file of
    `avail` bytes. -/
def movedBytes (avail fileStart count : Nat) : Nat :=
  loadedBytes avail (sub32 count fileStart) fileStart

/-- The part of the file that a call of `MBLoadKernel` moves. -/
def loadedPart (file : Bytes) (fileStart count : Nat) : Bytes :=
  slice file fileStart (movedBytes file.length fileStart count)

theorem movedBytes_le (avail fileStart count : Nat) :
    movedBytes avail fileStart count ≤ avail - fileStart := loadedBytes_le _ _ _

theorem getD_loadedPart (file : Bytes) (fileStart count : Nat) {i : Nat}
    (hi : i < (loadedPart file fileStart count).length) :
    (loadedPart file fileStart count).getD i 0 = file.getD (fileStart + i) 0 := by
  apply getD_slice
  rw [loadedPart, length_slice] at hi
  omega

theorem length_loadedPart (file : Bytes) (fileStart count : Nat) :
    (loadedPart file fileStart count).length = movedBytes file.length fileStart count := by
  have hle := movedBytes_le file.length fileStart count
  rw [loadedPart, length_slice]
  omega

variable {hdr : MultiBootHeader} {off fileStart memStart count : Nat}

/-- What `MBLoadKernel` can do: refuse without a write, break off in the copy
    loop, or run it to its end. -/
theorem mbLoadKernel_cases {fuel : Nat} {st st' : Boot} {ok : Bool}
    (h : mbLoadKernel w v fuel st finfo hdr off = some (ok, st')) :
    (st'.haveKernel = st.haveKernel ∧ st'.kernelEntry = st.kernelEntry) ∧
    ((ok = false ∧ st'.pmCalls = st.pmCalls) ∨
     ∃ fileStart memStart count buffer heap res st₂,
      hdr.extractMemLayout off finfo.size = some (fileStart, memStart, count) ∧
      malloc fuel st.heap 1024 = some (buffer, heap) ∧ buffer ≠ 0 ∧
      copyLoop w v fuel finfo (sub32 count fileStart) fuel fileStart memStart
        { st.print (loadingMessage memStart count) with heap := heap } = some (res, st₂) ∧
      ((ok = false ∧ res = none ∧ st'.pmCalls = st₂.pmCalls) ∨
       ∃ memEnd, ok = true ∧ res = some memEnd ∧
        st'.pmCalls = st₂.pmCalls ++ [.clear memEnd hdr.bssSize])) := by
  cases hlay : hdr.extractMemLayout off finfo.size with
  | none =>
    simp only [mbLoadKernel, hlay] at h
    cases h
    exact ⟨⟨rfl, rfl⟩, .inl ⟨rfl, rfl⟩⟩
  | some layout =>
    obtain ⟨fileStart, memStart, count⟩ := layout
    simp only [mbLoadKernel, hlay, Option.bind_eq_bind, Option.bind_eq_some_iff] at h
    obtain ⟨⟨buffer, heap⟩, hmalloc, h⟩ := h
    split at h
    · cases h
      exact ⟨⟨rfl, rfl⟩, .inl ⟨rfl, rfl⟩⟩
    next hbuf =>
    obtain ⟨⟨res, st₂⟩, hloop, h⟩ := Option.bind_eq_some_iff.mp h
    -- the copy loop does not touch what is stored on success
    obtain ⟨-, hkernel, hentry⟩ := copyLoop_frame hloop
    refine ⟨?_, .inr ⟨_, _, _, buffer, heap, res, st₂, rfl, hmalloc, hbuf, hloop, ?_⟩⟩
    · cases res with
      | none =>
        cases h
        exact ⟨hkernel, hentry⟩
      | some memEnd =>
        obtain ⟨heap', -, h⟩ := Option.bind_eq_some_iff.mp h
        cases h
        exact ⟨hkernel, hentry⟩
    · cases res with
      | none =>
        cases h
        exact .inl ⟨rfl, rfl, rfl⟩
      | some memEnd =>
        obtain ⟨heap', -, h⟩ := Option.bind_eq_some_iff.mp h
        cases h
        exact .inr ⟨memEnd, rfl, rfl, rfl⟩

/-- What a successful call has written. -/
theorem mbLoadKernel_memory (hk : KernelFile v finfo l) (hoff : off < finfo.size)
    (hlay : hdr.extractMemLayout off finfo.size = some (fileStart, memStart, count))
    {st st' : Boot} (hco : Coherent v st.fs) {fuel : Nat}
    (hcall : mbLoadKernel w v fuel st finfo hdr off = some (true, st')) (mem : Store) :
    PmCall.runAll st'.pmCalls mem = loadedMemory (PmCall.runAll st.pmCalls mem) memStart
      (loadedPart (v.fileBytes finfo l) fileStart count) hdr.bssSize := by
  have hlayout := extractMemLayout_spec (by have := hk.size_lt; omega) hlay
  have hmem : memStart < 2 ^ 32 := hlayout.memStart_eq ▸ hdr.field_lt 4
  obtain ⟨-, ⟨hno, -⟩ | ⟨_, _, _, buffer, heap, res, st₂, hlay', -, -, hloop, hend⟩⟩ :=
    mbLoadKernel_cases hcall
  · cases hno
  cases hlay.symm.trans hlay'
  rcases hend with ⟨hno, -⟩ | ⟨memEnd, -, rfl, hst'⟩
  · cases hno
  generalize hst : { st.print (loadingMessage memStart count) with heap := heap } = st₁ at hloop
  have hco₁ : Coherent v st₁.fs := by rw [← hst]; exact hco
  have hpm : st₁.pmCalls = st.pmCalls := by rw [← hst]; rfl
  rcases copyLoop_spec (w := w) hk (sub32 count fileStart) fuel fuel fileStart hco₁ hmem with
    ⟨hnone, -⟩ | ⟨fs', calls, -, hsome, heff⟩ | ⟨-, st₃, hfail⟩
  · rw [hnone] at hloop
    cases hloop
  · rw [hsome] at hloop
    cases hloop
    rw [hst', hpm, PmCall.runAll_append, PmCall.runAll_append, heff, loadedMemory,
      length_loadedPart]
    rfl
  · rw [hfail] at hloop
    cases hloop

/-- While no device read fails, a call that gets its buffer succeeds. -/
theorem mbLoadKernel_total (hk : KernelFile v finfo l) (hoff : off < finfo.size)
    (hlay : hdr.extractMemLayout off finfo.size = some (fileStart, memStart, count))
    (st : Boot) (hco : Coherent v st.fs) (hw : ¬ w.Faulty) {fuel buffer : Nat} {heap heap' : Heap}
    (hmalloc : malloc fuel st.heap 1024 = some (buffer, heap)) (hbuf : buffer ≠ 0)
    (hfree : free fuel heap buffer = some heap') (hfuel : l.length + finfo.size < fuel) :
    ∃ st', mbLoadKernel w v fuel st finfo hdr off = some (true, st') := by
  have hlayout := extractMemLayout_spec (by have := hk.size_lt; omega) hlay
  have hmem : memStart < 2 ^ 32 := hlayout.memStart_eq ▸ hdr.field_lt 4
  simp only [mbLoadKernel, hlay, Boot.print, hmalloc, Option.bind_eq_bind, Option.bind_some,
    if_neg hbuf]
  generalize hst : Boot.mk heap st.fs _ st.haveKernel st.kernelEntry st.pmCalls = st₁
  have hco₁ : Coherent v st₁.fs := by rw [← hst]; exact hco
  rcases copyLoop_spec (w := w) hk (sub32 count fileStart) fuel fuel fileStart hco₁ hmem with
    ⟨-, hless⟩ | ⟨fs', calls, -, hsome, -⟩ | ⟨hfault, -⟩
  · have hle := loadedBytes_le (v.fileBytes finfo l).length (sub32 count fileStart) fileStart
    have hlen := hk.length_le
    omega
  · rw [hsome, ← hst]
    simp only [Option.bind_some, hfree]
    exact ⟨_, rfl⟩
  · exact absurd hfault hw

/-- A loader with an unused heap of the usual size. -/
def freshBoot : Boot where
  heap := heapInit (fun _ => 0) 4096 heapMaxSize
  fs := FatFs.new [] []
  screen := []
  haveKernel := false
  kernelEntry := 0
  pmCalls := []

/-- Some call on the file succeeds: the properties below are not empty. -/
theorem exists_mbLoadKernel (hk : KernelFile v finfo l) (hoff : off < finfo.size)
    (hlay : hdr.extractMemLayout off finfo.size = some (fileStart, memStart, count)) :
    ∃ w fuel st', mbLoadKernel w v fuel freshBoot finfo hdr off = some (true, st') := by
  have hmalloc : (malloc 4 freshBoot.heap 1024).map Prod.fst = some 4104 := by decide
  obtain ⟨⟨buffer, heap⟩, hmalloc, rfl⟩ := Option.map_eq_some_iff.mp hmalloc
  have hfree : ((malloc 4 freshBoot.heap 1024).bind fun r => free 4 r.2 r.1).isSome := by
    decide
  rw [hmalloc, Option.bind_some, Option.isSome_iff_exists] at hfree
  obtain ⟨heap', hfree⟩ := hfree
  let w : World := { fault := fun _ _ => none, uninit := fun _ _ => [] }
  have hw : ¬ w.Faulty := fun ⟨_, _, hbad⟩ => hbad rfl
  let fuel := l.length + finfo.size + 5
  obtain ⟨st', hst'⟩ := mbLoadKernel_total hk hoff hlay freshBoot (Coherent.new v [] []) hw
    (malloc_mono (show 4 ≤ fuel by omega) hmalloc) (by decide)
    (free_mono (show 4 ≤ fuel by omega) hfree) (by omega)
  exact ⟨w, fuel, st', hst'⟩

end Hausboot

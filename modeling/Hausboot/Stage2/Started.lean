import Hausboot.Stage2.LoadExact

/-! # The stage2 Boot Loader: Which Kernel Is Started

    A run of `main` hands control to `kernelEntry` if `haveKernel` is set.
    Both are set by a successful `multiboot` command and never reset. The run
    invariant `Intact` states what they should stand for: the last `multiboot`
    command that wrote to high memory succeeded, and the entry is that of its
    header.

    1. `cmdMultiboot_cases` says once what the command can do.
    2. `intact_step` derives from it that a command which takes neither of two
       branches keeps the invariant.
    3. `runScript_intact` carries it through a boot script, `main_intact` to
       the start of the kernel. -/

open ByteLib

namespace Hausboot

/-! ## Section 1: Commands and high memory -/

/-- A protected mode call that writes a byte to high memory. -/
def PmCall.TouchesHigh : PmCall → Prop
  | .copy dst data => ∃ i < data.length, highMemory ≤ u32 (dst + i)
  | .clear dst size => ∃ i < size, highMemory ≤ u32 (dst + i)

instance : DecidablePred PmCall.TouchesHigh
  | .copy dst data => inferInstanceAs (Decidable (∃ i < data.length, highMemory ≤ u32 (dst + i)))
  | .clear dst size => inferInstanceAs (Decidable (∃ i < size, highMemory ≤ u32 (dst + i)))

/-- One of the calls made between the two states writes to high memory. -/
def WroteHigh (pre post : Boot) : Prop :=
  ∃ x ∈ post.pmCalls.drop pre.pmCalls.length, x.TouchesHigh

instance (pre post : Boot) : Decidable (WroteHigh pre post) :=
  inferInstanceAs (Decidable (∃ x ∈ post.pmCalls.drop pre.pmCalls.length, x.TouchesHigh))

/-- The last `multiboot` command of a run that has written to high memory. -/
def LastWriter (calls : List Call) (c : Call) : Prop :=
  ∃ before after, calls = before ++ c :: after ∧ c.command = .multiboot ∧
    WroteHigh c.pre c.post ∧ ∀ d ∈ after, d.command = .multiboot → ¬ WroteHigh d.pre d.post

theorem wroteHigh_iff {pre post : Boot} {new : List PmCall}
    (h : post.pmCalls = pre.pmCalls ++ new) : WroteHigh pre post ↔ ∃ x ∈ new, x.TouchesHigh := by
  unfold WroteHigh
  rw [h, List.drop_left]

/-- A call without a write to high memory behind it changes no last writer. -/
theorem LastWriter.append {calls : List Call} {c d : Call} (h : LastWriter calls c)
    (hd : d.command = .multiboot → ¬ WroteHigh d.pre d.post) : LastWriter (calls ++ [d]) c := by
  obtain ⟨before, after, rfl, hcmd, hwrote, hafter⟩ := h
  refine ⟨before, after ++ [d], by simp, hcmd, hwrote, fun e he => ?_⟩
  rcases List.mem_append.mp he with he | he
  · exact hafter e he
  · obtain rfl := List.mem_singleton.mp he
    exact hd

theorem LastWriter.of_writer (calls : List Call) {c : Call} (hcmd : c.command = .multiboot)
    (hwrote : WroteHigh c.pre c.post) : LastWriter (calls ++ [c]) c :=
  ⟨calls, [], rfl, hcmd, hwrote, fun _ h => by cases h⟩

section Runs

variable (w : World) (v : Volume) (fuel : Nat)

/-- The part of the command `multiboot path` up to the header: the file, the
    offset of the header and the header. -/
def findHeader (pre : Boot) (path : Bytes) : Option (FatFile × Nat × MultiBootHeader × Boot) := do
  match ← FatFs.findByPath w v fuel pre.fs path with
  | (.ok finfo, fs) =>
    match ← mbFindHeader w v fuel { pre with fs := fs } finfo with
    | (some (off, hdr), st) => some (finfo, off, hdr, st)
    | (none, _) => none
  | _ => none

/-- The part of the command up to the end of the copy loop: the header, and how
    the loop has ended; `none` if the command does not get to the loop. -/
def runCopyLoop (pre : Boot) (path : Bytes) : Option (MultiBootHeader × Option Nat × Boot) := do
  let (finfo, off, hdr, st) ← findHeader w v fuel pre path
  if FlagField.isSet hdr.flags MultiBootHeader.wantVidmode ||
      !FlagField.isSet hdr.flags MultiBootHeader.haveLayoutInfo then none
  else
    let (fileStart, memStart, count) ← hdr.extractMemLayout off finfo.size
    let (buffer, heap) ← malloc fuel st.heap 1024
    if buffer = 0 then none
    else
      let (res, st) ← copyLoop w v fuel finfo (sub32 count fileStart) fuel fileStart memStart
        { st.print (loadingMessage memStart count) with heap := heap }
      some (hdr, res, st)

/-- The branch `ret < 0` of the copy loop is taken after a block has been
    copied to high memory. -/
def BreaksOffInHigh (pre : Boot) (path : Bytes) : Prop :=
  ∃ hdr st, runCopyLoop w v fuel pre path = some (hdr, none, st) ∧ WroteHigh pre st

/-- The copy loop runs to its end, but neither a block nor the BSS touches high
    memory: the loop had no room to start or no file to read, or the image
    lies below. -/
def LoadsNothingHigh (pre : Boot) (path : Bytes) : Prop :=
  ∃ hdr memEnd st, runCopyLoop w v fuel pre path = some (hdr, some memEnd, st) ∧
    ¬ WroteHigh pre st ∧ ¬ (PmCall.clear memEnd hdr.bssSize).TouchesHigh

/-- A `multiboot` command that takes neither of the two branches; the first
    matters only if a kernel is already there to be started. -/
structure CleanStep (pre : Boot) (path : Bytes) : Prop where
  finishes : pre.haveKernel = true → ¬ BreaksOffInHigh w v fuel pre path
  loads : ¬ LoadsNothingHigh w v fuel pre path

end Runs

/-! ## Section 2: One command -/

variable {w : World} {v : Volume} {mc : Machine} {fuel : Nat}

/-- `MBFindHeader` changes the heap, the driver and the screen. -/
theorem mbFindHeader_frame {finfo : FatFile} {st st' : Boot}
    {res : Option (Nat × MultiBootHeader)}
    (h : mbFindHeader w v fuel st finfo = some (res, st')) :
    st'.pmCalls = st.pmCalls ∧ st'.haveKernel = st.haveKernel ∧
      st'.kernelEntry = st.kernelEntry := by
  simp only [mbFindHeader, Option.bind_eq_bind, Option.bind_eq_some_iff] at h
  obtain ⟨⟨buffer, heap⟩, -, h⟩ := h
  split at h
  · cases h
    exact ⟨rfl, rfl, rfl⟩
  · obtain ⟨⟨res, fs⟩, -, h⟩ := Option.bind_eq_some_iff.mp h
    obtain ⟨heap', -, h⟩ := Option.bind_eq_some_iff.mp h
    cases h
    exact ⟨rfl, rfl, rfl⟩

/-- What a `multiboot` command can do. -/
theorem cmdMultiboot_cases {st st' : Boot} {path : Bytes} {ok : Bool}
    (h : cmdMultiboot w v fuel st path = some (ok, st')) :
    (ok = false ∧ st'.haveKernel = st.haveKernel ∧ st'.kernelEntry = st.kernelEntry ∧
      (st'.pmCalls = st.pmCalls ∨ ∃ hdr st₂,
        runCopyLoop w v fuel st path = some (hdr, none, st₂) ∧ st'.pmCalls = st₂.pmCalls)) ∨
    (ok = true ∧ st'.haveKernel = true ∧ ∃ finfo off hdr st₁ memEnd st₂ new,
      findHeader w v fuel st path = some (finfo, off, hdr, st₁) ∧
      runCopyLoop w v fuel st path = some (hdr, some memEnd, st₂) ∧
      st'.kernelEntry = hdr.entryPoint ∧ st₂.pmCalls = st.pmCalls ++ new ∧
      st'.pmCalls = st₂.pmCalls ++ [.clear memEnd hdr.bssSize]) := by
  simp only [cmdMultiboot, Option.bind_eq_bind, Option.bind_eq_some_iff] at h
  obtain ⟨⟨ret, fs⟩, hpath, h⟩ := h
  cases ret with
  | ok finfo =>
    obtain ⟨⟨res, st₁⟩, hfind, h⟩ := Option.bind_eq_some_iff.mp h
    obtain ⟨hpm, hkernel, hentry⟩ := mbFindHeader_frame hfind
    cases res with
    | none =>
      cases h
      exact .inl ⟨rfl, hkernel, hentry, .inl hpm⟩
    | some found =>
      obtain ⟨off, hdr⟩ := found
      -- a header has been found, so the call gets to the load
      have hfinds : findHeader w v fuel st path = some (finfo, off, hdr, st₁) := by
        simp only [findHeader, hpath, Option.bind_eq_bind, Option.bind_some, hfind]
      dsimp only at h
      split at h
      · cases h
        exact .inl ⟨rfl, hkernel, hentry, .inl hpm⟩
      next hvid =>
      split at h
      · cases h
        exact .inl ⟨rfl, hkernel, hentry, .inl hpm⟩
      next hlayinfo =>
      obtain ⟨⟨loaded, st₃⟩, hload, h⟩ := Option.bind_eq_some_iff.mp h
      obtain ⟨⟨hkernel₃, hentry₃⟩, hcases⟩ := mbLoadKernel_cases hload
      rcases hcases with ⟨rfl, hpm₃⟩ |
        ⟨fileStart, memStart, count, buffer, heap, res, st₂, hlay, hmalloc, hbuf, hloop, hend⟩
      · cases h
        exact .inl ⟨rfl, hkernel₃.trans hkernel, hentry₃.trans hentry, .inl (hpm₃.trans hpm)⟩
      · have hruns : runCopyLoop w v fuel st path = some (hdr, res, st₂) := by
          simp only [runCopyLoop, hfinds, Option.bind_eq_bind, Option.bind_some, hvid, hlayinfo,
            hlay, hmalloc, hbuf, hloop, Bool.false_or, if_false, Bool.false_eq_true]
        obtain ⟨⟨new, hnew⟩, -, -⟩ := copyLoop_frame hloop
        -- the copy loop fails, or the rest is cleared and the entry stored
        rcases hend with ⟨rfl, rfl, hpm₃⟩ | ⟨memEnd, rfl, rfl, hpm₃⟩
        · cases h
          exact .inl ⟨rfl, hkernel₃.trans hkernel, hentry₃.trans hentry,
            .inr ⟨hdr, st₂, hruns, hpm₃⟩⟩
        · cases h
          refine .inr ⟨rfl, rfl, finfo, off, hdr, st₁, memEnd, st₂, new, hfinds, hruns, rfl, ?_,
            hpm₃⟩
          rw [hnew, ← hpm]
          rfl
  | nameInvalid =>
    cases h
    exact .inl ⟨rfl, rfl, rfl, .inl rfl⟩
  | ioError =>
    cases h
    exact .inl ⟨rfl, rfl, rfl, .inl rfl⟩
  | noEntry =>
    cases h
    exact .inl ⟨rfl, rfl, rfl, .inl rfl⟩
  | notDir =>
    cases h
    exact .inl ⟨rfl, rfl, rfl, .inl rfl⟩

/-- The other commands print. -/
theorem callback_frame {command : Command} (hcmd : command ≠ .multiboot) {st st' : Boot}
    {arg : Bytes} {ok : Bool} (h : command.callback w v mc fuel st arg = some (ok, st')) :
    st'.haveKernel = st.haveKernel ∧ st'.kernelEntry = st.kernelEntry := by
  cases command with
  | echo =>
    cases h
    exact ⟨rfl, rfl⟩
  | info =>
    simp only [Command.callback, cmdInfo] at h
    split at h
    · cases h
      exact ⟨rfl, rfl⟩
    split at h
    · cases h
      exact ⟨rfl, rfl⟩
    · cases h
      exact ⟨rfl, rfl⟩
  | multiboot => exact absurd rfl hcmd

/-! ## Section 3: The run invariant -/

/-- What `haveKernel` and `kernelEntry` stand for, after the given calls. -/
def Intact (w : World) (v : Volume) (fuel : Nat) (calls : List Call) (st : Boot) : Prop :=
  st.haveKernel = true → ∃ c finfo off hdr st₁, LastWriter calls c ∧ c.ok = true ∧
    findHeader w v fuel c.pre c.arg = some (finfo, off, hdr, st₁) ∧
    st.kernelEntry = hdr.entryPoint

theorem Intact.keep {calls : List Call} {d : Call} (h : Intact w v fuel calls d.pre)
    (hkernel : d.post.haveKernel = d.pre.haveKernel)
    (hentry : d.post.kernelEntry = d.pre.kernelEntry)
    (hd : d.pre.haveKernel = true → d.command = .multiboot → ¬ WroteHigh d.pre d.post) :
    Intact w v fuel (calls ++ [d]) d.post := by
  intro hhave
  rw [hkernel] at hhave
  obtain ⟨c, finfo, off, hdr, st₁, hlast, hok, hfinds, hentry'⟩ := h hhave
  exact ⟨c, finfo, off, hdr, st₁, hlast.append (hd hhave), hok, hfinds, hentry.trans hentry'⟩

/-- A command that takes neither of the two branches keeps the invariant. -/
theorem intact_step {calls : List Call} {d : Call}
    (hcall : d.command.callback w v mc fuel d.pre d.arg = some (d.ok, d.post))
    (hclean : d.command = .multiboot → CleanStep w v fuel d.pre d.arg)
    (h : Intact w v fuel calls d.pre) : Intact w v fuel (calls ++ [d]) d.post := by
  by_cases hcmd : d.command = .multiboot
  swap
  · obtain ⟨hkernel, hentry⟩ := callback_frame hcmd hcall
    exact h.keep hkernel hentry fun _ hm => absurd hm hcmd
  rw [hcmd] at hcall
  have hclean := hclean hcmd
  rcases cmdMultiboot_cases hcall with ⟨-, hkernel, hentry, hpm⟩ |
    ⟨hok, -, finfo, off, hdr, st₁, memEnd, st₂, new, hfinds, hruns, hentry, hnew, hpm⟩
  · -- the command failed: had it written to high memory, it would have broken off there
    refine h.keep hkernel hentry fun hhave _ hwrote => ?_
    rcases hpm with hpm | ⟨hdr, st₂, hruns, hpm⟩
    · have hsame : d.post.pmCalls = d.pre.pmCalls ++ [] := by rw [hpm, List.append_nil]
      obtain ⟨x, hx, -⟩ := (wroteHigh_iff hsame).mp hwrote
      cases hx
    · refine hclean.finishes hhave ⟨hdr, st₂, hruns, ?_⟩
      unfold WroteHigh
      rw [← hpm]
      exact hwrote
  · -- the command succeeded: it has written to high memory, so it is the last writer
    have hall : d.post.pmCalls = d.pre.pmCalls ++ (new ++ [.clear memEnd hdr.bssSize]) := by
      rw [hpm, hnew, List.append_assoc]
    have hwrote : WroteHigh d.pre d.post := by
      rw [wroteHigh_iff hall]
      by_contra hnot
      refine hclean.loads ⟨hdr, memEnd, st₂, hruns, ?_, ?_⟩
      · intro hhigh
        obtain ⟨x, hx, hhigh⟩ := (wroteHigh_iff hnew).mp hhigh
        exact hnot ⟨x, List.mem_append_left _ hx, hhigh⟩
      · intro hhigh
        exact hnot ⟨_, List.mem_append_right _ (List.mem_singleton_self _), hhigh⟩
    exact fun _ => ⟨d, finfo, off, hdr, st₁, .of_writer calls hcmd hwrote, hok, hfinds, hentry⟩

/-- A boot script keeps the invariant. -/
theorem runScript_intact {n : Nat} {st st' : Boot} {buffer : Bytes} {ptr : Nat}
    {pre calls : List Call}
    (hrun : runScript w v mc fuel n st buffer ptr = some (st', calls))
    (hclean : ∀ c ∈ calls, c.command = .multiboot → CleanStep w v fuel c.pre c.arg)
    (h : Intact w v fuel pre st) : Intact w v fuel (pre ++ calls) st' := by
  induction n generalizing st buffer ptr pre calls with
  | zero => cases hrun
  | succ n ih =>
    unfold runScript at hrun
    split at hrun
    · cases hrun
      rw [List.append_nil]
      exact h
    simp only at hrun
    split at hrun
    · exact ih hrun hclean h
    split at hrun
    · cases hrun
      rw [List.append_nil]
      exact h
    · next command _ =>
      obtain ⟨⟨ok, st₁⟩, hcall, hrun⟩ := Option.bind_eq_some_iff.mp hrun
      dsimp only at hrun
      split at hrun
      · obtain ⟨⟨st₂, rest⟩, hrest, hrun⟩ := Option.bind_eq_some_iff.mp hrun
        cases hrun
        -- this command, and the ones behind it
        have hstep := intact_step (d := ⟨command, _, st, ok, st₁⟩) hcall (hclean _ (by simp)) h
        have hall := ih hrest (fun c hc => hclean c (by simp [hc])) hstep
        rwa [List.append_assoc] at hall
      · cases hrun
        exact intact_step (d := ⟨command, _, st, ok, st'⟩) hcall (hclean _ (by simp)) h

/-! ## Section 4: Runs of main -/

theorem mbGenInfo_kernelEntry {st st' : Boot} {info : Option Nat}
    (h : mbGenInfo mc fuel st = some (info, st')) : st'.kernelEntry = st.kernelEntry := by
  obtain ⟨⟨p, heap⟩, -, h⟩ := Option.bind_eq_some_iff.mp h
  dsimp only at h
  split at h
  · cases h
    rfl
  obtain ⟨⟨q, heap'⟩, -, h⟩ := Option.bind_eq_some_iff.mp h
  dsimp only at h
  split at h
  · cases h
    rfl
  · cases h
    rfl

/-- `main` itself starts nothing: it hands over to the configuration. -/
theorem main_hands_over {entry info : Nat} {st : Boot} {calls : List Call}
    (hmain : main w v mc fuel = some (.started entry info, st, calls)) :
    ∃ st', st'.haveKernel = false ∧
      bootFromConfig w v mc fuel st' = some (.started entry info, st, calls) := by
  obtain ⟨⟨part, heap⟩, -, hmain⟩ := Option.bind_eq_some_iff.mp hmain
  dsimp only at hmain
  split at hmain
  · cases hmain
  split at hmain
  · cases hmain
  split at hmain
  · cases hmain
  obtain ⟨⟨fs, heap⟩, -, hmain⟩ := Option.bind_eq_some_iff.mp hmain
  dsimp only at hmain
  split at hmain
  · cases hmain
  obtain ⟨⟨fatWindow, heap⟩, -, hmain⟩ := Option.bind_eq_some_iff.mp hmain
  obtain ⟨⟨dataWindow, heap⟩, -, hmain⟩ := Option.bind_eq_some_iff.mp hmain
  dsimp only at hmain
  split at hmain
  · cases hmain
  · exact ⟨_, rfl, hmain⟩

/-- What is started is what the script has left behind. -/
theorem bootFromConfig_started {entry info : Nat} {st' st : Boot} {calls : List Call}
    (hboot : bootFromConfig w v mc fuel st' = some (.started entry info, st, calls)) :
    ∃ st₀ buffer st₁, st₀.haveKernel = st'.haveKernel ∧
      runScript w v mc fuel fuel st₀ buffer 0 = some (st₁, calls) ∧
      st₁.haveKernel = true ∧ entry = st₁.kernelEntry := by
  obtain ⟨⟨ret, fs⟩, -, hboot⟩ := Option.bind_eq_some_iff.mp hboot
  cases ret with
  | ok finfo =>
    dsimp only at hboot
    split at hboot
    · cases hboot
    obtain ⟨⟨fileBuffer, heap⟩, -, hboot⟩ := Option.bind_eq_some_iff.mp hboot
    obtain ⟨⟨rdRet, data, fs'⟩, -, hboot⟩ := Option.bind_eq_some_iff.mp hboot
    dsimp only at hboot
    split at hboot
    · cases hboot
    split at hboot
    · cases hboot
    obtain ⟨⟨st₁, calls'⟩, hrun, hboot⟩ := Option.bind_eq_some_iff.mp hboot
    obtain ⟨heap', -, hboot⟩ := Option.bind_eq_some_iff.mp hboot
    dsimp only at hboot
    split at hboot
    · next hhave =>
      obtain ⟨⟨info', st₂⟩, hgen, hboot⟩ := Option.bind_eq_some_iff.mp hboot
      have hentry := mbGenInfo_kernelEntry hgen
      cases info' with
      | none => cases hboot
      | some info' =>
        cases hboot
        refine ⟨_, _, st₁, ?_, hrun, hhave, hentry⟩
        rfl
    · cases hboot
  | nameInvalid => cases hboot
  | ioError => cases hboot
  | noEntry => cases hboot
  | notDir => cases hboot

/-- A run of `main` that starts a kernel has run a boot script from a state
    without one, and started what the script has left. -/
theorem main_started {entry info : Nat} {st : Boot} {calls : List Call}
    (hmain : main w v mc fuel = some (.started entry info, st, calls)) :
    ∃ st₀ buffer st₁, st₀.haveKernel = false ∧
      runScript w v mc fuel fuel st₀ buffer 0 = some (st₁, calls) ∧
      st₁.haveKernel = true ∧ entry = st₁.kernelEntry := by
  obtain ⟨st', hnone, hboot⟩ := main_hands_over hmain
  obtain ⟨st₀, buffer, st₁, hsame, hrun, hhave, hentry⟩ := bootFromConfig_started hboot
  exact ⟨st₀, buffer, st₁, hsame.trans hnone, hrun, hhave, hentry⟩

/-- **Only an intact kernel is started**, in every run in which no `multiboot`
    command takes one of the two branches: a device read that fails after a
    block has gone to high memory while a kernel is loaded, and a load that
    ends without having touched high memory. -/
theorem main_starts_intact {entry info : Nat} {st : Boot} {calls : List Call}
    (hmain : main w v mc fuel = some (.started entry info, st, calls))
    (hclean : ∀ c ∈ calls, c.command = .multiboot → CleanStep w v fuel c.pre c.arg) :
    ∃ c finfo off hdr st₁, LastWriter calls c ∧ c.ok = true ∧
      findHeader w v fuel c.pre c.arg = some (finfo, off, hdr, st₁) ∧ entry = hdr.entryPoint := by
  obtain ⟨st₀, buffer, st₁, hnone, hrun, hhave, rfl⟩ := main_started hmain
  have hstart : Intact w v fuel [] st₀ := fun h => by simp [hnone] at h
  exact runScript_intact hrun hclean hstart hhave

/-! ## Section 5: A volume with two kernels -/

/-- A script that loads `A` and then `B`. -/
def twoKernelsScript : Bytes := str "multiboot A\nmultiboot B\n"

/-- `BOOT.CFG` is cluster 3, kernel `A` is cluster 4, and kernel `B` takes the
    clusters 5 to 8. -/
def twoKernels : Volume :=
  sampleVolume
    [0x0FFFFFF8, 0x0FFFFFFF, 0x0FFFFFFF, 0x0FFFFFFF, 0x0FFFFFFF, 6, 7, 8, 0x0FFFFFFF] fun lba =>
    if lba = 2 then
      (sampleRecord (str "BOOT") (str "CFG") 3 twoKernelsScript.length).raw ++
      (sampleRecord (str "A") [] 4 64).raw ++ (sampleRecord (str "B") [] 5 2048).raw
    else if lba = 3 then twoKernelsScript
    else if lba = 4 then (sampleHeader 0x100000 0x100040 0x100040 0x100000).raw
    else if lba = 5 then (sampleHeader 0x100000 0x100800 0x100800 0x100010).raw
    else []

/-- A device on which sector 7 cannot be read. -/
def badSector : World where
  fault _ lba := if lba = 7 then some [] else none
  uninit _ _ := List.replicate 32 0

def sampleMachine : Machine where
  heapPtr := 4096
  memory _ := 0
  geometry := some ⟨80, 2, 18⟩
  startAddressLBA := 0
  enableA20 := true
  mmap := some []

/-- On the bad device, `B` breaks off after 1024 bytes and `A` is started. -/
theorem main_starts_overwritten :
    ∃ info st calls c, main badSector twoKernels sampleMachine 60 =
        some (.started 0x100000 info, st, calls) ∧
      LastWriter calls c ∧ c.ok = false := by
  have hrun : (main badSector twoKernels sampleMachine 60).map (fun r =>
      (r.1, r.2.2.map fun c : Call => (c.command, c.ok, decide (WroteHigh c.pre c.post)))) =
      some (.started 0x100000 6272, [(.multiboot, true, true), (.multiboot, false, true)]) := by
    decide +kernel
  obtain ⟨⟨out, st, calls⟩, hmain, hres⟩ := Option.map_eq_some_iff.mp hrun
  obtain ⟨rfl, hcalls⟩ := Prod.mk.inj hres
  obtain ⟨c, rest, rfl, -, hrest⟩ := List.map_eq_cons_iff.mp hcalls
  obtain ⟨d, rest, rfl, hd, hrest⟩ := List.map_eq_cons_iff.mp hrest
  obtain rfl := List.map_eq_nil_iff.mp hrest
  simp only [Prod.mk.injEq, decide_eq_true_eq] at hd
  obtain ⟨hcmd, hok, hwrote⟩ := hd
  exact ⟨6272, st, [c, d], d, hmain, .of_writer [c] hcmd hwrote, hok⟩

theorem cleanStep_of_loads {pre : Boot} {path : Bytes}
    (h : (runCopyLoop w v fuel pre path).map (fun r => (r.2.1.isSome, decide (WroteHigh pre r.2.2)))
      = some (true, true)) : CleanStep w v fuel pre path := by
  obtain ⟨⟨hdr, res, st⟩, hruns, hres⟩ := Option.map_eq_some_iff.mp h
  simp only [Prod.mk.injEq, decide_eq_true_eq] at hres
  obtain ⟨hsome, hwrote⟩ := hres
  constructor
  · rintro - ⟨hdr', st', hbreak, -⟩
    cases hruns.symm.trans hbreak
    cases hsome
  · rintro ⟨hdr', memEnd, st', hends, hnot, -⟩
    cases hruns.symm.trans hends
    exact hnot hwrote

/-- On a reliable device, both loads go through, and `B` is started. -/
theorem main_twoKernels : ∃ st calls, main reliable twoKernels sampleMachine 60 =
    some (.started 0x100010 5204, st, calls) ∧
    ∀ c ∈ calls, CleanStep reliable twoKernels 60 c.pre c.arg := by
  have hrun : (main reliable twoKernels sampleMachine 60).map (fun r =>
      (r.1, r.2.2.map fun c : Call => (runCopyLoop reliable twoKernels 60 c.pre c.arg).map
        fun q => (q.2.1.isSome, decide (WroteHigh c.pre q.2.2)))) =
      some (.started 0x100010 5204, [some (true, true), some (true, true)]) := by
    decide +kernel
  obtain ⟨⟨out, st, calls⟩, hmain, hres⟩ := Option.map_eq_some_iff.mp hrun
  obtain ⟨rfl, hcalls⟩ := Prod.mk.inj hres
  refine ⟨st, calls, hmain, fun c hc => ?_⟩
  have hmem := List.mem_map_of_mem (f := fun c : Call =>
    (runCopyLoop reliable twoKernels 60 c.pre c.arg).map
      fun q => (q.2.1.isSome, decide (WroteHigh c.pre q.2.2))) hc
  rw [hcalls] at hmem
  exact cleanStep_of_loads (by simpa using hmem)

/-- On a reliable device, `B` is loaded over `A` and started. -/
theorem main_starts_intact_second :
    ∃ info st calls, main reliable twoKernels sampleMachine 60 =
        some (.started 0x100010 info, st, calls) ∧
      ∃ c finfo off hdr st₁, LastWriter calls c ∧ c.ok = true ∧
        findHeader reliable twoKernels 60 c.pre c.arg = some (finfo, off, hdr, st₁) ∧
        0x100010 = hdr.entryPoint := by
  obtain ⟨st, calls, hmain, hclean⟩ := main_twoKernels
  exact ⟨5204, st, calls, hmain, main_starts_intact hmain fun c hc _ => hclean c hc⟩

end Hausboot

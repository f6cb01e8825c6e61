import Hausboot.Agree.Tree
import Hausboot.Stage2.Readable

/-! # Loader and Tree: The Boot Script Is Followed

    On a device through which stage2 sees a tree of files, and with room on the
    heap, stage2 does with the boot script what the ideal loader does: the same
    on the screen, the same in memory, and it starts the same kernel or none
    (`main_follows`).

    1. `Boot.Follows` relates the state of the code with the one of the ideal
       loader. Every command keeps it (`callback_follows`).
    2. So does a script, line by line (`runScript_follows`).
    3. `bootFromConfig` and `main` go through their allocations.

    The image can be one that the tool has made (`sessions_boot`), and then it is
    known what is started (`sessions_started`). -/

open ByteLib DirTree

namespace Hausboot

open HeapEntry
open FatEdit (ByteVec FileTree)

variable {w : World} {v : Volume} {mc : Machine} {image : ByteVec} {loc : ℕ → ℕ} {t : FileTree}
  {memory : Store} {r : HeapRegion} {us : List Block} {e : ℕ}

/-! ## Section 1: What is asked of the tree -/

/-- A path that stage2 can follow to a file that it searches as it should. -/
structure Supported (t : FileTree) (path : Bytes) : Prop where
  noBlank : 0x20 ∉ path
  readable : t.findByPath path ≠ .error .unreadable
  noDir : ∀ i, t.findByPath path ≠ .ok (.dir i)
  length_lt : ∀ d, t.findByPath path = .ok (.file d) → d.length < 2 ^ 32
  trusted : ∀ d, t.findByPath path = .ok (.file d) → ScanTrusted d

/-- Every kernel that the script names is supported. -/
def ScriptSupported (t : FileTree) (lines : List Bytes) : Prop :=
  ∀ line ∈ lines, ∀ cmd path, parseLine line = some (cmd, path) →
    commands.lookup cmd = some .multiboot → Supported t path

/-- A file of the tree is found, and can be read. -/
theorem SeesTree.file (hsees : SeesTree w v image loc t) {path d : Bytes} (hpath : cstr path = path)
    (hblank : 0x20 ∉ path) (hfound : t.findByPath path = .ok (.file d)) :
    ∃ fuel₀, ∀ fuel ≥ fuel₀, ∀ fs, Coherent (imageVolume image) fs →
      ∃ out fs', FatFs.findByPath w v fuel fs path = some (.ok out, fs') ∧
        Coherent (imageVolume image) fs' ∧ out.size = d.length ∧
        (d ≠ [] → ReadsFile w v fuel out (Coherent (imageVolume image)) d) := by
  obtain ⟨fuel₀, hfind⟩ := hsees path (by rwa [hpath]) (by simp [hpath, hfound])
  rw [hpath, hfound] at hfind
  refine ⟨fuel₀, fun fuel hfuel fs hco => ?_⟩
  obtain ⟨r, fs', hrun, hco', ⟨out, rfl, -, hsize, -⟩, hreads⟩ := hfind fuel hfuel fs hco
  refine ⟨out, fs', hrun, hco', hsize, fun hne => ?_⟩
  obtain ⟨out', heq, hout⟩ := hreads d rfl hne
  cases heq
  exact hout

/-- The loader has got as far as the ideal loader, with these blocks in use. -/
structure Boot.Follows (image : ByteVec) (r : HeapRegion) (us : List Block) (memory : Store)
    (st : Boot) (s : Loader) : Prop where
  coherent : Coherent (imageVolume image) st.fs
  heap : InUse r st.heap us
  screen : st.screen = s.screen
  memory : PmCall.runAll st.pmCalls memory = s.memory
  entry : (if st.haveKernel then some st.kernelEntry else none) = s.entry

namespace Boot.Follows

variable {st : Boot} {s : Loader} (h : st.Follows image r us memory s)
include h

theorem print (ops : List ScreenOp) : (st.print ops).Follows image r us memory (s.print ops) where
  coherent := h.coherent
  heap := h.heap
  screen := by rw [Boot.print, Loader.print, h.screen]
  memory := h.memory
  entry := h.entry

/-- Reading, and a buffer that has been given back, are not seen. -/
theorem moved {heap : Heap} {fs : FatFs} {us' : List Block} (hheap : InUse r heap us')
    (hfs : Coherent (imageVolume image) fs) :
    { st with heap := heap, fs := fs }.Follows image r us' memory s where
  coherent := hfs
  heap := hheap
  screen := h.screen
  memory := h.memory
  entry := h.entry

/-- A kernel has been loaded. -/
theorem loaded {heap : Heap} {fs : FatFs} {calls : List PmCall} {ops : List ScreenOp}
    {load : Store → Store} {entry : ℕ} (hheap : InUse r heap us)
    (hfs : Coherent (imageVolume image) fs) (hload : ∀ mem, PmCall.runAll calls mem = load mem) :
    { st with
      heap := heap
      fs := fs
      screen := st.screen ++ ops
      pmCalls := st.pmCalls ++ calls
      haveKernel := true
      kernelEntry := entry }.Follows image r us memory
    { s.print ops with
      memory := load s.memory
      entry := some entry } where
  coherent := hfs
  heap := hheap
  screen := by rw [h.screen, Loader.print]
  memory := by rw [PmCall.runAll_append, hload, h.memory]
  entry := rfl

end Boot.Follows

/-! ## Section 2: Commands -/

section Commands

variable (hsees : SeesTree w v image loc t) (hs : Stacked r us e) (hpos : 0 < r.basePtr)
  (hroom : e + 8 + 1024 ≤ r.stop)
  (hu : ∀ loads, (w.uninit .header loads).length ≤ MultiBootHeader.sizeof)
include hsees hs hpos hroom hu

/-- **The command `multiboot`**, on any state from which the ideal loader is
    followed. -/
theorem cmdMultiboot_follows {path : Bytes} (hsup : Supported t path) (hzero : 0 ∉ path) :
    ∃ fuel₀, ∀ fuel ≥ fuel₀, ∀ st s, Boot.Follows image r us memory st s →
      ∃ st', cmdMultiboot w v fuel st path = some ((s.multiboot t path).1, st') ∧
        st'.Follows image r us memory (s.multiboot t path).2 := by
  have hpath : cstr path = path := cstr_of_notMem hzero
  cases hfound : t.findByPath path with
  | error miss =>
    obtain ⟨fuel₁, hfind⟩ := hsees path (by rw [hpath]; exact hsup.noBlank)
      (by rw [hpath]; exact hsup.readable)
    rw [hpath] at hfind
    refine ⟨fuel₁, fun fuel hfuel st s h => ?_⟩
    obtain ⟨res, fs, hrun, hco, hleads, -⟩ := hfind fuel hfuel st.fs h.coherent
    rw [hfound] at hleads
    have hst : { st with fs := fs }.Follows image r us memory s := h.moved h.heap hco
    have hideal : s.multiboot t path =
        (false, s.print [.chars path, .text ": ", .text miss.toText, .text "\r\n"]) := by
      rw [Loader.multiboot, hfound]
    rw [hideal]
    refine ⟨_, ?_, hst.print _⟩
    cases miss with
    | unreadable => exact hleads.elim
    | nameInvalid | noEntry | notDir =>
      cases hleads
      rw [cmdMultiboot, hrun]
      rfl
  | ok x =>
    cases x with
    | dir i => exact absurd hfound (hsup.noDir i)
    | file d =>
      have hlen := hsup.length_lt d hfound
      obtain ⟨fuel₁, hfind⟩ := hsees.file hpath hsup.noBlank hfound
      refine ⟨max fuel₁ (max (r.maxSize + 1) (max (multiBootMaxSearch + 1) (d.length + 1))),
        fun fuel hfuel st s h => ?_⟩
      obtain ⟨out, fs, hrun, hco, hsize, hreads⟩ := hfind fuel (by omega) st.fs h.coherent
      have hst : { st with fs := fs }.Follows image r us memory s := h.moved h.heap hco
      obtain ⟨heap₁, fs₁, hsearch, hheap₁, hco₁⟩ :=
        mbFindHeader_reads hreads hlen hsize hs hpos hroom (by omega) hst.heap hst.coherent
          (hsup.trusted d hfound) (hu _) (by omega)
      have hst₁ := hst.moved hheap₁ hco₁
      rw [cmdMultiboot, Loader.multiboot, hfound, hrun]
      simp only [Option.bind_eq_bind, Option.bind_some, hsearch, contents]
      cases hhdr : firstHeader d with
      | none => exact ⟨_, rfl, hst₁.print _⟩
      | some found =>
        obtain ⟨off, hdr⟩ := found
        dsimp only
        split
        · exact ⟨_, rfl, hst₁.print _⟩
        split
        · exact ⟨_, rfl, hst₁.print _⟩
        rw [Loader.load]
        cases hlay : hdr.extractMemLayout off d.length with
        | none =>
          refine ⟨_, ?_, hst₁.print _⟩
          rw [mbLoadKernel, hsize, hlay]
          rfl
        | some layout =>
          obtain ⟨fileStart, memStart, count⟩ := layout
          obtain ⟨heap₂, fs₂, calls, hload, hheap₂, hco₂, hmem⟩ :=
            mbLoadKernel_reads hreads hlen hsize hs hpos hroom (by omega) hst₁.heap hco₁
              (firstHeader_lt hhdr) hlay (by omega)
          rw [hload]
          exact ⟨_, rfl, (hst₁.loaded hheap₂ hco₂ hmem)⟩

theorem callback_follows {command : Command} {arg : Bytes}
    (hsup : command = .multiboot → Supported t arg) (hzero : 0 ∉ arg) :
    ∃ fuel₀, ∀ fuel ≥ fuel₀, ∀ st s, Boot.Follows image r us memory st s →
      ∃ st', command.callback w v mc fuel st arg = some ((s.call t mc command arg).1, st') ∧
        st'.Follows image r us memory (s.call t mc command arg).2 := by
  cases command with
  | echo => exact ⟨0, fun _ _ st s h => ⟨_, rfl, h.print _⟩⟩
  | multiboot => exact cmdMultiboot_follows hsees hs hpos hroom hu (hsup rfl) hzero
  | info =>
    refine ⟨0, fun _ _ st s h => ?_⟩
    have hequal : ∀ name : Bytes, 0 ∉ name → strEqual arg name = decide (arg = name) := by
      intro name hname
      rw [strEqual, cstr_of_notMem hzero, cstr_of_notMem hname]
      exact Bool.beq_eq_decide_eq _ _
    rw [Command.callback, cmdInfo, hequal _ (by decide), hequal _ (by decide), Loader.call,
      Loader.info]
    by_cases hdisk : arg = str "disk"
    · rw [if_pos (by simpa using hdisk), if_pos hdisk]
      exact ⟨_, rfl, h.print _⟩
    rw [if_neg (by simpa using hdisk), if_neg hdisk]
    by_cases hmemory : arg = str "memory"
    · rw [if_pos (by simpa using hmemory), if_pos hmemory]
      exact ⟨_, rfl, h.print _⟩
    · rw [if_neg (by simpa using hmemory), if_neg hmemory]
      exact ⟨_, rfl, h.print _⟩

/-! ## Section 3: The script -/

/-- **Line by line.** The induction is on the lines that are left. -/
theorem reference_follows {lines : List Bytes} (hsup : ScriptSupported t lines)
    (hzero : ∀ line ∈ lines, 0 ∉ line) :
    ∃ fuel₀, ∀ fuel ≥ fuel₀, ∀ st s, Boot.Follows image r us memory st s →
      ∃ st' calls, (Checked.stage2Host w v mc fuel).reference lines st = some (st', calls) ∧
        st'.Follows image r us memory (s.run t mc lines) := by
  induction lines with
  | nil => exact ⟨0, fun _ _ st s h => ⟨st, [], rfl, h⟩⟩
  | cons line lines ih =>
    obtain ⟨hline, hlines⟩ := List.forall_mem_cons.mp hsup
    obtain ⟨hzero, hzeros⟩ := List.forall_mem_cons.mp hzero
    obtain ⟨fuel₁, hrest⟩ := ih hlines hzeros
    cases hparse : parseLine line with
    | none =>
      refine ⟨fuel₁, fun fuel hfuel st s h => ?_⟩
      rw [ScriptHost.reference, Loader.run, hparse]
      exact hrest fuel hfuel st s h
    | some parsed =>
      obtain ⟨cmd, arg⟩ := parsed
      cases hlookup : commands.lookup cmd with
      | none =>
        refine ⟨0, fun fuel _ st s h => ?_⟩
        rw [ScriptHost.reference, Loader.run, hparse]
        dsimp only
        rw [hlookup]
        exact ⟨_, [], rfl, h.print _⟩
      | some command =>
        have harg : 0 ∉ arg := fun hz => hzero ((Loader.arg_suffix hparse).subset hz)
        obtain ⟨fuel₂, hcall⟩ := callback_follows hsees hs hpos hroom hu
          (fun heq => hline cmd arg hparse (heq ▸ hlookup)) harg
        refine ⟨max fuel₁ fuel₂, fun fuel hfuel st s h => ?_⟩
        obtain ⟨st₁, hrun, h₁⟩ := hcall fuel (le_of_max_le_right hfuel) st s h
        rw [ScriptHost.reference, Loader.run, hparse]
        dsimp only
        rw [hlookup]
        dsimp only [Checked.stage2Host]
        rw [hrun]
        cases hok : s.call t mc command arg with
        | mk ok s₁ =>
          rw [hok] at h₁
          cases ok with
          | false => exact ⟨st₁, _, rfl, h₁⟩
          | true =>
            obtain ⟨st', calls, href, h'⟩ := hrest fuel (le_of_max_le_left hfuel) st₁ s₁ h₁
            refine ⟨st', (command, arg) :: calls, ?_, h'⟩
            dsimp only [Checked.stage2Host] at href
            dsimp only
            rw [href]
            rfl

omit hsees hs hpos hroom hu in
/-- The script ends where the string in the buffer ends. -/
theorem exists_terminator (file : Bytes) :
    ∃ behind, file ++ [0] = [] ++ (cstr file ++ 0 :: behind) := by
  induction file with
  | nil => exact ⟨[], rfl⟩
  | cons c file ih =>
    by_cases hc : c = 0
    · subst hc
      exact ⟨file ++ [0], rfl⟩
    · obtain ⟨behind, heq⟩ := ih
      rw [List.nil_append] at heq
      exact ⟨behind, by rw [List.cons_append, heq, cstr_cons_ne hc]; rfl⟩

/-- **RunScript** on the contents of a file. -/
theorem runScript_follows (mc : Machine) (memory : Store) {file : Bytes}
    (hsup : ScriptSupported t (Loader.scriptLines file)) :
    ∃ fuel₀, ∀ fuel ≥ fuel₀, ∀ st s, Boot.Follows image r us memory st s →
      ∃ st' calls, runScript w v mc fuel fuel st (file ++ [0]) 0 = some (st', calls) ∧
        st'.Follows image r us memory (s.run t mc (Loader.scriptLines file)) := by
  obtain ⟨fuel₀, href⟩ := reference_follows hsees hs hpos hroom hu hsup
    fun line hline => Loader.zero_notMem_scriptLines hline
  refine ⟨max fuel₀ (file.length + 1), fun fuel hfuel st s h => ?_⟩
  obtain ⟨st', calls, hrun, h'⟩ := href fuel (le_of_max_le_left hfuel) st s h
  obtain ⟨behind, hbuf⟩ := exists_terminator file
  have hle : (cstr file).length ≤ file.length := (List.takeWhile_prefix _).length_le
  have hchecked := Checked.runScript_eq (Checked.stage2Host w v mc fuel) hbuf rfl
    (zero_notMem_cstr file) (show 0 + (cstr file).length < (cstr file).length + 1 by omega)
    (show (cstr file).length < fuel by omega) st
  rw [ScriptHost.expected, ← Loader.scriptLines, hrun] at hchecked
  have hlimit : (cstr file).length + 1 ≤ (file ++ [0]).length := by
    rw [List.length_append, List.length_singleton]
    omega
  obtain ⟨cs, hcode, -⟩ := Checked.runScript_ok hlimit hchecked
  exact ⟨st', cs, hcode, h'⟩

end Commands

/-! ## Section 4: The configuration file -/

/-- A configuration file that can be looked for, with a script all of whose
    kernels are supported. -/
structure ConfigSupported (t : FileTree) : Prop where
  readable : t.findByPath bootConfigName ≠ .error .unreadable
  noDir : ∀ i, t.findByPath bootConfigName ≠ .ok (.dir i)
  script : ∀ d, t.findByPath bootConfigName = .ok (.file d) →
    ScriptSupported t (Loader.scriptLines d)

/-- The kernel that a run ends with, if it starts one. -/
def Outcome.entry : Outcome → Option ℕ
  | .started entry _ => some entry
  | .halted | .nullBuffer => none

/-- A run has ended as the ideal loader has. -/
structure Ended (memory : Store) (out : Outcome) (st : Boot) (s : Loader) : Prop where
  screen : st.screen = s.screen
  memory : PmCall.runAll st.pmCalls memory = s.memory
  entry : out.entry = s.entry
  safe : out ≠ .nullBuffer

/-- A run that halts with a message. -/
theorem Boot.Follows.halted {st : Boot} {s : Loader} (h : st.Follows image r us memory s)
    (hno : s.entry = none) (ops : List ScreenOp) :
    Ended memory .halted (st.print ops) (s.print ops) where
  screen := (h.print ops).screen
  memory := h.memory
  entry := hno.symm
  safe := Outcome.noConfusion

/-- A whole file, also an empty one. -/
theorem readAt_whole {fuel : ℕ} {fs : FatFs} {out : FatFile} {d : Bytes} {I : FatFs → Prop}
    (hsize : out.size = d.length) (hlen : d.length < 2 ^ 31) (hfuel : 0 < fuel)
    (hreads : d ≠ [] → ReadsFile w v fuel out I d) (hI : I fs) :
    ∃ fs', FatFs.readAt w v fuel fs out 0 out.size = some ((d.length : Int), d, fs') ∧ I fs' := by
  by_cases hne : d = []
  · subst hne
    obtain ⟨n, rfl⟩ : ∃ n, fuel = n + 1 := ⟨fuel - 1, by omega⟩
    refine ⟨fs, ?_, hI⟩
    rw [FatFs.readAt, hsize]
    rfl
  · obtain ⟨fs', hread, hI'⟩ := (hreads hne).window hI 0 out.size (by omega)
    have hwhole : slice d 0 out.size = d := by
      rw [slice, List.drop_zero, hsize, List.take_length]
    rw [hwhole] at hread
    exact ⟨fs', hread, hI'⟩

/-- The configuration file is not there, or it is too big. -/
theorem bootFromConfig_refuses (hsees : SeesTree w v image loc t) (hcfg : ConfigSupported t)
    (hno : ∀ file, t.findByPath bootConfigName = .ok (.file file) →
      bootConfigMaxSize < file.length) :
    ∃ fuel₀, ∀ fuel ≥ fuel₀, ∀ st s, Boot.Follows image r us memory st s → s.entry = none →
      ∃ out st' calls, bootFromConfig w v mc fuel st = some (out, st', calls) ∧
        Ended memory out st' (s.boot t mc) := by
  have hpath : cstr bootConfigName = bootConfigName := by decide
  cases hfound : t.findByPath bootConfigName with
  | error miss =>
    obtain ⟨fuel₁, hfind⟩ := hsees bootConfigName (by decide) (by rw [hpath]; exact hcfg.readable)
    rw [hpath] at hfind
    refine ⟨fuel₁, fun fuel hfuel st s h hnone => ?_⟩
    obtain ⟨res, fs, hrun, hco, hleads, -⟩ := hfind fuel hfuel st.fs h.coherent
    rw [hfound] at hleads
    have hst : { st with fs := fs }.Follows image r us memory s := h.moved h.heap hco
    rw [Loader.boot, hfound]
    refine ⟨.halted, _, [], ?_, hst.halted hnone _⟩
    cases miss with
    | unreadable => exact hleads.elim
    | nameInvalid | noEntry | notDir =>
      cases hleads
      rw [bootFromConfig, hrun]
      rfl
  | ok x =>
    cases x with
    | dir i => exact absurd hfound (hcfg.noDir i)
    | file file =>
      have hbig := hno file hfound
      obtain ⟨fuel₁, hfind⟩ := hsees.file hpath (by decide) hfound
      refine ⟨fuel₁, fun fuel hfuel st s h hnone => ?_⟩
      obtain ⟨out, fs, hrun, hco, hsize, -⟩ := hfind fuel hfuel st.fs h.coherent
      have hst : { st with fs := fs }.Follows image r us memory s := h.moved h.heap hco
      have hideal : s.boot t mc = s.print [.chars bootConfigName, .text ": too big (max size: ",
          .decimal bootConfigMaxSize, .text ")", .text "\r\n"] := by
        rw [Loader.boot, hfound]
        exact if_pos hbig
      rw [hideal]
      refine ⟨.halted, _, [], ?_, hst.halted hnone _⟩
      rw [bootFromConfig, hrun]
      exact if_pos (by rw [hsize]; exact hbig)

section Config

variable {d : ℕ} (hsees : SeesTree w v image loc t) (hs : Stacked r us d) (hpos : 0 < r.basePtr)
  (hd : d + 3508 ≤ r.stop) (hu : ∀ loads, (w.uninit .header loads).length ≤ MultiBootHeader.sizeof)
  (hcount : (mc.mmap.getD []).length ≤ 32)
include hsees hs hpos hd hu hcount

/-- The configuration file is loaded and followed. Its buffer lies behind the
    driver, and the temporary buffers behind it. -/
theorem bootFromConfig_script (hcfg : ConfigSupported t) {file : Bytes}
    (hfound : t.findByPath bootConfigName = .ok (.file file))
    (hsmall : file.length ≤ bootConfigMaxSize)
    (hplace : d + 8 + (file.length + 4) + 1032 ≤ r.stop) :
    ∃ fuel₀, ∀ fuel ≥ fuel₀, ∀ st s, Boot.Follows image r us memory st s → s.entry = none →
      ∃ out st' calls, bootFromConfig w v mc fuel st = some (out, st', calls) ∧
        Ended memory out st' (s.boot t mc) := by
  have hpath : cstr bootConfigName = bootConfigName := by decide
  have hmax : bootConfigMaxSize = 4096 := rfl
  have hbig : ¬ file.length > bootConfigMaxSize := by omega
  generalize hn : UInt32.ofNat (file.length + 1) = n
  have hround : roundCount n.toNat ≤ 4 * ((file.length + 4) / 4) := by
    rw [← hn]
    exact (roundCount_le_iff (by omega) (by omega)).mpr (by omega)
  have hs' := hs.push (c := roundCount n.toNat) (by omega)
  have hend : blockEnd r d (roundCount n.toNat) + 8 + 1024 ≤ r.stop := by
    rw [blockEnd_of_room (by omega)]
    omega
  obtain ⟨fuel₁, hfind⟩ := hsees.file hpath (by decide) hfound
  obtain ⟨fuel₂, hscript⟩ :=
    runScript_follows hsees hs' hpos hend hu mc memory (hcfg.script file hfound)
  refine ⟨max (max fuel₁ fuel₂) (r.maxSize + 1), fun fuel hfuel st s h hnone => ?_⟩
  obtain ⟨out, fs, hrun, hco, hsize, hreads⟩ := hfind fuel (by omega) st.fs h.coherent
  have hfits : d + 8 + roundCount n.toNat ≤ r.stop := by omega
  -- the buffer is allocated, filled, used and given back
  obtain ⟨heap₁, hmalloc, hheap₁⟩ := h.heap.malloc_room hs hpos hfits
    (show r.maxSize < fuel by omega)
  obtain ⟨fs₁, hread, hco₁⟩ := readAt_whole hsize (by omega) (by omega) hreads hco
  obtain ⟨st₂, calls, hcode, h₂⟩ := hscript fuel (by omega) _ s (h.moved hheap₁ hco₁)
  obtain ⟨heap₃, hfree, hheap₃⟩ := h₂.heap.free_ends (show r.maxSize ≤ fuel by omega)
  have hfree : free fuel st₂.heap (d + 8) = some heap₃ := hfree
  rw [List.append_nil] at hheap₃
  have h₃ := h₂.moved hheap₃ h₂.coherent
  have hideal : s.boot t mc = if (s.run t mc (Loader.scriptLines file)).entry.isSome then
      s.run t mc (Loader.scriptLines file)
      else (s.run t mc (Loader.scriptLines file)).print
        [.text "No kernel loaded!", .text "\r\n"] := by
    rw [Loader.boot, hfound]
    exact if_neg hbig
  rw [hideal, bootFromConfig, hrun]
  rw [hsize] at hread
  simp only [Option.bind_eq_bind, Option.bind_some, hsize, if_neg hbig, hn, hmalloc, hread]
  rw [if_neg (by simp), if_neg (by omega), hcode]
  simp only [Option.bind_some, hfree]
  have hentry := h₃.entry
  split
  · next hkernel =>
    rw [if_pos hkernel] at hentry
    obtain ⟨info, heap₄, hinfo⟩ := mbGenInfo_ends h₃.heap hs hd hpos hcount
      (show r.maxSize < fuel by omega)
    rw [hinfo, if_pos (by rw [← hentry]; rfl)]
    exact ⟨_, _, calls, rfl, h₃.screen, h₃.memory, hentry, Outcome.noConfusion⟩
  · next hkernel =>
    rw [if_neg hkernel] at hentry
    rw [if_neg (by rw [← hentry]; simp)]
    exact ⟨_, _, calls, rfl, h₃.halted hentry.symm _⟩

/-- **From the configuration file on.** -/
theorem bootFromConfig_follows (hcfg : ConfigSupported t)
    (hroom : ∀ file, t.findByPath bootConfigName = .ok (.file file) →
      file.length ≤ bootConfigMaxSize → d + 8 + (file.length + 4) + 1032 ≤ r.stop) :
    ∃ fuel₀, ∀ fuel ≥ fuel₀, ∀ st s, Boot.Follows image r us memory st s → s.entry = none →
      ∃ out st' calls, bootFromConfig w v mc fuel st = some (out, st', calls) ∧
        Ended memory out st' (s.boot t mc) := by
  by_cases hsmall : ∃ file, t.findByPath bootConfigName = .ok (.file file) ∧
      file.length ≤ bootConfigMaxSize
  · obtain ⟨file, hfound, hle⟩ := hsmall
    exact bootFromConfig_script hsees hs hpos hd hu hcount hcfg hfound hle (hroom file hfound hle)
  · refine bootFromConfig_refuses hsees hcfg fun file hfound => ?_
    by_contra hle
    exact hsmall ⟨file, hfound, by omega⟩

end Config

/-! ## Section 5: Whole runs -/

/-- Enough room for the block device, the driver and its windows. -/
theorem main_allocates (hp : mc.Placed) (hsector : v.sectorSize = 512)
    (hbytes : v.bytesPerCluster ≤ 4096) (hgo : ¬ mc.StopsEarly) :
    ∃ heap us, (∀ fuel > heapMaxSize, main w v mc fuel =
        bootFromConfig w v mc fuel { mc.start with heap := heap, fs := freshFs w }) ∧
      InUse hp.region heap us ∧
      Stacked hp.region us (mc.heapPtr + 588 + v.bytesPerCluster) := by
  have hstop := hp.stop
  have hpos : 0 < hp.region.basePtr := hp.pos
  have hbase : hp.region.basePtr = mc.heapPtr := rfl
  have hcluster : v.bytesPerCluster % 4 = 0 := by
    rw [Volume.bytesPerCluster, hsector]
    omega
  have hround := roundCount_ofNat hcluster (by omega)
  obtain ⟨hgeom, ha20, hmap⟩ : mc.geometry ≠ none ∧ mc.enableA20 ≠ false ∧ mc.mmap ≠ none := by
    simpa [Machine.StopsEarly, not_or] using hgo
  have hstart : InUse hp.region mc.start.heap [] := inUse_start hp.region mc.memory
  have hfuel : hp.region.maxSize < heapMaxSize + 1 := Nat.lt_succ_self _
  -- one block after the other
  obtain ⟨p₁, h₁, hpart⟩ := hstart.malloc_ends hfuel 20
  obtain ⟨rfl, us₁, hu₁, hs₁⟩ := hstart.malloc_push (stacked_nil hp.region) hpos
    (c := 20) rfl (by omega) hpart
  obtain ⟨p₂, h₂, hfs⟩ := hu₁.malloc_ends hfuel 24
  obtain ⟨rfl, us₂, hu₂, hs₂⟩ := hu₁.malloc_push hs₁ hpos (c := 24) rfl (by omega) hfs
  obtain ⟨p₃, h₃, hfat⟩ := hu₂.malloc_ends hfuel (UInt32.ofNat v.sectorSize)
  obtain ⟨rfl, us₃, hu₃, hs₃⟩ := hu₂.malloc_push hs₂ hpos (c := 512)
    (by rw [hsector]; rfl) (by omega) hfat
  obtain ⟨p₄, h₄, hdata⟩ := hu₃.malloc_ends hfuel (UInt32.ofNat v.bytesPerCluster)
  obtain ⟨rfl, us₄, hu₄, hs₄⟩ := hu₃.malloc_push hs₃ hpos hround (by omega) hdata
  rw [hbase, show mc.heapPtr + 8 + 20 + 8 + 24 + 8 + 512 + 8 + v.bytesPerCluster =
    mc.heapPtr + 588 + v.bytesPerCluster by omega] at hs₄
  refine ⟨h₄, us₄, fun fuel hle => ?_, hu₄, hs₄⟩
  replace hpart := malloc_mono hle hpart
  replace hfs := malloc_mono hle hfs
  replace hfat := malloc_mono hle hfat
  replace hdata := malloc_mono hle hdata
  rw [main]
  simp only [Option.bind_eq_bind, hpart, Option.bind_some]
  rw [if_neg (by simp [hgeom]), if_neg (by simpa using ha20), if_neg (by simp [hmap]), hfs]
  simp only [Option.bind_some]
  rw [if_neg (by omega), hfat]
  simp only [Option.bind_some, hdata]
  rw [if_neg (by simp)]
  rfl

/-- What a boot needs besides the tree: the heap in its place with room for the
    clusters and the configuration file, and a script with supported kernels. -/
structure BootReady (w : World) (v : Volume) (mc : Machine) (t : FileTree) : Prop where
  placed : mc.Placed
  clusters : v.bytesPerCluster ≤ 4096
  header : ∀ loads, (w.uninit .header loads).length ≤ MultiBootHeader.sizeof
  map : ∀ map, mc.mmap = some map → map.length ≤ 32
  config : ConfigSupported t
  room : ∀ file, t.findByPath bootConfigName = .ok (.file file) →
    file.length ≤ bootConfigMaxSize → v.bytesPerCluster + file.length ≤ 6560

/-- **stage2 follows the script.** Every run on a device through which the tree
    can be seen ends, and it ends as the ideal loader does on the tree. -/
theorem main_follows (hsees : SeesTree w v image loc t) (hsector : v.sectorSize = 512)
    (hready : BootReady w v mc t) (memory : Store) :
    ∃ fuel₀, ∀ fuel ≥ fuel₀, ∃ out st calls, main w v mc fuel = some (out, st, calls) ∧
      Ended memory out st (Loader.main t mc memory) := by
  have hp := hready.placed
  have hstop := hp.stop
  have hstart : InUse hp.region mc.start.heap [] := inUse_start hp.region mc.memory
  have hmax : hp.region.maxSize = heapMaxSize := rfl
  by_cases hearly : mc.StopsEarly
  · refine ⟨heapMaxSize + 1, fun fuel hfuel => ?_⟩
    obtain ⟨p, heap, hpart⟩ := hstart.malloc_ends (show hp.region.maxSize < fuel by omega) 20
    have hbase : hp.region.basePtr = mc.heapPtr := rfl
    obtain ⟨rfl, -, -⟩ := hstart.malloc_push (stacked_nil hp.region) hp.pos (c := 20) rfl
      (by omega) hpart
    -- the checks in front of the driver, in order
    by_cases hgeom : mc.geometry = none
    · rw [Loader.main, if_pos (by simp [hgeom]), main]
      simp only [Option.bind_eq_bind, hpart, Option.bind_some]
      rw [if_pos (by simp [hgeom])]
      exact ⟨_, _, _, rfl, rfl, rfl, rfl, Outcome.noConfusion⟩
    by_cases ha20 : mc.enableA20 = false
    · rw [Loader.main, if_neg (by simpa using hgeom), if_pos (by simp [ha20]), main]
      simp only [Option.bind_eq_bind, hpart, Option.bind_some]
      rw [if_neg (by simp [hgeom]), if_pos (by simp [ha20])]
      exact ⟨_, _, _, rfl, rfl, rfl, rfl, Outcome.noConfusion⟩
    · have hmmap : mc.mmap = none := by
        rcases hearly with h | h | h
        · exact absurd h hgeom
        · exact absurd h ha20
        · exact h
      rw [Loader.main, if_neg (by simpa using hgeom), if_neg (by simpa using ha20),
        if_pos (by simp [hmmap]), main]
      simp only [Option.bind_eq_bind, hpart, Option.bind_some]
      rw [if_neg (by simp [hgeom]), if_neg (by simpa using ha20), if_pos (by simp [hmmap])]
      exact ⟨_, _, _, rfl, rfl, rfl, rfl, Outcome.noConfusion⟩
  have hcount : (mc.mmap.getD []).length ≤ 32 := by
    cases hmc : mc.mmap with
    | none => simp
    | some map => exact hready.map map hmc
  have hclusters := hready.clusters
  obtain ⟨heap, us, hmain, hheap, hs⟩ := main_allocates hp hsector hclusters hearly
  obtain ⟨fuel₀, hboot⟩ := bootFromConfig_follows hsees hs hp.pos (by omega) hready.header hcount
    hready.config fun file hfound hle => by
      have hfits := hready.room file hfound hle
      omega
  refine ⟨max fuel₀ (heapMaxSize + 1), fun fuel hfuel => ?_⟩
  obtain ⟨out, st, calls, hrun, hended⟩ := hboot fuel (by omega)
    { mc.start with heap := heap, fs := freshFs w } ⟨[], memory, none⟩
    ⟨Coherent.new _ _ _, hheap, rfl, rfl, rfl⟩ rfl
  refine ⟨out, st, calls, (hmain fuel (by omega)).trans hrun, ?_⟩
  obtain ⟨hgeom, ha20, hmap⟩ : mc.geometry ≠ none ∧ mc.enableA20 ≠ false ∧ mc.mmap ≠ none := by
    simpa [Machine.StopsEarly, not_or] using hearly
  rw [Loader.main, if_neg (by simpa using hgeom), if_neg (by simpa using ha20),
    if_neg (by simpa using hmap)]
  exact hended

/-! ## Section 6: From the tool to the kernel -/

open FatEdit (Host Ideal ImageShows diskView sessions)

variable {image' : ByteVec} {inputs : List (List (Bytes × Host))} {outs : List (Bytes × Bytes)}

/-- stage2 follows the script in the tree that the ideal tool ends with. -/
theorem sessions_follows (h512 : (imageSuper image).bytesPerSector = 512)
    (hp : (diskView (imageSuper image) image).Plain) (himage : ImageShows image loc t)
    (h : sessions image inputs = some (outs, image')) {t' : FileTree}
    (hideal : Ideal.sessions t inputs = some (outs, t'))
    (hd : w.Delivers v (imageVolume image')) (hready : BootReady w v mc t') (memory : Store) :
    ∃ fuel₀, ∀ fuel ≥ fuel₀, ∃ out st calls, main w v mc fuel = some (out, st, calls) ∧
      Ended memory out st (Loader.main t' mc memory) := by
  obtain ⟨t₁, loc', hideal₁, himage'⟩ := FatEdit.sessions_shows himage h
  cases hideal.symm.trans hideal₁
  obtain ⟨hsuper, hp'⟩ := sessions_plain himage.layout himage.wellFormed hp h
  rw [← hsuper] at h512
  have hsees := readsTree_of_shows h512 hp' himage' w v hd
  exact main_follows hsees hd.sectorSize hready memory

/-- A session that packs a script, and the kernel that it names. -/
def bootSession : List (Bytes × Host) :=
  [(FatEdit.lit "pack script BOOT.CFG", fun _ => some (str "multiboot KERNEL\n", false)),
    (FatEdit.lit "pack kernel KERNEL", fun _ => some (shiftedHeader.raw, false))]

set_option maxRecDepth 3000

/-- The tree that the session leaves. -/
theorem bootSession_tree {outs : List (Bytes × Bytes)} {t : FileTree}
    (h : Ideal.sessions FatEdit.emptyTree [bootSession] = some (outs, t)) :
    t.findByPath bootConfigName = .ok (.file (str "multiboot KERNEL\n")) ∧
    t.findByPath (str "KERNEL") = .ok (.file shiftedHeader.raw) ∧
    (Loader.main t sampleMachine fun _ => 0).entry = some 0x100000 := by
  have htree : ((Ideal.sessions FatEdit.emptyTree [bootSession]).all fun r =>
      decide (r.2.findByPath bootConfigName = .ok (.file (str "multiboot KERNEL\n")) ∧
        r.2.findByPath (str "KERNEL") = .ok (.file shiftedHeader.raw) ∧
        (Loader.main r.2 sampleMachine fun _ => 0).entry = some 0x100000)) = true := by
    decide +kernel
  rwa [h, Option.all_some, decide_eq_true_eq] at htree

/-- What the session leaves can be booted. -/
theorem bootSession_ready {outs : List (Bytes × Bytes)} {t : FileTree}
    (h : Ideal.sessions FatEdit.emptyTree [bootSession] = some (outs, t)) {v : Volume}
    (hclusters : v.bytesPerCluster = 512) : BootReady reliable v sampleMachine t := by
  obtain ⟨hscript, hkernel, -⟩ := bootSession_tree h
  have hsupported : Supported t (str "KERNEL") := by
    refine ⟨by decide, by simp [hkernel], by simp [hkernel], ?_, ?_⟩ <;> intro d hd <;>
      obtain rfl : shiftedHeader.raw = d := by simpa [hkernel] using hd
    · decide
    · exact .inl ⟨0, by decide⟩
  have hlines : Loader.scriptLines (str "multiboot KERNEL\n") = [str "multiboot KERNEL", []] := by
    decide
  have hheader : (List.replicate 32 (0 : UInt8)).length ≤ MultiBootHeader.sizeof := by decide
  refine ⟨sampleMachine_placed, by omega, fun _ => hheader, ?_, ⟨?_, ?_, ?_⟩, ?_⟩
  · intro map hmap
    cases hmap
    decide
  · simp [hscript]
  · simp [hscript]
  · intro d hd line hline cmd path hparse _
    obtain rfl : str "multiboot KERNEL\n" = d := by simpa [hscript] using hd
    rw [hlines] at hline
    rcases List.mem_pair.mp hline with rfl | rfl
    · have hword : parseLine (str "multiboot KERNEL") = some (str "multiboot", str "KERNEL") := by
        decide
      cases hword.symm.trans hparse
      exact hsupported
    · cases hparse
  · intro d hd _
    obtain rfl : str "multiboot KERNEL\n" = d := by simpa [hscript] using hd
    have hlen : (str "multiboot KERNEL\n").length = 17 := by decide
    omega

theorem bootSession_entry {outs : List (Bytes × Bytes)} {t : FileTree}
    (h : Ideal.sessions FatEdit.emptyTree [bootSession] = some (outs, t)) :
    (Loader.main t sampleMachine fun _ => 0).entry = some 0x100000 :=
  (bootSession_tree h).2.2

/-- The session runs through on a fresh image. -/
theorem bootSession_runs : ∃ outs image',
    sessions FatEdit.freshImage [bootSession] = some (outs, image') ∧
      (imageVolume image').bytesPerCluster = 512 := by
  have hend : ((sessions FatEdit.freshImage [bootSession]).any fun r =>
      decide ((imageVolume r.2).bytesPerCluster = 512)) = true := by decide +kernel
  obtain ⟨⟨outs, image'⟩, hrun, hclusters⟩ := (Option.any_eq_true _ _).mp hend
  exact ⟨outs, image', hrun, decide_eq_true_eq.mp hclusters⟩

end Hausboot

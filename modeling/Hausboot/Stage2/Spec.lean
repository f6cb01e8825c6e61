import Hausboot.FatFs.Spec
import Hausboot.Lib.Runs
import Hausboot.Stage2.Script
import Hausboot.Stage2.Trusted

/-! # The stage2 Boot Loader: What a Boot Script Means

    stage2 without a disk, a heap or buffers: it follows the lines of a script
    on a tree of files. What is left of its state is the screen, the memory that
    protected mode calls write to, and the entry point of the kernel that has
    been loaded. `Hausboot.Agree.Loader` compares the code with it. -/

open ByteLib DirTree

namespace Hausboot

open FatEdit (FileTree)

/-! ## Section 1: Headers -/

instance (f : Bytes) (p : ℕ) : Decidable (Reportable f p) :=
  decidable_of_iff (p % 4 = 0 ∧ p < multiBootMaxSearch ∧
      p + MultiBootHeader.sizeof ≤ f.length ∧ (headerAt f p).isValid = true)
    ⟨fun ⟨hmod, hlt, hcomplete, hvalid⟩ => ⟨hmod, hlt, hcomplete, hvalid⟩,
      fun h => ⟨h.mod, h.lt, h.complete, h.valid⟩⟩

/-- The first header of a file, and where it is. -/
def firstHeader (f : Bytes) : Option (ℕ × MultiBootHeader) :=
  ((List.range multiBootMaxSearch).find? (Reportable f ·)).map fun p => (p, headerAt f p)

theorem firstHeader_eq_some {f : Bytes} {q : ℕ} (hq : IsLeast {p | Reportable f p} q) :
    firstHeader f = some (q, headerAt f q) := by
  have hfind : (List.range multiBootMaxSearch).find? (Reportable f ·) = some q := by
    refine List.find?_eq_some_iff_getElem.mpr ⟨by simpa using hq.1, q, ?_, ?_, ?_⟩
    · rw [List.length_range]
      exact hq.1.lt
    · exact List.getElem_range _
    · intro j hj
      rw [List.getElem_range]
      simp only [Bool.not_eq_eq_eq_not, Bool.not_true, decide_eq_false_iff_not]
      intro hrep
      exact absurd (hq.2 hrep) (Nat.not_le.mpr hj)
  rw [firstHeader, hfind]
  rfl

theorem firstHeader_eq_none {f : Bytes} (hnone : ¬ ∃ p, Reportable f p) :
    firstHeader f = none := by
  have hfind : (List.range multiBootMaxSearch).find? (Reportable f ·) = none := by
    refine List.find?_eq_none.mpr fun p _ hp => hnone ⟨p, ?_⟩
    simpa using hp
  rw [firstHeader, hfind]
  rfl

theorem firstHeader_lt {f : Bytes} {q : ℕ} {hdr : MultiBootHeader}
    (h : firstHeader f = some (q, hdr)) : q < f.length := by
  obtain ⟨p, hfind, heq⟩ := Option.map_eq_some_iff.mp h
  have hrep : Reportable f p := by simpa using List.find?_some hfind
  have hend := hrep.complete
  have hpos : 0 < MultiBootHeader.sizeof := by decide
  cases heq
  omega

/-! ## Section 2: The loader -/

/-- The text for a path under which nothing is found. -/
def Miss.toText : Miss → String
  | .nameInvalid => "name invalid"
  | .noEntry => "no such file or directory"
  | .notDir => "component is not a directory"
  | .unreadable => "I/O error"

/-- What can be read at a place of the tree. -/
def contents : Node Bytes → Bytes
  | .file d => d
  | .dir _ => []

structure Loader where
  screen : List ScreenOp
  memory : Store
  entry : Option ℕ

namespace Loader

def print (s : Loader) (ops : List ScreenOp) : Loader := { s with screen := s.screen ++ ops }

/-- A file is loaded as its header asks, and will be started at its entry point. -/
def load (s : Loader) (file : Bytes) (offset : ℕ) (hdr : MultiBootHeader) : Bool × Loader :=
  match hdr.extractMemLayout offset file.length with
  | none => (false, s.print [.text "Error: ", .text "Memory layout is broken!", .text "\r\n"])
  | some (fileStart, memStart, count) =>
    (true, { s.print (loadingMessage memStart count) with
      memory := loadedMemory s.memory memStart (loadedPart file fileStart count) hdr.bssSize
      entry := some hdr.entryPoint })

section Tree

variable (t : FileTree) (mc : Machine)

/-! ### Commands -/

def multiboot (s : Loader) (path : Bytes) : Bool × Loader :=
  match t.findByPath path with
  | .error e => (false, s.print [.chars path, .text ": ", .text e.toText, .text "\r\n"])
  | .ok x =>
    match firstHeader (contents x) with
    | none => (false, s.print
        [.text "Error: ", .text "No multiboot header found!", .text "\r\n"])
    | some (offset, hdr) =>
      if FlagField.isSet hdr.flags MultiBootHeader.wantVidmode then
        (false, s.print
          [.text "Error: ", .text "video mode info required (unsupported)!", .text "\r\n"])
      else if !FlagField.isSet hdr.flags MultiBootHeader.haveLayoutInfo then
        (false, s.print
          [.text "Error: ", .text "No memory layout provided (unsupported)!", .text "\r\n"])
      else s.load (contents x) offset hdr

def info (s : Loader) (what : Bytes) : Bool × Loader :=
  if what = str "disk" then (true, s.print (infoDisk mc (mc.geometry.getD ⟨0, 0, 0⟩)))
  else if what = str "memory" then (true, s.print (infoMemory (mc.mmap.getD [])))
  else (false, s.print [.text "Unknown info type: ", .chars what, .text "\r\n"])

def call (s : Loader) : Command → Bytes → Bool × Loader
  | .echo, arg => (true, s.print [.chars arg, .text "\r\n"])
  | .info, arg => s.info mc arg
  | .multiboot, arg => s.multiboot t arg

/-! ### The script -/

/-- Line by line, up to the first command that fails or is not known. -/
def run : Loader → List Bytes → Loader
  | s, [] => s
  | s, line :: lines =>
    match parseLine line with
    | none => run s lines
    | some (cmd, arg) =>
      match commands.lookup cmd with
      | none => s.print [.text "Error, unknown command: ", .chars cmd, .text "\r\n"]
      | some command =>
        match s.call t mc command arg with
        | (false, s') => s'
        | (true, s') => run s' lines

/-- The lines of a script, which ends at the first terminator. -/
def scriptLines (file : Bytes) : List Bytes := (cstr file).splitOn 0x0A

theorem zero_notMem_scriptLines {file line : Bytes} (h : line ∈ scriptLines file) : 0 ∉ line := by
  rw [scriptLines, List.splitOn_eq_splitOnP] at h
  exact fun hz => zero_notMem_cstr file (Runs.mem_of_mem_splitOnP h hz)

/-- The argument of a command is the rest of its line. -/
theorem arg_suffix {line cmd arg : Bytes} (h : parseLine line = some (cmd, arg)) : arg <:+ line := by
  unfold parseLine parseWord at h
  dsimp only at h
  split at h
  · cases h
  split at h
  · cases h
  next c rest hrest =>
  split at h
  · cases h
    have hword : rest <:+ (line.dropWhile isSpace).dropWhile isAlnum := hrest ▸ List.suffix_cons _ _
    exact (List.dropWhile_suffix _).trans
      (hword.trans ((List.dropWhile_suffix _).trans (List.dropWhile_suffix _)))
  · cases h

/-- From the configuration file on. -/
def boot (s : Loader) : Loader :=
  match t.findByPath bootConfigName with
  | .error e => s.print [.chars bootConfigName, .text ": ", .text e.toText, .text "\r\n"]
  | .ok x =>
    if (contents x).length > bootConfigMaxSize then
      s.print [.chars bootConfigName, .text ": too big (max size: ", .decimal bootConfigMaxSize,
        .text ")", .text "\r\n"]
    else
      let s := s.run t mc (scriptLines (contents x))
      if s.entry.isSome then s else s.print [.text "No kernel loaded!", .text "\r\n"]

/-- A whole run, with `memory` in front of it. It ends with a kernel that is
    started exactly if there is an entry point. -/
def main (memory : Store) : Loader :=
  let s : Loader := ⟨[], memory, none⟩
  if mc.geometry.isNone then
    s.print [.text "Error initializing FAT partition wrapper!", .text "\r\n"]
  else if !mc.enableA20 then s.print [.text "Error enabling A20 line!", .text "\r\n"]
  else if mc.mmap.isNone then s.print [.text "Error loading BIOS memory map!", .text "\r\n"]
  else s.boot t mc

/-! ## Section 3: What is started -/

/-- The last thing that was written to memory is the kernel with this entry
    point, a file of the tree that a `multiboot` line names. -/
def HoldsKernel (lines : List Bytes) (memory : Store) (entry : ℕ) : Prop :=
  ∃ line ∈ lines, ∃ cmd path file off hdr fileStart memStart count before,
    parseLine line = some (cmd, path) ∧ commands.lookup cmd = some .multiboot ∧
    t.findByPath path = .ok (.file file) ∧ firstHeader file = some (off, hdr) ∧
    hdr.extractMemLayout off file.length = some (fileStart, memStart, count) ∧
    entry = hdr.entryPoint ∧
    memory = loadedMemory before memStart (loadedPart file fileStart count) hdr.bssSize

def Loaded (lines : List Bytes) (s : Loader) : Prop :=
  ∀ entry, s.entry = some entry → HoldsKernel t lines s.memory entry

variable {t} {all lines : List Bytes} {s : Loader}

/-- What only prints keeps the kernel. -/
theorem Loaded.keep {s' : Loader} (h : Loaded t lines s) (hmem : s'.memory = s.memory)
    (hentry : s'.entry = s.entry) : Loaded t lines s' := by
  intro entry hsome
  rw [hmem]
  exact h entry (hentry ▸ hsome)

theorem Loaded.print (h : Loaded t lines s) (ops : List ScreenOp) : Loaded t lines (s.print ops) :=
  h.keep rfl rfl

/-- The command either prints, or loads the file under the path. -/
theorem multiboot_loaded {line cmd path : Bytes} (hline : line ∈ lines)
    (hparse : parseLine line = some (cmd, path)) (hlookup : commands.lookup cmd = some .multiboot)
    (h : Loaded t lines s) : Loaded t lines (s.multiboot t path).2 := by
  unfold multiboot
  split
  · exact h.print _
  next x hfound =>
  split
  · exact h.print _
  next off hdr hhdr =>
  split
  · exact h.print _
  split
  · exact h.print _
  unfold load
  split
  · exact h.print _
  next fileStart memStart count hlay =>
  intro entry hentry
  obtain rfl := Option.some.inj hentry
  cases x with
  | dir i =>
    -- there is no header in a directory
    have hlt := firstHeader_lt hhdr
    rw [contents, List.length_nil] at hlt
    omega
  | file file =>
    exact ⟨line, hline, cmd, path, file, off, hdr, fileStart, memStart, count, s.memory, hparse,
      hlookup, hfound, hhdr, hlay, rfl, rfl⟩

theorem info_loaded (h : Loaded t lines s) (what : Bytes) : Loaded t lines (s.info mc what).2 := by
  unfold info
  split
  · exact h.print _
  split
  · exact h.print _
  · exact h.print _

theorem call_loaded {line cmd arg : Bytes} {command : Command} (hline : line ∈ lines)
    (hparse : parseLine line = some (cmd, arg)) (hlookup : commands.lookup cmd = some command)
    (h : Loaded t lines s) : Loaded t lines (s.call t mc command arg).2 := by
  cases command with
  | echo => exact h.keep rfl rfl
  | info => exact info_loaded mc h arg
  | multiboot =>
    have hload := multiboot_loaded hline hparse hlookup h
    exact hload

/-- Every script keeps it. -/
theorem run_loaded (hsub : lines ⊆ all) (h : Loaded t all s) : Loaded t all (s.run t mc lines) := by
  induction lines generalizing s with
  | nil => exact h
  | cons line lines ih =>
    obtain ⟨hline, hlines⟩ := List.cons_subset.mp hsub
    unfold run
    split
    · exact ih hlines h
    next cmd arg hparse =>
    split
    · exact h.print _
    next command hlookup =>
    have hcall := call_loaded mc hline hparse hlookup h
    split
    · next s' heq =>
      rw [heq] at hcall
      exact hcall
    · next s' heq =>
      rw [heq] at hcall
      exact ih hlines hcall

/-- A whole run starts a kernel that the configuration file names. -/
theorem main_loaded (memory : Store) {entry : ℕ} (h : (main t mc memory).entry = some entry) :
    ∃ file, t.findByPath bootConfigName = .ok (.file file) ∧
      HoldsKernel t (scriptLines file) (main t mc memory).memory entry := by
  have hstart : ∀ lines, Loaded t lines ⟨[], memory, none⟩ := by
    intro lines entry hno
    cases hno
  unfold main at h ⊢
  dsimp only at h ⊢
  split at h
  · cases h
  next hgeom =>
  rw [if_neg hgeom]
  split at h
  · cases h
  next ha20 =>
  rw [if_neg ha20]
  split at h
  · cases h
  next hmap =>
  rw [if_neg hmap]
  unfold boot at h ⊢
  split at h
  · cases h
  next x hfound =>
  split at h
  · cases h
  next hfits =>
  rw [hfound]
  dsimp only at h ⊢
  rw [if_neg hfits]
  have hrun := run_loaded mc (List.Subset.refl _) (hstart (scriptLines (contents x)))
  generalize hs : run t mc ⟨[], memory, none⟩ (scriptLines (contents x)) = s at h hrun ⊢
  cases x with
  | dir i =>
    -- without lines nothing is loaded
    have hnone : s = ⟨[], memory, none⟩ := by
      rw [← hs]
      rfl
    subst hnone
    cases h
  | file file =>
    refine ⟨file, rfl, ?_⟩
    split
    · next hsome =>
      rw [if_pos hsome] at h
      exact hrun entry h
    · next hno =>
      rw [if_neg hno] at h
      exact hrun.print _ entry h

end Tree

end Loader

end Hausboot

import Hausboot.Lib.X86

/-! # ProtectedModeCall

    The routine of `lib/pm86/pmcall.S`, instruction by instruction, in the same
    order. It is entered in 16-bit code with a return address and the address of
    a 32-bit function on the stack, keeps what it needs for the way back in
    `_scratch`, and switches to protected mode and back.

    The operands of `or 0x01, %al` and `and ~0x01, %al` have no `$`. They are
    addresses, and `~0x01` is cut to the 16 bits of an address.

    Code and descriptor table are taken as assembled; a 32-bit function that
    writes over the routine itself is left out. -/

open X86

namespace Hausboot.Pm86

/-! ## Section 1: The routine -/

/-- Where the linker puts things. Addresses of data have 16 bits, and the
    interrupt table is at the bottom of memory. -/
structure Link where
  scratch : Nat
  gdtDesc : Nat
  afterCall : BitVec 32
  low : 2 ≤ scratch
  fits : scratch + 16 ≤ 2 ^ 16

def gdt : List (BitVec 64) :=
  [0x0000000000000000#64, 0x00CF9A000000FFFF#64, 0x00CF92000000FFFF#64, 0x008F9A000000FFFF#64,
    0x008F92000000FFFF#64]

/-- Save away the 16 bit context. -/
def saveContext (l : Link) : List Instr :=
  [.pop .eax,
   .mov 32 (.reg .eax) (.mem l.scratch),
   .mov 32 (.reg .ebp) (.mem (l.scratch + 4)),
   .mov 16 (.seg .ss) (.reg .eax),
   .mov 16 (.reg .eax) (.mem (l.scratch + 8)),
   .mov 16 (.reg .esp) (.mem (l.scratch + 10)),
   .mov 16 (.seg .ds) (.mem (l.scratch + 12)),
   .mov 16 (.seg .es) (.mem (l.scratch + 14))]

/-- Calculate the absolute, 32 bit stack pointer. -/
def flattenStack : List Instr :=
  [.movzx .esp .ebp,
   .alu .shl 32 (.imm 4) (.reg .eax),
   .alu .add 32 (.reg .eax) (.reg .ebp),
   .mov 32 (.reg .ebp) (.reg .esp)]

/-- Enter protected mode. -/
def enterMode (l : Link) : List Instr :=
  [.cli,
   .cld,
   .alu .xor 32 (.reg .eax) (.reg .eax),
   .mov 16 (.reg .eax) (.seg .ds),
   .mov 32 (.imm l.gdtDesc) (.reg .eax),
   .lgdt gdt,
   .mov 32 .cr0 (.reg .eax),
   .alu .or 8 (.mem 0x01) (.reg .eax),
   .mov 32 (.reg .eax) .cr0,
   .ljmp 0x08 true]

/-- Call into the desired 32 bit function. -/
def callFunction (l : Link) : List Instr :=
  [.mov 32 (.imm 0x10) (.reg .eax),
   .mov 32 (.reg .eax) (.seg .ss),
   .mov 32 (.reg .eax) (.seg .ds),
   .pop .eax,
   .call .eax l.afterCall]

/-- Jump into a 16 bit segment. -/
def jump16 : List Instr :=
  [.cli,
   .cld,
   .ljmp 0x18 false,
   .mov 16 (.imm 0x20) (.reg .eax),
   .mov 16 (.reg .eax) (.seg .es),
   .mov 16 (.reg .eax) (.seg .ds),
   .mov 16 (.reg .eax) (.seg .ss)]

/-- Leave protected mode. -/
def leaveMode : List Instr :=
  [.mov 32 .cr0 (.reg .eax),
   .alu .and 8 (.mem (~~~0x01#16).toNat) (.reg .eax),
   .mov 32 (.reg .eax) .cr0,
   .ljmp 0 false]

/-- Restore the old 16 bit environment, repair the stack and return. -/
def restoreContext (l : Link) : List Instr :=
  [.mov 32 (.mem (l.scratch + 4)) (.reg .ebp),
   .mov 16 (.mem (l.scratch + 8)) (.seg .ss),
   .mov 16 (.mem (l.scratch + 10)) (.reg .eax),
   .movzx .eax .esp,
   .mov 16 (.mem (l.scratch + 12)) (.seg .ds),
   .mov 16 (.mem (l.scratch + 14)) (.seg .es),
   .mov 32 (.mem l.scratch) (.reg .eax),
   .push .eax,
   .ret]

/-- Up to the first instruction of the function. -/
def enterCode (l : Link) : List Instr :=
  saveContext l ++ (flattenStack ++ (enterMode l ++ callFunction l))

/-- What runs when the function returns. -/
def leaveCode (l : Link) : List Instr :=
  jump16 ++ (leaveMode ++ restoreContext l)

/-! ## Section 2: What a call is -/

/-- The return address, on top of the stack. -/
def returnAddress (s : State) : BitVec 32 := BitVec.ofNat 32 (s.mem.readLE s.stackTop 4)

/-- The first argument. -/
def functionPointer (s : State) : BitVec 32 := BitVec.ofNat 32 (s.mem.readLE (s.stackTop + 4) 4)

/-- A call of the routine as a 16-bit caller makes it: in real mode, from the
    segment that the code is linked for, with a stack frame that does not wrap
    around and is apart from `_scratch`. -/
structure Called (l : Link) (s : State) : Prop where
  real : s.protectedMode = false
  cs : s.cs = Seg.real 0
  ss : s.ss = Seg.real s.ss.selector
  ds : s.ds = Seg.real s.ds.selector
  es : s.es = Seg.real s.es.selector
  frame : (s.esp.setWidth 16).toNat + 8 ≤ 2 ^ 16
  near : (returnAddress s).toNat < 2 ^ 16
  apart : s.stackTop + 8 ≤ s.ds.base + l.scratch ∨ s.ds.base + l.scratch + 16 ≤ s.stackTop

/-- Memory once the context is saved. -/
def savedMem (l : Link) (s : State) : Store :=
  let a := s.ds.base + l.scratch
  let m := s.mem.writeLE a 4 (returnAddress s).toNat
  let m := m.writeLE (a + 4) 4 s.ebp.toNat
  let m := m.writeLE (a + 8) 2 s.ss.selector.toNat
  let m := m.writeLE (a + 10) 2 ((s.esp + 4).setWidth 16).toNat
  let m := m.writeLE (a + 12) 2 s.ds.selector.toNat
  m.writeLE (a + 14) 2 s.es.selector.toNat

def savedState (l : Link) (s : State) : State :=
  { s with
    eax := s.ss.selector.setWidth 32
    esp := setLow s.esp ((s.esp + 4).setWidth 16)
    mem := savedMem l s }

/-- With the linear address of the function's address. -/
def flatState (l : Link) (s : State) : State :=
  { savedState l s with
    eax := BitVec.ofNat 32 s.ss.base
    ebp := BitVec.ofNat 32 (s.stackTop + 4)
    esp := BitVec.ofNat 32 (s.stackTop + 4) }

/-- CR0 after the byte at address 1 went into its low byte. -/
def enteredCr0 (s : State) : BitVec 32 :=
  setLow s.cr0 (s.cr0.setWidth 8 ||| BitVec.ofNat 8 (s.mem.readLE 1 1))

def protectedState (t : State) : State :=
  { t with
    eax := enteredCr0 t
    cs := ⟨0x08, 0, true⟩
    ds := ⟨0, 0, t.ds.big⟩
    cr0 := enteredCr0 t
    gdt := gdt }

/-! ## Section 3: The way in -/

theorem run_saveContext {l : Link} {s : State} (h : Called l s) :
    run (saveContext l) s = some (savedState l s) := by
  have hbig : s.ss.big = false := by rw [h.ss]; rfl
  have hnear : (BitVec.ofNat 32 (s.mem.readLE s.stackTop 4)).toNat < 2 ^ 16 := h.near
  have hss : s.ss.selector.toNat % 65536 = s.ss.selector.toNat :=
    Nat.mod_eq_of_lt s.ss.selector.isLt
  have hsp : (setLow s.esp ((s.esp + 4#32).setWidth 16)).toNat % 65536
      = (s.esp.toNat + 4) % 65536 := by
    have hlow := congrArg BitVec.toNat (setWidth_setLow s.esp ((s.esp + 4#32).setWidth 16) (by decide))
    simpa using hlow
  simp only [saveContext, run, exec, State.pop, State.moveStack, hbig, State.setReg, State.read,
    State.write, State.reg, State.seg]
  simp [savedState, savedMem, returnAddress, Nat.add_assoc, setLow_of_lt _ hnear, hss, hsp]

theorem run_flattenStack {l : Link} {s : State} (h : Called l s) :
    run flattenStack (savedState l s) = some (flatState l s) := by
  have hbase : s.ss.base = 16 * s.ss.selector.toNat := by rw [h.ss]; rfl
  have hbig : s.ss.big = false := by rw [h.ss]; rfl
  -- EAX holds the selector alone, since the return address fits in 16 bits
  have heax : s.ss.selector.setWidth 32 <<< 4 = BitVec.ofNat 32 s.ss.base := by
    rw [hbase]
    bv_omega
  have hesp : ((s.esp + 4#32).setWidth 16).setWidth 32 + BitVec.ofNat 32 s.ss.base
      = BitVec.ofNat 32 (s.stackTop + 4) := by
    -- the frame does not wrap, so the linear addresses do not either
    have hframe := h.frame
    rw [State.stackTop, State.stackOffset, hbig]
    simp only [Bool.false_eq_true, if_false]
    bv_omega
  have hlow := setWidth_setLow s.esp ((s.esp + 4#32).setWidth 16) (by decide)
  simp only [flattenStack, run, exec, State.setReg, State.read, State.write, State.reg, Alu.apply]
  simp [savedState, flatState, hlow, heax, hesp]

/-- A far jump in real mode from 16-bit code never reaches 32-bit code. -/
theorem farJump_lost {t : State} (hreal : t.protectedMode = false) :
    t.farJump 0x08 true = none := by
  simp [State.farJump, hreal]

section Table

variable {t : State} (hprot : t.protectedMode = true) (hgdt : t.gdt = gdt)
include hprot hgdt

theorem farJump_code32 : t.farJump 0x08#16 true = some { t with cs := ⟨0x08, 0, true⟩ } :=
  State.farJump_protected (q := 0x00CF9A000000FFFF#64) hprot
    (by rw [State.descriptor, hgdt]; rfl) (by decide) (by decide)

theorem farJump_code16 : t.farJump 0x18#16 false = some { t with cs := ⟨0x18, 0, false⟩ } :=
  State.farJump_protected (q := 0x008F9A000000FFFF#64) hprot
    (by rw [State.descriptor, hgdt]; rfl) (by decide) (by decide)

theorem loadSeg_data32 (old : Seg) : t.loadSeg old 0x10#16 = some ⟨0x10, 0, true⟩ :=
  State.loadSeg_protected (q := 0x00CF92000000FFFF#64) hprot old
    (by rw [State.descriptor, hgdt]; rfl) (by decide)

theorem loadSeg_data16 (old : Seg) : t.loadSeg old 0x20#16 = some ⟨0x20, 0, false⟩ :=
  State.loadSeg_protected (q := 0x008F92000000FFFF#64) hprot old
    (by rw [State.descriptor, hgdt]; rfl) (by decide)

end Table

/-- The mode is entered if the byte has set the bit. -/
theorem run_enterMode (l : Link) {t : State} (hreal : t.protectedMode = false) :
    run (enterMode l) t = if (enteredCr0 t).getLsbD 0 then some (protectedState t) else none := by
  -- DS is loaded while the mode is still real
  have hload : ∀ u : State, u.cr0 = t.cr0 → u.loadSeg t.ds 0#16 = some ⟨0, 0, t.ds.big⟩ := by
    intro u hu
    exact State.loadSeg_real (by rw [State.protectedMode, hu]; exact hreal) t.ds 0
  have hjump : run (enterMode l) t = State.farJump { t with
      eax := enteredCr0 t
      ds := ⟨0, 0, t.ds.big⟩
      cr0 := enteredCr0 t
      gdt := gdt } 0x08 true := by
    simp only [enterMode, run, exec, State.setReg, State.read, State.write, State.reg, Alu.apply,
      State.seg]
    simp [hload, State.setSeg, enteredCr0]
  rw [hjump]
  split
  case isTrue hbit => exact farJump_code32 hbit rfl
  case isFalse hbit => exact farJump_lost (Bool.eq_false_of_not_eq_true hbit)

theorem run_callFunction (l : Link) {t : State} (hprot : t.protectedMode = true)
    (hgdt : t.gdt = gdt) :
    run (callFunction l) t = some { t with
      eax := BitVec.ofNat 32 (t.mem.readLE t.esp.toNat 4)
      eip := BitVec.ofNat 32 (t.mem.readLE t.esp.toNat 4)
      ss := ⟨0x10, 0, true⟩
      ds := ⟨0x10, 0, true⟩
      mem := t.mem.writeLE t.esp.toNat 4 l.afterCall.toNat } := by
  have hload : ∀ u : State, u.cr0 = t.cr0 → u.gdt = gdt → ∀ old,
      u.loadSeg old 0x10#16 = some ⟨0x10, 0, true⟩ := by
    intro u hcr0 hgdt' old
    exact loadSeg_data32 (by rw [State.protectedMode, hcr0]; exact hprot) hgdt' old
  simp only [callFunction, run, exec, State.setReg, State.read, State.write, State.reg,
    State.seg]
  -- the call pushes over the address that was popped
  have hback : t.esp + 4#32 + 4294967292#32 = t.esp := by
    rw [BitVec.add_assoc]
    exact BitVec.add_zero t.esp
  simp [hload, hgdt, State.setSeg, State.pop, State.push, State.stackTop, State.stackOffset,
    State.moveStack, hback, -BitVec.toNat_add]

/-! ## Section 4: The way back -/

/-- CR0 after the byte near the end of the first 64 KiB of the data segment went
    into its low byte. -/
def leftCr0 (t : State) : BitVec 32 :=
  setLow t.cr0 (t.cr0.setWidth 8 &&& BitVec.ofNat 8 (t.mem.readLE (t.ds.base + 0xFFFE) 1))

/-- `d` is the segment of the 16-bit descriptor for data. -/
def seg16State (d : Seg) (t : State) : State :=
  { t with
    eax := setLow t.eax 0x20#16
    cs := ⟨0x18, 0, false⟩
    ss := d
    ds := d
    es := d }

def realState (t : State) : State :=
  { t with
    eax := leftCr0 t
    cs := Seg.real 0
    cr0 := leftCr0 t }

/-- What `_scratch` gives back, as it is read with the data segment of the way
    back and then with the one that was read. -/
def restored (l : Link) (t : State) : State :=
  let ds := t.ds.reload (BitVec.ofNat 16 (t.mem.readLE (t.ds.base + (l.scratch + 12)) 2))
  let u := { t with
    eax := BitVec.ofNat 32 (t.mem.readLE (ds.base + l.scratch) 4)
    ebp := BitVec.ofNat 32 (t.mem.readLE (t.ds.base + (l.scratch + 4)) 4)
    esp := (BitVec.ofNat 16 (t.mem.readLE (t.ds.base + (l.scratch + 10)) 2)).setWidth 32
    ss := t.ss.reload (BitVec.ofNat 16 (t.mem.readLE (t.ds.base + (l.scratch + 8)) 2))
    ds := ds
    es := t.es.reload (BitVec.ofNat 16 (t.mem.readLE (ds.base + (l.scratch + 14)) 2)) }
  { u with eip := u.eax, mem := (u.push u.eax).mem }

/-- Whatever descriptor table there is, the three segments become the same. -/
theorem run_jump16 {t : State} (hprot : t.protectedMode = true) :
    run jump16 t = (t.farJump 0x18#16 false).bind fun _ =>
      (t.loadSeg t.ds 0x20#16).map fun d => seg16State d t := by
  have hload : ∀ u : State, u.cr0 = t.cr0 → u.gdt = t.gdt → ∀ old,
      u.loadSeg old 0x20#16 = t.loadSeg t.ds 0x20#16 := by
    intro u hcr0 hgdt old
    exact State.loadSeg_congr hprot hcr0 hgdt old t.ds 0x20#16
  simp only [jump16, run, exec, State.setReg, State.read, State.write, State.reg, State.seg]
  cases hjump : t.farJump 0x18#16 false with
  | none => simp [hjump]
  | some u =>
    obtain rfl := State.farJump_cs hjump
    cases hdata : t.loadSeg t.ds 0x20#16 with
    | none => simp [hjump, hload, hdata, setWidth_setLow]
    | some d => simp [hjump, hload, hdata, seg16State, State.setSeg, setWidth_setLow]

/-- The mode is left if the byte has cleared the bit. -/
theorem run_leaveMode {t : State} (hcs : t.cs.big = false) :
    run leaveMode t = if (leftCr0 t).getLsbD 0 then none else some (realState t) := by
  have hjump : run leaveMode t
      = State.farJump { t with eax := leftCr0 t, cr0 := leftCr0 t } 0 false := by
    simp only [leaveMode, run, exec, State.setReg, State.read, State.write, State.reg, Alu.apply]
    simp [leftCr0]
  rw [hjump]
  split
  case isTrue hbit =>
    exact State.farJump_null (s := { t with eax := leftCr0 t, cr0 := leftCr0 t }) hbit false
  case isFalse hbit =>
    have hland := State.farJump_real (s := { t with eax := leftCr0 t, cr0 := leftCr0 t })
      (Bool.eq_false_of_not_eq_true hbit) 0
    rw [hcs] at hland
    exact hland

theorem run_restoreContext (l : Link) {t : State} (hreal : t.protectedMode = false) :
    run (restoreContext l) t = some (restored l t) := by
  have hload : ∀ u : State, u.cr0 = t.cr0 → ∀ old selector,
      u.loadSeg old selector = some (old.reload selector) := by
    intro u hcr0 old selector
    exact State.loadSeg_real (by rw [State.protectedMode, hcr0]; exact hreal) old selector
  simp only [restoreContext, run, exec, State.setReg, State.read, State.write, State.reg,
    State.seg]
  simp [State.pop_push, hload, State.setSeg, setWidth_setLow, restored]

/-! ## Section 5: Both ways -/

/-- The state in which the function starts if nothing but the mode bit changes. -/
def entryState (l : Link) (s : State) : State :=
  { s with
    eax := functionPointer s
    ebp := BitVec.ofNat 32 (s.stackTop + 4)
    esp := BitVec.ofNat 32 (s.stackTop + 4)
    eip := functionPointer s
    cs := ⟨0x08, 0, true⟩
    ss := ⟨0x10, 0, true⟩
    ds := ⟨0x10, 0, true⟩
    cr0 := s.cr0 ||| 1#32
    gdt := gdt
    mem := (savedMem l s).writeLE (s.stackTop + 4) 4 l.afterCall.toNat }

/-- Saving the context changes `_scratch` only. -/
theorem savedMem_apart (l : Link) (s : State) {a n : Nat}
    (h : a + n ≤ s.ds.base + l.scratch ∨ s.ds.base + l.scratch + 16 ≤ a) :
    (savedMem l s).readLE a n = s.mem.readLE a n := by
  simp (disch := omega) only [savedMem, Store.readLE_writeLE_disjoint]

theorem stackTop_lt {l : Link} {s : State} (h : Called l s) : s.stackTop + 8 ≤ 2 ^ 21 := by
  have hframe := h.frame
  have hsel := s.ss.selector.isLt
  have hbase : s.ss.base = 16 * s.ss.selector.toNat := by rw [h.ss]; rfl
  have hbig : s.ss.big = false := by rw [h.ss]; rfl
  simp only [State.stackTop, State.stackOffset, hbig, hbase, Bool.false_eq_true, if_false]
  omega

theorem run_enterCode {l : Link} {s : State} (h : Called l s) :
    run (enterCode l) s = if (enteredCr0 s).getLsbD 0 then
        some { entryState l s with cr0 := enteredCr0 s }
      else none := by
  have hlow := l.low
  have happart := h.apart
  -- neither the byte nor the function's address is in `_scratch`
  have hbyte : (savedMem l s).readLE 1 1 = s.mem.readLE 1 1 := savedMem_apart l s (by omega)
  have hpointer : (savedMem l s).readLE (s.stackTop + 4) 4 = s.mem.readLE (s.stackTop + 4) 4 :=
    savedMem_apart l s (by omega)
  have hesp : (BitVec.ofNat 32 (s.stackTop + 4)).toNat = s.stackTop + 4 :=
    Nat.mod_eq_of_lt (by have := stackTop_lt h; omega)
  have hcr0 : enteredCr0 (flatState l s) = enteredCr0 s := by
    rw [enteredCr0, enteredCr0, flatState, savedState, hbyte]
  rw [enterCode, run_append, run_saveContext h, Option.bind_eq_bind, Option.bind_some, run_append,
    run_flattenStack h, Option.bind_eq_bind, Option.bind_some, run_append,
    run_enterMode l (t := flatState l s) h.real, hcr0]
  split
  case isTrue hbit =>
    have hprot : (protectedState (flatState l s)).protectedMode = true := by
      rw [State.protectedMode, protectedState, hcr0]
      exact hbit
    rw [Option.bind_eq_bind, Option.bind_some, run_callFunction l hprot rfl]
    simp only [protectedState, hcr0]
    simp only [flatState, savedState, hesp, hpointer, entryState, functionPointer]
  case isFalse hbit => rfl

theorem run_leaveCode (l : Link) {t : State} (hprot : t.protectedMode = true) (r : State) :
    run (leaveCode l) t = some r ↔ ∃ d, (t.farJump 0x18#16 false).isSome ∧
      t.loadSeg t.ds 0x20#16 = some d ∧ (leftCr0 (seg16State d t)).getLsbD 0 = false ∧
      r = restored l (realState (seg16State d t)) := by
  rw [leaveCode, run_append, run_jump16 hprot]
  cases t.farJump 0x18#16 false with
  | none => simp
  | some u =>
    cases t.loadSeg t.ds 0x20#16 with
    | none => simp
    | some d =>
      rw [Option.bind_some, Option.map_some, Option.bind_eq_bind, Option.bind_some, run_append,
        run_leaveMode (t := seg16State d t) rfl]
      cases hbit : (leftCr0 (seg16State d t)).getLsbD 0 with
      | true => simp [hbit]
      | false =>
        have hrest := run_restoreContext l (t := realState (seg16State d t)) hbit
        rw [if_neg Bool.false_ne_true, Option.bind_eq_bind, Option.bind_some, hrest]
        constructor
        · intro hr
          exact ⟨d, rfl, rfl, hbit, (Option.some.inj hr).symm⟩
        · intro ⟨d', _, hd, _, hr⟩
          rw [hr, Option.some.inj hd]

/-! ## Section 6: What the caller is promised -/

/-- The 32-bit function is entered, and CR0 has changed in the mode bit only. -/
structure Entered (s e : State) : Prop where
  code32 : e.cs.big = true
  eip : e.eip = functionPointer s
  cr0 : e.cr0 = s.cr0 ||| 1#32

/-- `s` is the state of the caller, `u` the one in which the function returns. -/
structure Returned (s u t : State) : Prop where
  real : t.protectedMode = false
  cr0 : t.cr0.setWidth 8 = u.cr0.setWidth 8 &&& ~~~1#8
  cs : t.cs = s.cs
  ss : t.ss = s.ss
  ds : t.ds = s.ds
  es : t.es = s.es
  ebp : t.ebp = s.ebp
  sp : t.esp.setWidth 16 = (s.esp + 4).setWidth 16
  eip : t.eip = returnAddress s

def Works (l : Link) (callee : State → State) (s : State) : Prop :=
  ∃ e t, run (enterCode l) s = some e ∧ Entered s e ∧
    run (leaveCode l) (callee e) = some t ∧ Returned s (callee e) t

/-- `_scratch` holds the context when the function returns, where the way back
    looks for it: first with the base `b`, then with DS. -/
structure Restores (l : Link) (b : Nat) (m : Store) (s : State) : Prop where
  ebp : BitVec.ofNat 32 (m.readLE (b + (l.scratch + 4)) 4) = s.ebp
  ss : BitVec.ofNat 16 (m.readLE (b + (l.scratch + 8)) 2) = s.ss.selector
  sp : BitVec.ofNat 16 (m.readLE (b + (l.scratch + 10)) 2) = (s.esp + 4).setWidth 16
  ds : BitVec.ofNat 16 (m.readLE (b + (l.scratch + 12)) 2) = s.ds.selector
  es : BitVec.ofNat 16 (m.readLE (s.ds.base + (l.scratch + 14)) 2) = s.es.selector
  eip : BitVec.ofNat 32 (m.readLE (s.ds.base + l.scratch) 4) = returnAddress s

/-- The two bytes of memory act as the constants 1 and ~1 would, the function
    leaves a table in which the way back finds its segments, and the context is
    found in the one of them for data. `u` is the state in which it returns. -/
structure Suits (l : Link) (s u : State) (d : Seg) : Prop where
  enter : s.cr0.setWidth 8 ||| (s.mem 1).toBitVec = s.cr0.setWidth 8 ||| 1#8
  code16 : (u.farJump 0x18#16 false).isSome
  data16 : u.loadSeg u.ds 0x20#16 = some d
  small : d.big = false
  leave : (s.cr0.setWidth 8 ||| 1#8) &&& (u.mem (d.base + 0xFFFE)).toBitVec = s.cr0.setWidth 8
  context : Restores l d.base u.mem s

/-- With DS 0, a function that stays away from `_scratch` leaves the context. -/
theorem restores_of_kept {l : Link} {s : State} (h : Called l s) (hds : s.ds.selector = 0)
    {m : Store} (hkept : ∀ i, l.scratch ≤ i → i < l.scratch + 16 → m i = (entryState l s).mem i) :
    Restores l 0 m s := by
  have hbase : s.ds.base = 0 := by rw [h.ds, hds]; rfl
  have happart := h.apart
  have hread : ∀ a n, l.scratch ≤ a → a + n ≤ l.scratch + 16 →
      m.readLE a n = (savedMem l s).readLE a n := by
    intro a n hlo hhi
    rw [Store.readLE_congr fun i hi hi' => hkept i (by omega) (by omega), entryState,
      Store.readLE_writeLE_disjoint (by omega)]
  have hdword : ∀ v : BitVec 32, BitVec.ofNat 32 (v.toNat % 256 ^ 4) = v := by
    intro v
    have hlt : v.toNat < 256 ^ 4 := v.isLt
    rw [Nat.mod_eq_of_lt hlt, BitVec.ofNat_toNat, BitVec.setWidth_eq]
  have hword : ∀ v : BitVec 16, BitVec.ofNat 16 (v.toNat % 256 ^ 2) = v := by
    intro v
    have hlt : v.toNat < 256 ^ 2 := v.isLt
    rw [Nat.mod_eq_of_lt hlt, BitVec.ofNat_toNat, BitVec.setWidth_eq]
  constructor
  all_goals
    rw [hread _ _ (by omega) (by omega)]
    simp (disch := omega) only [savedMem, hbase, Nat.zero_add, Store.readLE_writeLE_same,
      Store.readLE_writeLE_disjoint, hdword, hword]

theorem ofNat_readLE_one (m : Store) (a : Nat) : BitVec.ofNat 8 (m.readLE a 1) = (m a).toBitVec := by
  rw [Store.readLE_one]
  exact BitVec.ofNat_toNat 8 (m a).toBitVec |>.trans (BitVec.setWidth_eq _)

theorem setWidth_or_one (x : BitVec 32) : (x ||| 1#32).setWidth 8 = x.setWidth 8 ||| 1#8 :=
  BitVec.setWidth_or

theorem enteredCr0_eq_iff (s : State) :
    enteredCr0 s = s.cr0 ||| 1#32 ↔ s.cr0.setWidth 8 ||| (s.mem 1).toBitVec = s.cr0.setWidth 8 ||| 1#8 := by
  have hrest : ∀ i, 8 ≤ i → (s.cr0 ||| 1#32).getLsbD i = s.cr0.getLsbD i := by
    intro i hi
    have hone : (1#32).getLsbD i = false := by
      rw [BitVec.getLsbD_ofNat, Nat.testBit_lt_two_pow (Nat.one_lt_two_pow (by omega)),
        Bool.and_false]
    rw [BitVec.getLsbD_or, hone, Bool.or_false]
  rw [enteredCr0, setLow_eq_iff (by decide) hrest, ofNat_readLE_one, setWidth_or_one]

theorem setWidth_leftCr0 (t : State) :
    (leftCr0 t).setWidth 8 = t.cr0.setWidth 8 &&& (t.mem (t.ds.base + 0xFFFE)).toBitVec := by
  rw [leftCr0, setWidth_setLow _ _ (by decide), ofNat_readLE_one]

theorem or_one_and_not (x : BitVec 8) (h : x.getLsbD 0 = false) : (x ||| 1#8) &&& ~~~1#8 = x := by
  apply BitVec.eq_of_getLsbD_eq
  intro i hi
  rw [BitVec.getLsbD_and, BitVec.getLsbD_or, BitVec.getLsbD_not, BitVec.getLsbD_one]
  by_cases h0 : i = 0
  · subst h0
    simp only [h]
    decide
  · simp [h0, hi]

/-- A mode bit that was clear is clear after the way back. -/
theorem leftCr0_real {s t : State} (hreal : s.protectedMode = false)
    (hlow : (leftCr0 t).setWidth 8 = s.cr0.setWidth 8) : (leftCr0 t).getLsbD 0 = false := by
  have hbit := congrArg (fun x : BitVec 8 => x.getLsbD 0) hlow
  have hsame : (leftCr0 t).getLsbD 0 = s.cr0.getLsbD 0 := by simpa using hbit
  exact hsame.trans hreal

/-- A real mode segment is back if its selector is, and in a 16-bit segment. -/
theorem reload_eq_iff {r : Seg} (h : r = Seg.real r.selector) (old : Seg) (x : BitVec 16) :
    old.reload x = r ↔ old.big = false ∧ x = r.selector := by
  constructor
  · intro hx
    have hbig : (old.reload x).big = r.big := congrArg Seg.big hx
    rw [h] at hbig
    exact ⟨hbig, congrArg Seg.selector hx⟩
  · intro ⟨hbig, hx⟩
    rw [h, Seg.reload, Seg.real, hbig, hx]

theorem restores_iff (l : Link) {s t : State} (h : Called l s) {d : Seg} (hss : t.ss = d)
    (hds : t.ds = d) (hes : t.es = d) :
    d.big = false ∧ Restores l d.base t.mem s ↔
      (restored l t).ss = s.ss ∧ (restored l t).ds = s.ds ∧ (restored l t).es = s.es ∧
      (restored l t).ebp = s.ebp ∧ (restored l t).esp.setWidth 16 = (s.esp + 4).setWidth 16 ∧
      (restored l t).eip = returnAddress s := by
  subst hds
  have hbig : t.ss.big = t.ds.big ∧ t.es.big = t.ds.big := by rw [hss, hes]; exact ⟨rfl, rfl⟩
  have hsp : ∀ x : BitVec 16, (x.setWidth 32).setWidth 16 = x := by
    intro x
    simp
  -- ES and the return address are read with the DS that was read before
  have hbase : BitVec.ofNat 16 (t.mem.readLE (t.ds.base + (l.scratch + 12)) 2) = s.ds.selector →
      16 * (BitVec.ofNat 16 (t.mem.readLE (t.ds.base + (l.scratch + 12)) 2)).toNat = s.ds.base := by
    intro hsel
    rw [hsel, h.ds]
    rfl
  constructor
  · intro ⟨hsmall, hr⟩
    refine ⟨(reload_eq_iff h.ss _ _).mpr ⟨hbig.1.trans hsmall, hr.ss⟩,
      (reload_eq_iff h.ds _ _).mpr ⟨hsmall, hr.ds⟩, (reload_eq_iff h.es _ _).mpr ⟨hbig.2.trans hsmall, ?_⟩,
      hr.ebp, (hsp _).trans hr.sp, ?_⟩
    · rw [Seg.reload, hbase hr.ds]
      exact hr.es
    · rw [restored, Seg.reload, hbase hr.ds]
      exact hr.eip
  · intro ⟨hss', hds', hes', hebp, hesp, heip⟩
    obtain ⟨hsmall, hsel⟩ := (reload_eq_iff h.ds _ _).mp hds'
    have hes'' := ((reload_eq_iff h.es _ _).mp hes').2
    rw [restored, Seg.reload, hbase hsel] at heip
    rw [Seg.reload, hbase hsel] at hes''
    exact ⟨hsmall, hebp, ((reload_eq_iff h.ss _ _).mp hss').2, (hsp _).symm.trans hesp, hsel, hes'', heip⟩

theorem getLsbD_or_one (x : BitVec 32) : (x ||| 1#32).getLsbD 0 = true := by
  simp

theorem entered_iff {l : Link} {s e : State} (h : Called l s) :
    run (enterCode l) s = some e ∧ Entered s e ↔
      e = entryState l s ∧ enteredCr0 s = s.cr0 ||| 1#32 := by
  rw [run_enterCode h]
  constructor
  · intro ⟨hrun, hentered⟩
    split at hrun
    case isTrue hbit =>
      obtain rfl := Option.some.inj hrun
      have hcr0 : enteredCr0 s = s.cr0 ||| 1#32 := hentered.cr0
      exact ⟨by rw [hcr0]; rfl, hcr0⟩
    case isFalse hbit => exact absurd hrun (by simp)
  · intro ⟨he, hcr0⟩
    rw [he, hcr0, if_pos (getLsbD_or_one _)]
    exact ⟨rfl, rfl, rfl, rfl⟩

/-- The way back, from the state `u` in which the function returns. -/
theorem returned_iff {l : Link} {s u t : State} (h : Called l s) (hcr0 : u.cr0 = s.cr0 ||| 1#32) :
    run (leaveCode l) u = some t ∧ Returned s u t ↔
      ∃ d, (u.farJump 0x18#16 false).isSome ∧ u.loadSeg u.ds 0x20#16 = some d ∧ d.big = false ∧
        (s.cr0.setWidth 8 ||| 1#8) &&& (u.mem (d.base + 0xFFFE)).toBitVec = s.cr0.setWidth 8 ∧
        Restores l d.base u.mem s ∧ t = restored l (realState (seg16State d u)) := by
  have hprot : u.protectedMode = true := by
    rw [State.protectedMode, hcr0]
    exact getLsbD_or_one s.cr0
  have hlow : u.cr0.setWidth 8 = s.cr0.setWidth 8 ||| 1#8 := by rw [hcr0, setWidth_or_one]
  -- the bit was clear, so clearing it gives the old byte
  have hclear : u.cr0.setWidth 8 &&& ~~~1#8 = s.cr0.setWidth 8 := by
    have hbit : (s.cr0.setWidth 8).getLsbD 0 = false := by
      have hreal : s.cr0.getLsbD 0 = false := h.real
      rw [BitVec.getLsbD_setWidth, hreal, Bool.and_false]
    rw [hlow, or_one_and_not _ hbit]
  have hleft : ∀ d, (leftCr0 (seg16State d u)).setWidth 8
      = (s.cr0.setWidth 8 ||| 1#8) &&& (u.mem (d.base + 0xFFFE)).toBitVec := by
    intro d
    rw [← hlow]
    exact setWidth_leftCr0 (seg16State d u)
  have hcontext : ∀ d, _ ↔ _ := fun d =>
    restores_iff l (t := realState (seg16State d u)) h (d := d) rfl rfl rfl
  rw [run_leaveCode l hprot]
  constructor
  · rintro ⟨⟨d, hcode, hdata, -, rfl⟩, hret⟩
    obtain ⟨hsmall, hrestores⟩ := (hcontext d).mpr
      ⟨hret.ss, hret.ds, hret.es, hret.ebp, hret.sp, hret.eip⟩
    exact ⟨d, hcode, hdata, hsmall, (hleft d).symm.trans (hret.cr0.trans hclear), hrestores, rfl⟩
  · rintro ⟨d, hcode, hdata, hsmall, hbyte, hrestores, ht⟩
    have hcr0' := (hleft d).trans hbyte
    have hreal := leftCr0_real h.real hcr0'
    obtain ⟨hss, hds, hes, hebp, hesp, heip⟩ := (hcontext d).mp ⟨hsmall, hrestores⟩
    rw [ht]
    exact ⟨⟨d, hcode, hdata, hreal, rfl⟩,
      ⟨hreal, hcr0'.trans hclear.symm, h.cs.symm, hss, hds, hes, hebp, hesp, heip⟩⟩

/-- A function that keeps CR0 is called in 32-bit mode, and the caller gets back
    what it had, just if the two bytes that stand in for constants have the right
    bits and the way back finds its segments and the context. -/
theorem protectedModeCall_iff (l : Link) (callee : State → State) (s : State) (h : Called l s)
    (hcr0 : (callee (entryState l s)).cr0 = (entryState l s).cr0) :
    Works l callee s ↔ ∃ d, Suits l s (callee (entryState l s)) d := by
  constructor
  · intro ⟨e, t, hin, hentered, hout, hreturned⟩
    obtain ⟨rfl, hmode⟩ := (entered_iff h).mp ⟨hin, hentered⟩
    obtain ⟨d, hcode, hdata, hsmall, hbyte, hcontext, -⟩ :=
      (returned_iff h hcr0).mp ⟨hout, hreturned⟩
    exact ⟨d, (enteredCr0_eq_iff s).mp hmode, hcode, hdata, hsmall, hbyte, hcontext⟩
  · intro ⟨d, hs⟩
    obtain ⟨hin, hentered⟩ := (entered_iff h).mpr ⟨rfl, (enteredCr0_eq_iff s).mpr hs.enter⟩
    obtain ⟨hout, hreturned⟩ := (returned_iff h hcr0).mpr
      ⟨d, hs.code16, hs.data16, hs.small, hs.leave, hs.context, rfl⟩
    exact ⟨_, _, hin, hentered, hout, hreturned⟩

/-- With DS 0 and a function that stays away from the table and `_scratch`, the
    two bytes decide. -/
theorem suits_of_kept {l : Link} {s u : State} (h : Called l s) (hds : s.ds.selector = 0)
    (hcr0 : u.cr0 = s.cr0 ||| 1#32) (hgdt : u.gdt = gdt)
    (hkept : ∀ i, l.scratch ≤ i → i < l.scratch + 16 → u.mem i = (entryState l s).mem i)
    (henter : s.cr0.setWidth 8 ||| (s.mem 1).toBitVec = s.cr0.setWidth 8 ||| 1#8)
    (hleave : (s.cr0.setWidth 8 ||| 1#8) &&& (u.mem 0xFFFE).toBitVec = s.cr0.setWidth 8) :
    Suits l s u ⟨0x20, 0, false⟩ := by
  have hprot : u.protectedMode = true := by
    rw [State.protectedMode, hcr0]
    exact getLsbD_or_one s.cr0
  refine ⟨henter, ?code16, loadSeg_data16 hprot hgdt u.ds, rfl, ?leave, restores_of_kept h hds hkept⟩
  case code16 =>
    rw [farJump_code16 hprot hgdt]
    rfl
  case leave =>
    rw [Nat.zero_add]
    exact hleave

/-! ### A concrete call -/

def sampleLink : Link := ⟨0x1200, 0x11F8, 0x1180, by decide, by decide⟩

/-- The function that returns at once. -/
def returnNow (e : State) : State := { e.pop.2 with eip := e.pop.1 }

/-- `vector` is the first interrupt vector, `last` the byte at 0xFFFE. -/
def sampleState (vector last : Nat) : State where
  eax := 0
  ebp := 0x7000
  esp := 0x6FF0
  eip := 0x1100
  cs := Seg.real 0
  ss := Seg.real 0
  ds := Seg.real 0
  es := Seg.real 0
  cr0 := 0x10
  gdt := []
  mem :=
    let m : Store := fun _ => 0
    (((m.writeLE 0 4 vector).writeLE 0xFFFE 1 last).writeLE 0x6FF4 4 0x3000).writeLE 0x6FF0 4 0x2345

theorem sampleState_called (vector last : Nat) : Called sampleLink (sampleState vector last) := by
  have htop : (sampleState vector last).stackTop = 0x6FF0 := by
    simp [State.stackTop, State.stackOffset, sampleState, Seg.real]
  have hds : (sampleState vector last).ds.base = 0 := rfl
  have hcr0 : (sampleState vector last).cr0 = 0x10#32 := rfl
  have hesp : (sampleState vector last).esp = 0x6FF0#32 := rfl
  refine ⟨?real, rfl, rfl, rfl, rfl, ?frame, ?near, ?apart⟩
  case real =>
    rw [State.protectedMode, hcr0]
    decide
  case frame =>
    rw [hesp]
    decide
  case near =>
    rw [returnAddress, htop, sampleState, Store.readLE_writeLE_same]
    decide
  case apart =>
    rw [htop, hds]
    exact .inr (by decide)

/-- With the constants in memory, all is as promised. -/
theorem protectedModeCall_flat : Works sampleLink returnNow (sampleState 0x100 0xFE) := by
  have h := sampleState_called 0x100 0xFE
  have hlast : (returnNow (entryState sampleLink (sampleState 0x100 0xFE))).mem 0xFFFE = 0xFE := by
    decide
  exact (protectedModeCall_iff sampleLink returnNow (sampleState 0x100 0xFE) h rfl).mpr
    ⟨_, suits_of_kept h rfl rfl rfl (fun _ _ _ => rfl) (by decide) (by rw [hlast]; decide)⟩

/-- The vector of a BIOS at F000:FF53 sets every bit of the low byte of CR0. -/
theorem protectedModeCall_astray : ¬ ∀ l callee s, Called l s →
    (∀ e, (callee e).cr0 = e.cr0 ∧ (callee e).gdt = e.gdt ∧ (callee e).mem = e.mem) →
    Works l callee s := by
  intro hall
  obtain ⟨e, t, hin, hentered, -, -⟩ := hall sampleLink returnNow (sampleState 0xF000FF53 0)
    (sampleState_called 0xF000FF53 0) fun e => ⟨rfl, rfl, rfl⟩
  have hmode := ((entered_iff (sampleState_called 0xF000FF53 0)).mp ⟨hin, hentered⟩).2
  have hbyte := (enteredCr0_eq_iff _).mp hmode
  revert hbyte
  decide

end Hausboot.Pm86

import Hausboot.Lib.Store

/-! # x86 Mode Switching

    The part of the processor that a switch between real and protected mode
    works with: a few registers, the segment registers with the base that the
    processor remembers for each, CR0, a descriptor table, and memory. Flags and
    limits are left out. Instructions are given in the order of the assembler,
    source before destination.

    Code is a list of instructions. A far jump goes on with the next one, so it
    has to arrive there: at the linear address of the code behind it, and with
    the operand size that this code was assembled for. `none` means that the
    processor faults or goes somewhere else. -/

open ByteLib

namespace X86

/-! ## Section 1: State -/

/-- A segment register. `big` selects 32-bit operands for code, and ESP instead
    of SP for the stack. -/
structure Seg where
  selector : BitVec 16
  base : Nat
  big : Bool
deriving DecidableEq

/-- What real mode makes of a selector. -/
def Seg.real (selector : BitVec 16) : Seg := ⟨selector, 16 * selector.toNat, false⟩

/-- Real mode computes the base and leaves the rest of a data segment. -/
def Seg.reload (old : Seg) (selector : BitVec 16) : Seg := ⟨selector, 16 * selector.toNat, old.big⟩

inductive Reg where
  | eax
  | ebp
  | esp
deriving DecidableEq

inductive SegReg where
  | ss
  | ds
  | es
deriving DecidableEq

structure State where
  eax : BitVec 32
  ebp : BitVec 32
  esp : BitVec 32
  eip : BitVec 32
  cs : Seg
  ss : Seg
  ds : Seg
  es : Seg
  cr0 : BitVec 32
  gdt : List (BitVec 64)
  mem : Store

/-- The low `w` bits of a register are replaced. -/
def setLow {w : Nat} (x : BitVec 32) (v : BitVec w) : BitVec 32 := x >>> w <<< w ||| v.setWidth 32

namespace State

def reg (s : State) : Reg → BitVec 32
  | .eax => s.eax
  | .ebp => s.ebp
  | .esp => s.esp

def setReg (s : State) : Reg → BitVec 32 → State
  | .eax, v => { s with eax := v }
  | .ebp, v => { s with ebp := v }
  | .esp, v => { s with esp := v }

def seg (s : State) : SegReg → Seg
  | .ss => s.ss
  | .ds => s.ds
  | .es => s.es

def setSeg (s : State) : SegReg → Seg → State
  | .ss, v => { s with ss := v }
  | .ds, v => { s with ds := v }
  | .es, v => { s with es := v }

/-- The bit PE of CR0. -/
def protectedMode (s : State) : Bool := s.cr0.getLsbD 0

/-! ## Section 2: Segments -/

/-- The descriptor for a selector of the table; the null selector has none. -/
def descriptor (s : State) (selector : BitVec 16) : Option (BitVec 64) :=
  if selector.toNat < 8 || selector.toNat % 8 ≠ 0 then none else s.gdt[selector.toNat / 8]?

end State

def descriptorBase (q : BitVec 64) : Nat :=
  (q.extractLsb' 16 24).toNat + 2 ^ 24 * (q.extractLsb' 56 8).toNat

/-- The bit D or B. -/
def descriptorBig (q : BitVec 64) : Bool := q.getLsbD 54

/-- A present segment, and whether it holds code. -/
def isSegment (q : BitVec 64) (code : Bool) : Bool :=
  q.getLsbD 47 && q.getLsbD 44 && q.getLsbD 43 == code

namespace State

/-- Loading a data segment register that holds `old`. -/
def loadSeg (s : State) (old : Seg) (selector : BitVec 16) : Option Seg :=
  if s.protectedMode then do
    let q ← s.descriptor selector
    if isSegment q false then some ⟨selector, descriptorBase q, descriptorBig q⟩ else none
  else some (old.reload selector)

/-- A far jump to the code behind it. -/
def farJump (s : State) (selector : BitVec 16) (big : Bool) : Option State :=
  if s.protectedMode then do
    let q ← s.descriptor selector
    if isSegment q true && descriptorBase q = 0 && descriptorBig q == big then
      some { s with cs := ⟨selector, 0, big⟩ }
    else none
  else if selector = 0 && s.cs.big == big then some { s with cs := ⟨selector, 0, big⟩ }
  else none

end State

/-! ## Section 3: Operands -/

/-- `mem` is an address in the data segment. -/
inductive Operand where
  | imm (n : Nat)
  | reg (r : Reg)
  | seg (r : SegReg)
  | cr0
  | mem (address : Nat)

namespace State

def read (s : State) (w : Nat) : Operand → BitVec w
  | .imm n => BitVec.ofNat w n
  | .reg r => (s.reg r).setWidth w
  | .seg r => (s.seg r).selector.setWidth w
  | .cr0 => s.cr0.setWidth w
  | .mem a => BitVec.ofNat w (s.mem.readLE (s.ds.base + a) (w / 8))

def write (s : State) {w : Nat} : Operand → BitVec w → Option State
  | .imm _, _ => none
  | .reg r, v => some (s.setReg r (setLow (s.reg r) v))
  | .seg r, v => (s.loadSeg (s.seg r) (v.setWidth 16)).map (s.setSeg r)
  | .cr0, v => some { s with cr0 := v.setWidth 32 }
  | .mem a, v => some { s with mem := s.mem.writeLE (s.ds.base + a) (w / 8) v.toNat }

/-- The stack pointer, as far as the stack segment uses it. -/
def stackOffset (s : State) : Nat := if s.ss.big then s.esp.toNat else (s.esp.setWidth 16).toNat

def stackTop (s : State) : Nat := s.ss.base + s.stackOffset

def moveStack (s : State) (d : BitVec 32) : State :=
  { s with esp := if s.ss.big then s.esp + d else setLow s.esp ((s.esp + d).setWidth 16) }

def pop (s : State) : BitVec 32 × State :=
  (BitVec.ofNat 32 (s.mem.readLE s.stackTop 4), s.moveStack 4)

def push (s : State) (v : BitVec 32) : State :=
  let s := s.moveStack (-4)
  { s with mem := s.mem.writeLE s.stackTop 4 v.toNat }

end State

/-! ## Section 4: Instructions -/

inductive Alu where
  | add
  | or
  | and
  | xor
  | shl

def Alu.apply {w : Nat} : Alu → BitVec w → BitVec w → BitVec w
  | .add, x, y => x + y
  | .or, x, y => x ||| y
  | .and, x, y => x &&& y
  | .xor, x, y => x ^^^ y
  | .shl, x, y => x <<< y.toNat

inductive Instr where
  | mov (w : Nat) (src dst : Operand)
  /-- from 16 to 32 bits -/
  | movzx (src dst : Reg)
  | alu (op : Alu) (w : Nat) (src dst : Operand)
  | push (src : Reg)
  | pop (dst : Reg)
  | cli
  | cld
  /-- The table is given instead of the address of its descriptor. -/
  | lgdt (table : List (BitVec 64))
  | ljmp (selector : BitVec 16) (big : Bool)
  /-- The call of a function by its address; `back` is where it returns to. -/
  | call (target : Reg) (back : BitVec 32)
  | ret

def exec (s : State) : Instr → Option State
  | .mov w src dst => s.write dst (s.read w src)
  | .movzx src dst => some (s.setReg dst (((s.reg src).setWidth 16).setWidth 32))
  | .alu op w src dst => s.write dst (op.apply (s.read w dst) (s.read w src))
  | .push src => some (s.push (s.reg src))
  | .pop dst => some (s.pop.2.setReg dst s.pop.1)
  | .cli => some s
  | .cld => some s
  | .lgdt table => some { s with gdt := table }
  | .ljmp selector big => s.farJump selector big
  | .call target back => some { s.push back with eip := s.reg target }
  | .ret => some { s.pop.2 with eip := s.pop.1 }

def run : List Instr → State → Option State
  | [], s => some s
  | i :: is, s => exec s i >>= run is

theorem run_append (is is' : List Instr) (s : State) :
    run (is ++ is') s = run is s >>= run is' := by
  induction is generalizing s with
  | nil => rfl
  | cons i is ih =>
    have hrest : run (is ++ is') = fun s' => run is s' >>= run is' := funext ih
    simp only [List.cons_append, run, hrest, bind_assoc]

/-! ## Section 5: Parts of a register -/

section Low

variable {w : Nat}

theorem getLsbD_setLow (x : BitVec 32) (v : BitVec w) (i : Nat) :
    (setLow x v).getLsbD i = if i < w then decide (i < 32) && v.getLsbD i else x.getLsbD i := by
  by_cases hw : i < w
  · by_cases hi : i < 32 <;> simp [setLow, hi, hw]
  · by_cases hi : i < 32
    · have hv : v.getLsbD i = false := BitVec.getLsbD_of_ge v i (by omega)
      have hx : w + (i - w) = i := by omega
      simp [setLow, hi, hw, hv, hx]
    · have hx : x.getLsbD i = false := BitVec.getLsbD_of_ge x i (by omega)
      simp [setLow, hi, hw, hx]

/-- Reading back the part that was replaced. -/
theorem setWidth_setLow (x : BitVec 32) (v : BitVec w) (hw : w ≤ 32) :
    (setLow x v).setWidth w = v := by
  apply BitVec.eq_of_getLsbD_eq
  intro i hi
  have h32 : i < 32 := by omega
  rw [BitVec.getLsbD_setWidth, getLsbD_setLow, if_pos hi, decide_eq_true hi, decide_eq_true h32,
    Bool.true_and, Bool.true_and]

@[simp] theorem setLow_self (x : BitVec 32) : setLow x (x.setWidth w) = x := by
  apply BitVec.eq_of_getLsbD_eq
  intro i hi
  rw [getLsbD_setLow]
  split
  case isTrue hw => simp [hi, hw]
  case isFalse hw => rfl

/-- Replacing all of a register. -/
@[simp] theorem setLow_all (x v : BitVec 32) : setLow x v = v := by
  apply BitVec.eq_of_getLsbD_eq
  intro i hi
  rw [getLsbD_setLow, if_pos hi, decide_eq_true hi, Bool.true_and]

@[simp] theorem setLow_setLow (x : BitVec 32) (v v' : BitVec w) :
    setLow (setLow x v) v' = setLow x v' := by
  apply BitVec.eq_of_getLsbD_eq
  intro i hi
  simp only [getLsbD_setLow]
  split <;> rfl

/-- A register that fits the replaced part is replaced as a whole. -/
theorem setLow_of_lt {x : BitVec 32} (v : BitVec w) (hx : x.toNat < 2 ^ w) :
    setLow x v = v.setWidth 32 := by
  have hhigh : x >>> w = 0#32 := by
    apply BitVec.eq_of_toNat_eq
    rw [BitVec.toNat_ushiftRight, Nat.shiftRight_eq_div_pow, Nat.div_eq_of_lt hx]
    rfl
  rw [setLow, hhigh]
  simp

/-- A result that goes to a part of a register is a result for the register
    if the rest of that is what was there. -/
theorem setLow_eq_iff {x y : BitVec 32} {v : BitVec w} (hw : w ≤ 32)
    (hrest : ∀ i, w ≤ i → y.getLsbD i = x.getLsbD i) : setLow x v = y ↔ v = y.setWidth w := by
  constructor
  · intro h
    rw [← h, setWidth_setLow x v hw]
  · intro h
    apply BitVec.eq_of_getLsbD_eq
    intro i hi
    rw [getLsbD_setLow, h]
    split
    case isTrue hlow => simp [hi, hlow]
    case isFalse hlow => exact (hrest i (by omega)).symm

end Low

/-! ## Section 6: The stack -/

namespace State

theorem moveStack_moveStack (s : State) (d : BitVec 32) : (s.moveStack d).moveStack (-d) = s := by
  cases hbig : s.ss.big with
  | true =>
    have hback : s.esp + d + -d = s.esp := by
      rw [BitVec.add_assoc, BitVec.add_right_neg, BitVec.add_zero]
    simp only [moveStack, hbig, if_true, hback]
  | false =>
    have hlow : (setLow s.esp ((s.esp + d).setWidth 16) + -d).setWidth 16 = s.esp.setWidth 16 := by
      rw [BitVec.setWidth_add _ _ (by decide), setWidth_setLow _ _ (by decide),
        ← BitVec.setWidth_add _ _ (by decide), BitVec.add_assoc, BitVec.add_right_neg,
        BitVec.add_zero]
    simp [moveStack, hbig, hlow]

/-- What was pushed is popped, and only memory remembers it. -/
theorem pop_push (s : State) (v : BitVec 32) :
    (s.push v).pop = (v, { s with mem := (s.push v).mem }) := by
  have hvalue : (s.push v).mem.readLE (s.push v).stackTop 4 = v.toNat := by
    have hsame := Store.readLE_writeLE_same s.mem (s.moveStack (-4)).stackTop 4 v.toNat
    exact hsame.trans (Nat.mod_eq_of_lt v.isLt)
  have hback : (s.push v).moveStack 4 = { s with mem := (s.push v).mem } :=
    congrArg (fun t : State => { t with mem := (s.push v).mem }) (moveStack_moveStack s (-4))
  rw [pop, hvalue, hback, BitVec.ofNat_toNat, BitVec.setWidth_eq]

end State

/-! ## Section 7: Changes of the mode -/

namespace State

theorem loadSeg_real {s : State} (h : s.protectedMode = false) (old : Seg) (selector : BitVec 16) :
    s.loadSeg old selector = some (old.reload selector) := by
  simp [loadSeg, h]

theorem loadSeg_protected {s : State} (h : s.protectedMode = true) (old : Seg)
    {selector : BitVec 16} {q : BitVec 64} (hq : s.descriptor selector = some q)
    (hdata : isSegment q false = true) :
    s.loadSeg old selector = some ⟨selector, descriptorBase q, descriptorBig q⟩ := by
  simp [loadSeg, h, hq, hdata]

/-- In protected mode, a segment is what its descriptor says. -/
theorem loadSeg_congr {s u : State} (h : s.protectedMode = true) (hcr0 : u.cr0 = s.cr0)
    (hgdt : u.gdt = s.gdt) (old old' : Seg) (selector : BitVec 16) :
    u.loadSeg old selector = s.loadSeg old' selector := by
  have hu : u.protectedMode = true := by
    rw [protectedMode, hcr0]
    exact h
  rw [loadSeg, loadSeg, if_pos h, if_pos hu, descriptor, descriptor, hgdt]

theorem farJump_cs {s t : State} {selector : BitVec 16} {big : Bool}
    (h : s.farJump selector big = some t) : t = { s with cs := ⟨selector, 0, big⟩ } := by
  unfold farJump at h
  split at h
  case isTrue =>
    obtain ⟨q, -, hq⟩ := Option.bind_eq_some_iff.mp h
    split at hq
    case isTrue => exact (Option.some.inj hq).symm
    case isFalse => cases hq
  case isFalse =>
    split at h
    case isTrue => exact (Option.some.inj h).symm
    case isFalse => cases h

theorem farJump_protected {s : State} (h : s.protectedMode = true) {selector : BitVec 16}
    {q : BitVec 64} (hq : s.descriptor selector = some q) (hcode : isSegment q true = true)
    (hbase : descriptorBase q = 0) :
    s.farJump selector (descriptorBig q) = some { s with cs := ⟨selector, 0, descriptorBig q⟩ } := by
  simp [farJump, h, hq, hcode, hbase]

/-- Without the bit PE, only a jump to segment 0 arrives. -/
theorem farJump_real {s : State} (h : s.protectedMode = false) (selector : BitVec 16) :
    s.farJump selector s.cs.big
      = if selector = 0 then some { s with cs := ⟨selector, 0, s.cs.big⟩ } else none := by
  simp [farJump, h]

/-- With the bit PE, no jump to the null selector arrives. -/
theorem farJump_null {s : State} (h : s.protectedMode = true) (big : Bool) :
    s.farJump 0 big = none := by
  simp [farJump, h, descriptor]

end State

end X86

import Hausboot.Lib.Query
import Hausboot.Lib.Store
import Hausboot.Types
import Mathlib.Data.UInt

/-! # pm86: The A20 Line

    `EnableA20` of `a20.cpp`, with the keyboard controller and the system
    control port that it goes through. The code is a program that asks: it reads
    and writes ports and bytes of memory, and it calls the BIOS. What answers is
    any hardware at all. With the line off, bit 20 of an address is lost, so that
    the byte at `ffff:0510` is the one at `0000:0500`.

    1. `testA20` succeeds only with the line on, and then in its first round
       unless `IoWait` switches the line. It leaves one byte changed.
    2. `enableLoop_rule` takes what each test and each method keeps through the
       rounds. So `enableA20` says whether the line is on (`enableA20_line`).
    3. Whatever is answered, no request resets the machine
       (`enableA20_meets`). -/

open QueryLib

namespace Hausboot.A20

/-! ## Section 1: Requests -/

/-- `IoReadByte`, `IoWriteByte`, `Peek`, `Poke` and `int $0x15`. -/
inductive Request where
  | inb (port : UInt16)
  | outb (port : UInt16) (val : UInt8)
  | peek (seg off : UInt16)
  | poke (seg off : UInt16) (v : UInt8)
  | int15 (eax : UInt32)

@[reducible] def Request.Answer : Request → Type
  | .inb _ | .peek _ _ => UInt8
  | .outb _ _ | .poke _ _ _ | .int15 _ => Unit

abbrev Program (α : Type) : Type := Query Request Request.Answer α

/-- `IoWait` -/
def ioWait : Program Unit := .ask (.outb 0x80 0) fun _ => .done ()

/-! ## Section 2: PS2Controller and SystemCtrlPort -/

def outputBufferFull : ℕ := 0x01

def inputBufferFull : ℕ := 0x02

/-- `Status` -/
def status : Program UInt8 := ioWait.bind fun _ => .ask (.inb 0x64) fun raw => .done raw

/-- `ReadData` -/
def readData : Program UInt8 := ioWait.bind fun _ => .ask (.inb 0x60) fun raw => .done raw

/-- The loop of `DrainBuffers`, with so many rounds to go. -/
def drainLoop : ℕ → ℕ → Program Bool
  | 0, _ => .done false
  | rounds + 1, ffCount =>
    status.bind fun raw =>
    -- probably no controller present?
    if raw = 0xFF then
      if ffCount > 32 then .done false else drainLoop rounds (ffCount + 1)
    else if FlagField.isSet raw.toNat outputBufferFull then
      readData.bind fun _ => drainLoop rounds 0
    else if !FlagField.isSet raw.toNat inputBufferFull then .done true
    else drainLoop rounds 0

def drainBuffers : Program Bool := drainLoop 100000 0

def sendCommand (cmd : UInt8) : Program Unit := .ask (.outb 0x64 cmd) fun _ => .done ()

def writeData (cmd : UInt8) : Program Unit := .ask (.outb 0x60 cmd) fun _ => .done ()

/-- `EnableA20Gate`. Only the first result of `DrainBuffers` is looked at. -/
def enableA20Gate : Program Bool :=
  drainBuffers.bind fun ok =>
  if !ok then .done false
  else
    (sendCommand 0xD1).bind fun _ =>
    drainBuffers.bind fun _ =>
    -- Turn A20 on
    (writeData 0xDF).bind fun _ =>
    drainBuffers.bind fun _ =>
    -- Null command, required by UHCI
    (sendCommand 0xFF).bind fun _ =>
    drainBuffers.bind fun _ => .done true

def fastReset : ℕ := 0x01

def portAEnableA20 : ℕ := 0x02

/-- `EnableFastA20` -/
def enableFastA20 : Program Unit :=
  .ask (.inb 0x92) fun ctrlA =>
  .ask (.outb 0x92 (UInt8.ofNat
    (FlagField.clear 8 (FlagField.set ctrlA.toNat portAEnableA20) fastReset))) fun _ => .done ()

/-! ## Section 3: TestA20 and EnableA20 -/

/-- The loop of `TestA20` from round `i` on, with so many rounds to go. The
    second byte is looked at if the first one is right. -/
def testLoop (old : UInt8) : ℕ → ℕ → Program Bool
  | 0, _ => .ask (.poke 0x0000 0x0500 old) fun _ => .done false
  | rounds + 1, i =>
    .ask (.poke 0x0000 0x0500 (UInt8.ofNat (0xAA ^^^ i))) fun _ =>
    .ask (.poke 0xFFFF 0x0510 (UInt8.ofNat (0x55 ^^^ i))) fun _ =>
    ioWait.bind fun _ =>
    .ask (.peek 0x0000 0x0500) fun low =>
    if low.toNat = 0xAA ^^^ i then
      .ask (.peek 0xFFFF 0x0510) fun high =>
      if high.toNat = 0x55 ^^^ i then .ask (.poke 0x0000 0x0500 old) fun _ => .done true
      else testLoop old rounds (i + 1)
    else testLoop old rounds (i + 1)

def testA20 : Program Bool := .ask (.peek 0x0000 0x0500) fun old => testLoop old 100 0

/-- The loop of `EnableA20`, with so many rounds to go. -/
def enableLoop : ℕ → Program Bool
  | 0 => .done false
  | rounds + 1 =>
    testA20.bind fun on => if on then .done true else
    -- Try using INT 15 service
    .ask (.int15 0x2401) fun _ =>
    testA20.bind fun on => if on then .done true else
    -- Try via the keyboard controller
    enableA20Gate.bind fun sent =>
    (if sent then testA20 else .done false).bind fun on => if on then .done true else
    -- Try fast A20 enable via system CTRL port A
    enableFastA20.bind fun _ =>
    testA20.bind fun on => if on then .done true else enableLoop rounds

def enableA20 : Program Bool := enableLoop 256

/-! ## Section 4: Hardware -/

/-- The memory, the line, and the state of everything else. -/
structure Pc (D : Type) where
  mem : Store
  line : Bool
  dev : D

/-- Ports can do anything to the line and to devices, and the BIOS to memory as
    well. -/
structure Hardware (D : Type) where
  inb : UInt16 → Bool × D → UInt8 × Bool × D
  outb : UInt16 → UInt8 → Bool × D → Bool × D
  int15 : UInt32 → Pc D → Pc D

/-- The physical address of a byte. With the line off, bit 20 is lost. -/
def physical (line : Bool) (seg off : UInt16) : ℕ :=
  let address := seg.toNat * 16 + off.toNat
  if line then address else address % 2 ^ 20

namespace Hardware

variable {D : Type} (hw : Hardware D)

def serve (s : Pc D) : (i : Request) → i.Answer × Pc D
  | .inb port =>
    let (v, line, dev) := hw.inb port (s.line, s.dev)
    (v, { s with line := line, dev := dev })
  | .outb port val =>
    let (line, dev) := hw.outb port val (s.line, s.dev)
    ((), { s with line := line, dev := dev })
  | .peek seg off => (s.mem (physical s.line seg off), s)
  | .poke seg off v => ((), { s with mem := Function.update s.mem (physical s.line seg off) v })
  | .int15 eax => ((), hw.int15 eax s)

def run {α : Type} (s : Pc D) (q : Program α) : α × Pc D := q.run hw.serve s

/-- A write to the port that `IoWait` uses does not switch the line. -/
def Steady : Prop := ∀ v s, (hw.outb 0x80 v s).1 = s.1

/-- The BIOS service leaves memory alone. -/
def KeepsMemory : Prop := ∀ eax s, (hw.int15 eax s).mem = s.mem

end Hardware

section Run

variable {D : Type} {hw : Hardware D} {α β : Type}

@[simp] theorem run_done (s : Pc D) (a : α) : hw.run s (.done a) = (a, s) := rfl

@[simp] theorem run_ask (s : Pc D) (i : Request) (k : i.Answer → Program α) :
    hw.run s (.ask i k) = hw.run (hw.serve s i).2 (k (hw.serve s i).1) := rfl

theorem run_bind (s : Pc D) (q : Program α) (f : α → Program β) :
    hw.run s (q.bind f) = hw.run (hw.run s q).2 (f (hw.run s q).1) := Query.run_bind q f s

/-! ## Section 5: One test -/

/-- The address that `ffff:0510` stands for. -/
def highAddress (line : Bool) : ℕ := if line then 0x100500 else 0x500

theorem physical_low (line : Bool) : physical line 0x0000 0x0500 = 0x500 := by
  cases line <;> rfl

theorem physical_high (line : Bool) : physical line 0xFFFF 0x0510 = highAddress line := by
  cases line <;> rfl

/-- The memory after both bytes have been written. -/
def probed (s : Pc D) (i : ℕ) : Store :=
  Function.update (Function.update s.mem 0x500 (UInt8.ofNat (0xAA ^^^ i))) (highAddress s.line)
    (UInt8.ofNat (0x55 ^^^ i))

/-- `IoWait` in front of the reads. -/
def waited (hw : Hardware D) (s : Pc D) (i : ℕ) : Pc D :=
  (hw.run { s with mem := probed s i } ioWait).2

theorem mem_waited (s : Pc D) (i : ℕ) : (waited hw s i).mem = probed s i := rfl

/-- Either byte is the number that the test compares it with. -/
theorem toNat_pattern {p i : ℕ} (hp : p < 256) (hi : i < 256) :
    (UInt8.ofNat (p ^^^ i)).toNat = p ^^^ i := by
  have hlt : p ^^^ i < 2 ^ 8 := Nat.xor_lt_two_pow hp hi
  rw [UInt8.toNat_ofNat']
  exact Nat.mod_eq_of_lt hlt

theorem pattern_ne (i : ℕ) : 0x55 ^^^ i ≠ 0xAA ^^^ i := fun h =>
  absurd (Nat.xor_left_inj.mp h) (by decide)

/-- **One round.** It succeeds exactly if the line is on for the writes and for
    the reads. -/
theorem run_testLoop_succ (s : Pc D) (old : UInt8) (rounds : ℕ) {i : ℕ} (hi : i < 256) :
    hw.run s (testLoop old (rounds + 1) i) =
      if s.line = true ∧ (waited hw s i).line = true then
        (true, { waited hw s i with mem := Function.update (probed s i) 0x500 old })
      else hw.run (waited hw s i) (testLoop old rounds (i + 1)) := by
  have hlow : (waited hw s i).mem 0x500 =
      UInt8.ofNat (if s.line then 0xAA ^^^ i else 0x55 ^^^ i) := by
    rw [mem_waited, probed]
    cases s.line <;> rfl
  have hhigh : s.line = true → (waited hw s i).mem (highAddress (waited hw s i).line) =
      UInt8.ofNat (if (waited hw s i).line then 0x55 ^^^ i else 0xAA ^^^ i) := by
    intro hline
    rw [mem_waited, probed, hline]
    cases (waited hw s i).line <;> rfl
  rw [testLoop]
  simp only [run_ask, run_bind, Hardware.serve, physical_low, physical_high]
  change hw.run (waited hw s i)
    (if ((waited hw s i).mem 0x500).toNat = 0xAA ^^^ i then _ else _) = _
  rw [hlow]
  cases hline : s.line with
  | false =>
    -- the second write has hit the first byte
    have hne : (UInt8.ofNat (0x55 ^^^ i)).toNat ≠ 0xAA ^^^ i := by
      rw [toNat_pattern (by decide) hi]
      exact pattern_ne i
    simp only [Bool.false_eq_true, if_false, false_and]
    rw [if_neg hne]
  | true =>
    rw [if_pos rfl, if_pos (toNat_pattern (by decide) hi), run_ask]
    simp only [Hardware.serve, physical_high, hhigh hline]
    cases hon : (waited hw s i).line with
    | false =>
      have hne : (UInt8.ofNat (0xAA ^^^ i)).toNat ≠ 0x55 ^^^ i := by
        rw [toNat_pattern (by decide) hi]
        exact (pattern_ne i).symm
      simp only [Bool.false_eq_true, if_false, and_false]
      rw [if_neg hne]
    | true =>
      rw [if_pos rfl, if_pos (toNat_pattern (by decide) hi), run_ask, if_pos ⟨trivial, rfl⟩]
      simp only [Hardware.serve, physical_low, hon, run_done, mem_waited]

/-- Only the two bytes are written. -/
theorem probed_apply (s : Pc D) (i : ℕ) {a : ℕ} (hlow : a ≠ 0x500) (hhigh : a ≠ 0x100500) :
    probed s i a = s.mem a := by
  have hne : a ≠ highAddress s.line := by
    rw [highAddress]
    split
    · exact hhigh
    · exact hlow
  rw [probed, Function.update_of_ne hne, Function.update_of_ne hlow]

/-- The byte that is put back hides the others, with the line off. -/
theorem update_probed_off {s : Pc D} (hoff : s.line = false) (i : ℕ) (old : UInt8) :
    Function.update (probed s i) 0x500 old = Function.update s.mem 0x500 old := by
  rw [probed, hoff]
  show Function.update (Function.update (Function.update _ _ _) 0x500 _) _ _ = _
  rw [Function.update_idem, Function.update_idem]

/-- A test that succeeds leaves the line on. The induction is on the rounds. -/
theorem testLoop_line (old : UInt8) {rounds i : ℕ} (hle : i + rounds ≤ 256) (s : Pc D)
    (h : (hw.run s (testLoop old rounds i)).1 = true) :
    (hw.run s (testLoop old rounds i)).2.line = true := by
  induction rounds generalizing i s with
  | zero => cases h
  | succ rounds ih =>
    rw [run_testLoop_succ s old rounds (by omega)] at h ⊢
    split at h
    · next hon =>
      rw [if_pos hon]
      exact hon.2
    · next hoff =>
      rw [if_neg hoff]
      exact ih (by omega) _ h

/-- Nothing but the two bytes is written, and the first one is put back. -/
theorem testLoop_mem (old : UInt8) {rounds i : ℕ} (hle : i + rounds ≤ 256) (s : Pc D) {a : ℕ}
    (ha : a ≠ 0x100500) :
    (hw.run s (testLoop old rounds i)).2.mem a = Function.update s.mem 0x500 old a := by
  induction rounds generalizing i s with
  | zero => rw [testLoop, run_ask, Hardware.serve, physical_low, run_done]
  | succ rounds ih =>
    have hsame : Function.update (probed s i) 0x500 old a = Function.update s.mem 0x500 old a := by
      by_cases hlow : a = 0x500
      · rw [hlow, Function.update_self, Function.update_self]
      · rw [Function.update_of_ne hlow, Function.update_of_ne hlow, probed_apply s i hlow ha]
    rw [run_testLoop_succ s old rounds (by omega)]
    split
    · exact hsame
    · exact (ih (by omega) _).trans hsame

/-- The first read gives the byte that is put back in the end. -/
theorem run_testA20 (s : Pc D) :
    hw.run s testA20 = hw.run s (testLoop (s.mem 0x500) 100 0) := by
  rw [testA20, run_ask]
  simp only [Hardware.serve, physical_low]

theorem testA20_line (s : Pc D) (h : (hw.run s testA20).1 = true) :
    (hw.run s testA20).2.line = true := by
  rw [run_testA20] at h ⊢
  exact testLoop_line _ (by decide) s h

/-- A test changes no byte but the one at `ffff:0510`. -/
theorem testA20_mem (s : Pc D) {a : ℕ} (ha : a ≠ 0x100500) :
    (hw.run s testA20).2.mem a = s.mem a := by
  rw [run_testA20, testLoop_mem _ (by decide) s ha, Function.update_eq_self]

/-! ### Hardware on which `IoWait` is harmless -/

section Steady

variable (hsteady : hw.Steady)
include hsteady

theorem line_waited (s : Pc D) (i : ℕ) : (waited hw s i).line = s.line := hsteady 0 (s.line, s.dev)

/-- With the line off, every round fails. -/
theorem testLoop_off (old : UInt8) {rounds i : ℕ} (hle : i + rounds ≤ 256) {s : Pc D}
    (hoff : s.line = false) :
    (hw.run s (testLoop old rounds i)).1 = false ∧
      (hw.run s (testLoop old rounds i)).2.line = false ∧
      (hw.run s (testLoop old rounds i)).2.mem = Function.update s.mem 0x500 old := by
  induction rounds generalizing i s with
  | zero =>
    rw [testLoop, run_ask, Hardware.serve, physical_low, run_done]
    exact ⟨rfl, hoff, rfl⟩
  | succ rounds ih =>
    have hon : ¬(s.line = true ∧ (waited hw s i).line = true) := by simp [hoff]
    have hoff' : (waited hw s i).line = false := (line_waited hsteady s i).trans hoff
    rw [run_testLoop_succ s old rounds (by omega), if_neg hon, ← update_probed_off hoff i old]
    exact ih (by omega) hoff'

/-- With the line off, a test leaves nothing behind. -/
theorem testA20_off {s : Pc D} (hoff : s.line = false) :
    (hw.run s testA20).1 = false ∧ (hw.run s testA20).2.line = false ∧
      (hw.run s testA20).2.mem = s.mem := by
  have htest := testLoop_off hsteady (s.mem 0x500) (show 0 + 100 ≤ 256 by decide) hoff
  rwa [Function.update_eq_self, ← run_testA20] at htest

/-- With the line on, the first round succeeds. -/
theorem testA20_on {s : Pc D} (hon : s.line = true) :
    (hw.run s testA20).1 = true ∧ (hw.run s testA20).2.line = true ∧
      (hw.run s testA20).2.mem = Function.update s.mem 0x100500 0x55 := by
  have hwait : (waited hw s 0).line = true := (line_waited hsteady s 0).trans hon
  have hmem : Function.update (probed s 0) 0x500 (s.mem 0x500) =
      Function.update s.mem 0x100500 0x55 := by
    rw [probed, hon, highAddress, if_pos rfl, Function.update_comm (by decide),
      Function.update_idem, Function.update_eq_self]
    rfl
  rw [run_testA20, run_testLoop_succ s _ 99 (by decide), if_pos ⟨hon, hwait⟩, hmem]
  exact ⟨rfl, hwait, rfl⟩

end Steady

/-! ## Section 6: The methods -/

/-- Reading and writing ports. -/
def Request.IsPort : Request → Prop
  | .inb _ | .outb _ _ => True
  | .peek _ _ | .poke _ _ _ | .int15 _ => False

theorem mem_of_ports {q : Program α} (h : q.Asks Request.IsPort) (s : Pc D) :
    (hw.run s q).2.mem = s.mem := by
  induction q generalizing s with
  | done a => rfl
  | ask i k ih =>
    rw [run_ask, ih _ (h.2 _)]
    cases i with
    | inb | outb => rfl
    | peek | poke | int15 => exact h.1.elim

section Asks

variable {P : Request → Prop} (hwait : P (.outb 0x80 0)) (hstatus : P (.inb 0x64))
  (hdata : P (.inb 0x60))
include hwait hstatus hdata

theorem drainLoop_asks (rounds ffCount : ℕ) : (drainLoop rounds ffCount).Asks P := by
  induction rounds generalizing ffCount with
  | zero => trivial
  | succ rounds ih =>
    refine ⟨hwait, fun _ => ⟨hstatus, fun raw => ?_⟩⟩
    show Query.Asks P (if raw = 0xFF then _ else _)
    split
    · split
      · trivial
      · exact ih _
    split
    · exact ⟨hwait, fun _ => ⟨hdata, fun _ => ih 0⟩⟩
    split
    · trivial
    · exact ih 0

/-- What the keyboard controller is asked for. -/
theorem enableA20Gate_asks (henable : P (.outb 0x64 0xD1)) (hport : P (.outb 0x60 0xDF))
    (hnull : P (.outb 0x64 0xFF)) : enableA20Gate.Asks P := by
  have hdrain : drainBuffers.Asks P := drainLoop_asks hwait hstatus hdata _ _
  refine hdrain.bind fun ok => ?_
  split
  · trivial
  refine ⟨henable, fun _ => hdrain.bind fun _ => ⟨hport, fun _ => hdrain.bind fun _ => ?_⟩⟩
  exact ⟨hnull, fun _ => hdrain.bind fun _ => trivial⟩

end Asks

theorem gate_mem (s : Pc D) : (hw.run s enableA20Gate).2.mem = s.mem :=
  mem_of_ports (enableA20Gate_asks trivial trivial trivial trivial trivial trivial) s

theorem fast_mem (s : Pc D) : (hw.run s enableFastA20).2.mem = s.mem := by
  have hports : enableFastA20.Asks Request.IsPort := ⟨trivial, fun _ => ⟨trivial, fun _ => trivial⟩⟩
  exact mem_of_ports hports s

/-! ## Section 7: EnableA20 -/

/-- How a run ends: with `true` in `On`, or with `false` in `Off`. -/
def Ends (On Off : Pc D → Prop) (r : Bool × Pc D) : Prop := if r.1 then On r.2 else Off r.2

section Rule

variable {I On Off : Pc D → Prop}
  (htest : ∀ s, I s → Ends On (fun s' => Off s' ∧ I s') (hw.run s testA20))
include htest

/-- One test, and what is done if it fails. -/
theorem ends_test {s : Pc D} (hs : I s) {next : Program Bool}
    (hnext : ∀ s', Off s' → I s' → Ends On Off (hw.run s' next)) :
    Ends On Off (hw.run s (testA20.bind fun on => if on then .done true else next)) := by
  have hends := htest s hs
  rw [run_bind]
  generalize hw.run s testA20 = r at hends
  obtain ⟨on, s'⟩ := r
  cases on with
  | true => exact hends
  | false => exact hnext s' hends.1 hends.2

variable (hbios : ∀ s, I s → I (hw.int15 0x2401 s))
  (hgate : ∀ s, I s → I (hw.run s enableA20Gate).2)
  (hfast : ∀ s, I s → I (hw.run s enableFastA20).2)
include hbios hgate hfast

/-- One round, with what comes after it. -/
theorem enableLoop_round {rounds : ℕ}
    (hrest : ∀ s', Off s' → I s' → Ends On Off (hw.run s' (enableLoop rounds))) {s : Pc D}
    (hs : I s) : Ends On Off (hw.run s (enableLoop (rounds + 1))) := by
  -- the last method is tried whether or not the keyboard controller has answered
  have hlast : ∀ s', I s' → Ends On Off (hw.run s' (enableFastA20.bind fun _ =>
      testA20.bind fun on => if on then .done true else enableLoop rounds)) := by
    intro s' hs'
    rw [run_bind]
    exact ends_test htest (hfast s' hs') hrest
  refine ends_test htest hs fun s₁ _ h₁ => ?_
  rw [run_ask]
  refine ends_test htest (hbios s₁ h₁) fun s₂ _ h₂ => ?_
  have h₃ := hgate s₂ h₂
  rw [run_bind]
  generalize hw.run s₂ enableA20Gate = r at h₃
  obtain ⟨sent, s₃⟩ := r
  cases sent with
  | true => exact ends_test htest h₃ fun s' _ => hlast s'
  | false => exact hlast s₃ h₃

/-- **The rule for the loop.** The induction is on the rounds. -/
theorem enableLoop_rule (rounds : ℕ) {s : Pc D} (hs : I s) :
    Ends On Off (hw.run s (enableLoop (rounds + 1))) := by
  induction rounds generalizing s with
  | zero =>
    have hdone : ∀ s', Off s' → I s' → Ends On Off (hw.run s' (enableLoop 0)) :=
      fun _ hoff _ => hoff
    exact enableLoop_round htest hbios hgate hfast hdone hs
  | succ rounds ih =>
    exact enableLoop_round htest hbios hgate hfast (fun _ _ hs' => ih hs') hs

end Rule

/-- Whatever the ports, the BIOS and `IoWait` do, `EnableA20` succeeds only with
    the line on. -/
theorem enableA20_sound (s : Pc D) (h : (hw.run s enableA20).1 = true) :
    (hw.run s enableA20).2.line = true := by
  have htest : ∀ s' : Pc D, True →
      Ends (fun s => s.line = true) (fun _ => True ∧ True) (hw.run s' testA20) := by
    intro s' _
    rw [Ends]
    split
    · next hon => exact testA20_line s' hon
    · exact ⟨trivial, trivial⟩
  have hends : Ends (fun s => s.line = true) (fun _ => True) (hw.run s enableA20) :=
    enableLoop_rule (I := fun _ => True) htest (fun _ _ => trivial) (fun _ _ => trivial)
      (fun _ _ => trivial) 255 trivial
  rwa [Ends, if_pos h] at hends

/-- On any hardware with a BIOS that leaves memory alone, no byte changes but the
    one at `ffff:0510`. -/
theorem enableA20_mem (hbios : hw.KeepsMemory) (s : Pc D) {a : ℕ} (ha : a ≠ 0x100500) :
    (hw.run s enableA20).2.mem a = s.mem a := by
  have htest : ∀ s' : Pc D, s'.mem a = s.mem a →
      Ends (fun s' => s'.mem a = s.mem a) (fun s' => s'.mem a = s.mem a ∧ s'.mem a = s.mem a)
        (hw.run s' testA20) := by
    intro s' hmem
    have hmem' : (hw.run s' testA20).2.mem a = s.mem a := (testA20_mem s' ha).trans hmem
    rw [Ends]
    split
    · exact hmem'
    · exact ⟨hmem', hmem'⟩
  have hends : Ends (fun s' => s'.mem a = s.mem a) (fun s' => s'.mem a = s.mem a)
      (hw.run s enableA20) :=
    enableLoop_rule (I := fun s' => s'.mem a = s.mem a) htest
      (fun s' hs' => (congrFun (hbios _ s') a).trans hs')
      (fun s' hs' => (congrFun (gate_mem s') a).trans hs')
      (fun s' hs' => (congrFun (fast_mem s') a).trans hs') 255 rfl
  rw [Ends, ite_self] at hends
  exact hends

/-- **EnableA20 tells the truth.** Where `IoWait` does not switch the line, it
    returns whether the line is on. Memory is as it was, but for one byte that a
    test which has succeeded leaves at `ffff:0510`. -/
theorem enableA20_line (hsteady : hw.Steady) (hbios : hw.KeepsMemory) (s : Pc D) :
    (hw.run s enableA20).1 = (hw.run s enableA20).2.line ∧
      (hw.run s enableA20).2.mem =
        if (hw.run s enableA20).1 then Function.update s.mem 0x100500 0x55 else s.mem := by
  have htest : ∀ s' : Pc D, s'.mem = s.mem →
      Ends (fun s' => s'.line = true ∧ s'.mem = Function.update s.mem 0x100500 0x55)
        (fun s' => (s'.line = false ∧ s'.mem = s.mem) ∧ s'.mem = s.mem) (hw.run s' testA20) := by
    intro s' hmem
    cases hline : s'.line with
    | true =>
      obtain ⟨hres, hon, hmem'⟩ := testA20_on hsteady hline
      rw [Ends, if_pos hres, hmem', hmem]
      exact ⟨hon, rfl⟩
    | false =>
      obtain ⟨hres, hoff, hmem'⟩ := testA20_off hsteady hline
      rw [Ends, hres, hmem', hmem]
      exact ⟨⟨hoff, rfl⟩, rfl⟩
  have hends : Ends (fun s' => s'.line = true ∧ s'.mem = Function.update s.mem 0x100500 0x55)
      (fun s' => s'.line = false ∧ s'.mem = s.mem) (hw.run s enableA20) :=
    enableLoop_rule (I := fun s' => s'.mem = s.mem) htest (fun s' hs' => (hbios _ s').trans hs')
      (fun s' hs' => (gate_mem s').trans hs') (fun s' hs' => (fast_mem s').trans hs') 255 rfl
  rw [Ends] at hends
  split at hends
  · next hres =>
    rw [if_pos hres]
    exact ⟨hres.trans hends.1.symm, hends.2⟩
  · next hres =>
    rw [if_neg hres]
    exact ⟨(Bool.not_eq_true _ ▸ hres).trans hends.1.symm, hends.2⟩

end Run

/-- Hardware on which only the system control port switches the line. -/
def fastOnly : Hardware Unit where
  inb _ s := (0, s)
  outb port v s := (s.1 || (port == 0x92 && v.toNat.testBit 1), s.2)
  int15 _ s := s

set_option maxRecDepth 3000

theorem enableA20_line_fastOnly :
    (fastOnly.run ⟨fun _ => 0, false, ()⟩ enableA20).1 = true ∧
      (fastOnly.run ⟨fun _ => 0, false, ()⟩ enableA20).2.line = true ∧
      (fastOnly.run ⟨fun _ => 0, false, ()⟩ enableA20).2.mem =
        Function.update (fun _ => 0) 0x100500 0x55 := by
  have hsteady : fastOnly.Steady := fun v s => by simp [fastOnly]
  have hres : (fastOnly.run ⟨fun _ => 0, false, ()⟩ enableA20).1 = true := by decide
  obtain ⟨hline, hmem⟩ := enableA20_line hsteady (fun _ _ => rfl) ⟨fun _ => 0, false, ()⟩
  rw [if_pos hres] at hmem
  exact ⟨hres, hline ▸ hres, hmem⟩

/-! ## Section 8: What the hardware is asked for -/

/-- A request that resets the machine: the fast reset bit, a pulse on the first
    output of the keyboard controller, or its output port with that bit clear. -/
def Request.Resets : Request → Prop
  | .outb port val =>
    port = 0x92 ∧ val.toNat.testBit 0 = true ∨
    port = 0x64 ∧ 0xF0 ≤ val.toNat ∧ val.toNat.testBit 0 = false ∨
    port = 0x60 ∧ val.toNat.testBit 0 = false
  | .inb _ | .peek _ _ | .poke _ _ _ | .int15 _ => False

/-- The ports, the bytes and the service that the code uses. -/
def Request.InReach : Request → Prop
  | .inb port => port = 0x60 ∨ port = 0x64 ∨ port = 0x92
  | .outb port _ => port = 0x60 ∨ port = 0x64 ∨ port = 0x80 ∨ port = 0x92
  | .peek seg off | .poke seg off _ => seg = 0x0000 ∧ off = 0x0500 ∨ seg = 0xFFFF ∧ off = 0x0510
  | .int15 eax => eax = 0x2401

/-- The command that lets the keyboard controller switch the line. -/
def writeOutputPort : Request := .outb 0x64 0xD1

/-- Any other request that does no harm. -/
def Request.Harmless (r : Request) : Prop := r.InReach ∧ ¬r.Resets ∧ r ≠ writeOutputPort

theorem harmless_wait : Request.Harmless (.outb 0x80 0) :=
  ⟨.inr (.inr (.inl rfl)), by simp [Request.Resets], by simp [writeOutputPort]⟩

theorem harmless_inb {port : UInt16} (h : Request.InReach (.inb port)) :
    Request.Harmless (.inb port) :=
  ⟨h, id, Request.noConfusion⟩

theorem harmless_peek {seg off : UInt16} (h : Request.InReach (.peek seg off)) :
    Request.Harmless (.peek seg off) :=
  ⟨h, id, Request.noConfusion⟩

theorem harmless_poke {seg off : UInt16} (h : Request.InReach (.peek seg off)) (v : UInt8) :
    Request.Harmless (.poke seg off v) :=
  ⟨h, id, Request.noConfusion⟩

theorem testLoop_asks (old : UInt8) (rounds i : ℕ) :
    (testLoop old rounds i).Asks Request.Harmless := by
  have hlow : Request.InReach (.peek 0x0000 0x0500) := .inl ⟨rfl, rfl⟩
  have hhigh : Request.InReach (.peek 0xFFFF 0x0510) := .inr ⟨rfl, rfl⟩
  induction rounds generalizing i with
  | zero => exact ⟨harmless_poke hlow old, fun _ => trivial⟩
  | succ rounds ih =>
    refine ⟨harmless_poke hlow _, fun _ => ⟨harmless_poke hhigh _, fun _ => ⟨harmless_wait, fun _ =>
      ⟨harmless_peek hlow, fun low => ?_⟩⟩⟩⟩
    dsimp only
    split
    · refine ⟨harmless_peek hhigh, fun high => ?_⟩
      dsimp only
      split
      · exact ⟨harmless_poke hlow old, fun _ => trivial⟩
      · exact ih _
    · exact ih _

theorem testA20_asks : testA20.Asks Request.Harmless :=
  ⟨harmless_peek (.inl ⟨rfl, rfl⟩), fun old => testLoop_asks old 100 0⟩

theorem drainBuffers_asks : drainBuffers.Asks Request.Harmless :=
  drainLoop_asks harmless_wait (harmless_inb (.inr (.inl rfl))) (harmless_inb (.inl rfl)) _ _

/-- Whatever the port has, the fast reset bit is not written. -/
theorem testBit_fastA20 (ctrlA : UInt8) :
    (UInt8.ofNat (FlagField.clear 8 (FlagField.set ctrlA.toNat portAEnableA20)
      fastReset)).toNat.testBit 0 = false := by
  rw [UInt8.toNat_ofNat', Nat.testBit_mod_two_pow, FlagField.clear, Nat.testBit_and]
  simp [fastReset]

theorem enableFastA20_asks : enableFastA20.Asks Request.Harmless := by
  refine ⟨harmless_inb (.inr (.inr rfl)), fun ctrlA => ⟨⟨.inr (.inr (.inr rfl)), ?_, ?_⟩, fun _ =>
    trivial⟩⟩
  · rintro (⟨-, hbit⟩ | ⟨hport, -⟩ | ⟨hport, -⟩)
    · rw [testBit_fastA20] at hbit
      cases hbit
    · exact absurd hport (by decide)
    · exact absurd hport (by decide)
  · simp [writeOutputPort]

/-! ### The keyboard controller -/

/-- Both buffers are empty. -/
def BuffersEmpty (raw : UInt8) : Prop :=
  FlagField.isSet raw.toNat outputBufferFull = false ∧
    FlagField.isSet raw.toNat inputBufferFull = false

/-- The same hardware, with a note of the status that was read last. -/
def Hardware.watched {D : Type} (hw : Hardware D) : Hardware (UInt8 × D) where
  inb port s :=
    let (v, line, dev) := hw.inb port (s.1, s.2.2)
    (v, line, if port = 0x64 then v else s.2.1, dev)
  outb port val s :=
    let (line, dev) := hw.outb port val (s.1, s.2.2)
    (line, s.2.1, dev)
  int15 eax s :=
    let s' := hw.int15 eax ⟨s.mem, s.line, s.dev.2⟩
    ⟨s'.mem, s'.line, s.dev.1, s'.dev⟩

section Watched

variable {D : Type} (hw : Hardware D)

/-- The requests that are made at all do no harm, and the command is sent only
    where both buffers were empty. -/
def Allowed (s : Pc (UInt8 × D)) (r : Request) : Prop :=
  r.InReach ∧ ¬r.Resets ∧ (r = writeOutputPort → BuffersEmpty s.dev.1)

theorem Request.Harmless.allowed {r : Request} (h : r.Harmless) (s : Pc (UInt8 × D)) :
    Allowed s r := ⟨h.1, h.2.1, fun heq => absurd heq h.2.2⟩

theorem allowed_of_asks {α : Type} {q : Program α} (h : q.Asks Request.Harmless)
    (s : Pc (UInt8 × D)) : q.Meets hw.watched.serve Allowed s :=
  h.meets (fun s _ hr => hr.allowed s) s

/-- Success means that the last status was that of empty buffers. -/
theorem drainLoop_empty (rounds ffCount : ℕ) (s : Pc (UInt8 × D))
    (h : (hw.watched.run s (drainLoop rounds ffCount)).1 = true) :
    BuffersEmpty (hw.watched.run s (drainLoop rounds ffCount)).2.dev.1 := by
  induction rounds generalizing ffCount s with
  | zero => cases h
  | succ rounds ih =>
    have hraw : (hw.watched.run s status).2.dev.1 = (hw.watched.run s status).1 := rfl
    rw [drainLoop, run_bind] at h ⊢
    generalize hw.watched.run s status = r at h hraw ⊢
    obtain ⟨raw, s₁⟩ := r
    dsimp only at h hraw ⊢
    split at h
    · next hff =>
      rw [if_pos hff]
      split at h
      · cases h
      · next hcount =>
        rw [if_neg hcount]
        exact ih _ _ h
    next hff =>
    rw [if_neg hff]
    split at h
    · next hout =>
      rw [if_pos hout, run_bind]
      rw [run_bind] at h
      exact ih _ _ h
    next hout =>
    rw [if_neg hout]
    split at h
    · next hin =>
      rw [if_pos hin]
      show BuffersEmpty s₁.dev.1
      rw [hraw]
      exact ⟨by simpa using hout, by simpa using hin⟩
    · next hin =>
      rw [if_neg hin]
      exact ih _ _ h

/-- What follows the command. -/
theorem afterCommand_asks :
    (drainBuffers.bind fun _ => (writeData 0xDF).bind fun _ => drainBuffers.bind fun _ =>
      (sendCommand 0xFF).bind fun _ => drainBuffers.bind fun _ => .done true).Asks
        Request.Harmless := by
  have hport : Request.Harmless (.outb 0x60 0xDF) :=
    ⟨.inl rfl, by simp [Request.Resets], by simp [writeOutputPort]⟩
  have hnull : Request.Harmless (.outb 0x64 0xFF) :=
    ⟨.inr (.inl rfl), by simp [Request.Resets], by simp [writeOutputPort]⟩
  refine drainBuffers_asks.bind fun _ => ⟨hport, fun _ => drainBuffers_asks.bind fun _ => ?_⟩
  exact ⟨hnull, fun _ => drainBuffers_asks.bind fun _ => trivial⟩

theorem enableA20Gate_meets (s : Pc (UInt8 × D)) :
    enableA20Gate.Meets hw.watched.serve Allowed s := by
  have hdrain : (drainBuffers.run hw.watched.serve s).1 = true →
      BuffersEmpty (drainBuffers.run hw.watched.serve s).2.dev.1 := drainLoop_empty hw 100000 0 s
  refine (allowed_of_asks hw drainBuffers_asks s).bind ?_
  generalize drainBuffers.run hw.watched.serve s = r at hdrain ⊢
  obtain ⟨ok, s₁⟩ := r
  cases ok with
  | false => trivial
  | true =>
    have hcommand : Allowed s₁ writeOutputPort :=
      ⟨.inr (.inl rfl), by simp [writeOutputPort, Request.Resets], fun _ => hdrain rfl⟩
    exact ⟨hcommand, allowed_of_asks hw afterCommand_asks _⟩

theorem enableLoop_meets (rounds : ℕ) (s : Pc (UInt8 × D)) :
    (enableLoop rounds).Meets hw.watched.serve Allowed s := by
  induction rounds generalizing s with
  | zero => trivial
  | succ rounds ih =>
    have htest : ∀ next : Program Bool, (∀ s, next.Meets hw.watched.serve Allowed s) → ∀ s,
        (testA20.bind fun on => if on then .done true else next).Meets hw.watched.serve Allowed
          s := by
      intro next hnext s
      refine (allowed_of_asks hw testA20_asks s).bind ?_
      split
      · trivial
      · exact hnext _
    have hlast : ∀ s, (enableFastA20.bind fun _ => testA20.bind fun on =>
        if on then .done true else enableLoop rounds).Meets hw.watched.serve Allowed s :=
      fun s => (allowed_of_asks hw enableFastA20_asks s).bind (htest _ ih _)
    have hbios : ∀ s : Pc (UInt8 × D), Allowed s (.int15 0x2401) :=
      fun s => ⟨rfl, id, fun heq => Request.noConfusion heq⟩
    rw [enableLoop]
    refine htest _ ?_ s
    intro s₁
    refine ⟨hbios s₁, htest _ ?_ _⟩
    intro s₂
    refine (enableA20Gate_meets hw s₂).bind ?_
    split
    · exact htest _ hlast _
    · exact hlast _

/-- **Nothing is broken on the way.** On any hardware, whatever it answers,
    `EnableA20` never resets the machine, keeps to its ports and its two bytes of
    memory, and sends the keyboard controller the command only where the status
    that it has read last was that of empty buffers. -/
theorem enableA20_meets (s : Pc (UInt8 × D)) : enableA20.Meets hw.watched.serve Allowed s :=
  enableLoop_meets hw 256 s

end Watched

end Hausboot.A20

import Hausboot.Kernel.VideoMemory

/-! # The Kernel Console: When It Survives

    What a console of 80 by 25 cells should do (`Screen`), and when the code
    does it. `ScrollUp` never returns: its second loop does not advance. So the
    code follows the console up to the first line break that would leave the
    last row, and no further (`survives_iff`). -/

open ByteLib

namespace Hausboot

namespace VideoMemory

/-! ## Section 1: A console -/

/-- What is on the console, and where the cursor is. -/
structure Screen where
  cells : Nat → UInt16
  x : Nat
  y : Nat

namespace Screen

variable (blank : UInt16)

/-- The rows move up by one and the last one becomes blank. -/
def scroll (s : Screen) : Screen :=
  { s with cells := fun i => if i < (height - 1) * width then s.cells (i + width) else blank }

/-- The cursor moves down; in the last row, the rows move up instead. -/
def lineFeed (s : Screen) : Screen :=
  if s.y + 1 < height then { s with y := s.y + 1 } else s.scroll blank

/-- A character at the cursor, in the color of the cell. -/
def type (s : Screen) (c : UInt8) : Screen :=
  let i := s.y * width + s.x
  let cells := fun j => if j = i then VidMemCell.setChar (s.cells i) c else s.cells j
  if s.x + 1 < width then { s with cells := cells, x := s.x + 1 }
  else { s with cells := cells, x := 0 }.lineFeed blank

/-- Blanks up to the next tab stop. -/
def tab (s : Screen) : Screen := (fun s => s.type blank 0x20)^[8 - s.x % 8] s

def put (s : Screen) (c : UInt8) : Screen :=
  if c = 0x0D then { s with x := 0 }
  else if c = 0x0A then s.lineFeed blank
  else if c = 0x09 then s.tab blank
  else if 0x20 ≤ c ∧ c ≤ 0x7E then s.type blank c
  else s

end Screen

/-- A blank cell in the colors of the object. -/
def blankCell (vm : VideoMemory) : UInt16 :=
  VidMemCell.setColor (VidMemCell.setChar 0 0x20) vm.fg vm.bg

def screen (vm : VideoMemory) : Screen := ⟨vm.vidmem, vm.x, vm.y⟩

/-- The object shows the screen, its cursor is on it, and no access was outside
    the buffer. -/
structure Shows (vm : VideoMemory) (s : Screen) : Prop where
  cells : ∀ i < endCell, vm.vidmem i = s.cells i
  x_eq : vm.x = s.x
  y_eq : vm.y = s.y
  x_lt : vm.x < width
  y_lt : vm.y < height
  inside : ∀ i ∈ vm.accesses, i < endCell

/-- After `Reset`, all the calls of `PutChar` return, and the object shows what
    a console shows. -/
def Survives (vm : VideoMemory) (cs : Bytes) : Prop :=
  ∃ fuel vm', putChars fuel vm.reset cs = some vm' ∧
    Shows vm' (cs.foldl (Screen.put vm.blankCell) vm.reset.screen)

/-! ## Section 2: Line breaks -/

/-- The column of the cursor, and the line breaks so far. -/
structure Cursor where
  column : Nat
  breaks : Nat

namespace Cursor

def type (p : Cursor) : Cursor :=
  if p.column + 1 < width then { p with column := p.column + 1 }
  else { column := 0, breaks := p.breaks + 1 }

def put (p : Cursor) (c : UInt8) : Cursor :=
  if c = 0x0D then { p with column := 0 }
  else if c = 0x0A then { p with breaks := p.breaks + 1 }
  else if c = 0x09 then type^[8 - p.column % 8] p
  else if 0x20 ≤ c ∧ c ≤ 0x7E then p.type
  else p

theorem breaks_le_type (p : Cursor) : p.breaks ≤ p.type.breaks := by
  unfold type
  split
  · exact Nat.le_refl _
  · exact Nat.le_succ _

theorem breaks_le_iterate (n : Nat) (p : Cursor) : p.breaks ≤ (type^[n] p).breaks := by
  induction n generalizing p with
  | zero => exact Nat.le_refl _
  | succ n ih => exact Nat.le_trans p.breaks_le_type (ih p.type)

theorem breaks_le_put (p : Cursor) (c : UInt8) : p.breaks ≤ (p.put c).breaks := by
  unfold put
  split
  · exact Nat.le_refl _
  split
  · exact Nat.le_succ _
  split
  · exact breaks_le_iterate _ _
  split
  · exact breaks_le_type _
  · exact Nat.le_refl _

theorem breaks_le_foldl (cs : Bytes) (p : Cursor) : p.breaks ≤ (cs.foldl put p).breaks := by
  induction cs generalizing p with
  | nil => exact Nat.le_refl _
  | cons c cs ih => exact Nat.le_trans (p.breaks_le_put c) (ih (p.put c))

end Cursor

/-- The line breaks of a text, where a newline keeps the column and the end of
    a row starts a new line. -/
def lineBreaks (cs : Bytes) : Nat := (cs.foldl Cursor.put ⟨0, 0⟩).breaks

/-! ## Section 3: ScrollUp -/

/-- The first loop moves all rows but the first, so it ends one row early. -/
theorem moveLoop_dst {fuel dst src dst' : Nat} {vm vm' : VideoMemory} (hsrc : src = dst + width)
    (h : moveLoop fuel dst src vm = some (dst', vm')) : dst' + width = endCell := by
  induction fuel generalizing dst src vm with
  | zero => cases h
  | succ fuel ih =>
    unfold moveLoop at h
    by_cases hend : src ≠ endCell
    · rw [if_pos hend] at h
      exact ih (by omega) h
    · rw [if_neg hend] at h
      obtain ⟨rfl, -⟩ := Prod.mk.inj (Option.some.inj h)
      omega

/-- The second loop stays where it is. -/
theorem blankLoop_stuck (fuel : Nat) {dst : Nat} (hdst : dst ≠ endCell) (vm : VideoMemory) :
    blankLoop fuel dst vm = none := by
  induction fuel generalizing vm with
  | zero => rfl
  | succ fuel ih =>
    unfold blankLoop
    rw [if_pos hdst]
    exact ih _

/-- `ScrollUp` never returns. -/
theorem scrollUp_stuck (fuel : Nat) (vm : VideoMemory) : scrollUp fuel vm = none := by
  unfold scrollUp
  cases hmove : moveLoop fuel 0 width vm with
  | none => rfl
  | some r =>
    obtain ⟨dst, vm'⟩ := r
    have hdst := moveLoop_dst (Nat.zero_add _).symm hmove
    have hne : dst ≠ endCell := by
      have hwidth : width = 80 := rfl
      omega
    show (blankLoop fuel dst vm' >>= _) = none
    rw [blankLoop_stuck fuel hne]
    rfl

/-! ## Section 4: PutChar -/

/-- The cursor of the object, as long as there was no more than one screen of
    line breaks. -/
structure Tracks (vm : VideoMemory) (p : Cursor) : Prop where
  column : vm.x = p.column
  breaks : vm.y = p.breaks

/-- How a call ends: the object shows what it should, or the line breaks have
    used up the rows and the call does not return. -/
def Outcome (r : Option VideoMemory) (p : Cursor) (s : Screen) : Prop :=
  (p.breaks < height ∧ ∃ vm, r = some vm ∧ Shows vm s ∧ Tracks vm p) ∨
    (height ≤ p.breaks ∧ r = none)

theorem Outcome.bind {r : Option VideoMemory} {f : VideoMemory → Option VideoMemory}
    {p p' : Cursor} {s s' : Screen} (h : Outcome r p s) (hle : p.breaks ≤ p'.breaks)
    (hf : ∀ vm, Shows vm s → Tracks vm p → Outcome (f vm) p' s') : Outcome (r >>= f) p' s' := by
  rcases h with ⟨-, vm, rfl, hshows, htracks⟩ | ⟨hfull, rfl⟩
  · exact hf vm hshows htracks
  · exact .inr ⟨Nat.le_trans hfull hle, rfl⟩

/-- `SyncCursor` writes to ports only. -/
theorem Shows.sync {vm : VideoMemory} {s : Screen} (h : Shows vm s) : Shows vm.syncCursor s :=
  ⟨h.cells, h.x_eq, h.y_eq, h.x_lt, h.y_lt, h.inside⟩

section Steps

variable {vm : VideoMemory} {s : Screen} {p : Cursor} (blank : UInt16) (fuel : Nat)

/-- A line break in the code, on a console and in the text. -/
theorem lineFeed_outcome (hs : Shows vm s) (ht : Tracks vm p) :
    Outcome
      (if (vm.y + 1) % 256 ≥ height then scrollUp fuel { vm with y := (vm.y + 1) % 256 }
        else some { vm with y := (vm.y + 1) % 256 }.syncCursor)
      { p with breaks := p.breaks + 1 } (s.lineFeed blank) := by
  have hy := hs.y_lt
  have hheight : height = 25 := rfl
  have hbreaks := ht.breaks
  have hmod : (vm.y + 1) % 256 = vm.y + 1 := Nat.mod_eq_of_lt (by omega)
  rw [hmod]
  by_cases hlast : vm.y + 1 ≥ height
  · rw [if_pos hlast]
    refine .inr ⟨?_, scrollUp_stuck fuel _⟩
    show height ≤ p.breaks + 1
    omega
  · have hfeed : s.lineFeed blank = { s with y := s.y + 1 } := by
      unfold Screen.lineFeed
      rw [if_pos (by rw [← hs.y_eq]; omega)]
    rw [if_neg hlast, hfeed]
    refine .inl ⟨?_, _, rfl, ?_, ⟨ht.column, ?_⟩⟩
    · show p.breaks + 1 < height
      omega
    · exact Shows.sync ⟨hs.cells, hs.x_eq, congrArg (· + 1) hs.y_eq, hs.x_lt,
        Nat.lt_of_not_le hlast, hs.inside⟩
    · exact congrArg (· + 1) hbreaks

/-- The cursor stays inside the buffer. -/
theorem Shows.cursor_lt (hs : Shows vm s) : vm.y * width + vm.x < endCell := by
  have hx := hs.x_lt
  have hy := hs.y_lt
  simp only [endCell, width, height] at hx hy ⊢
  omega

/-- The object with a character written at the cursor. -/
def written (vm : VideoMemory) (c : UInt8) : VideoMemory :=
  vm.setCell (vm.y * width + vm.x) (VidMemCell.setChar (vm.vidmem (vm.y * width + vm.x)) c)

/-- The screen with a character written at the cursor. -/
def Screen.written (s : Screen) (c : UInt8) : Screen :=
  { s with cells := fun j =>
      if j = s.y * width + s.x then VidMemCell.setChar (s.cells (s.y * width + s.x)) c
      else s.cells j }

theorem Shows.written (hs : Shows vm s) (c : UInt8) :
    Shows (VideoMemory.written vm c) (Screen.written s c) where
  cells i hi := by
    show (if i = vm.y * width + vm.x then VidMemCell.setChar (vm.vidmem (vm.y * width + vm.x)) c
        else vm.vidmem i) =
      (if i = s.y * width + s.x then VidMemCell.setChar (s.cells (s.y * width + s.x)) c
        else s.cells i)
    rw [hs.cells _ hs.cursor_lt, hs.cells i hi, hs.x_eq, hs.y_eq]
  x_eq := hs.x_eq
  y_eq := hs.y_eq
  x_lt := hs.x_lt
  y_lt := hs.y_lt
  inside := List.forall_mem_cons.mpr ⟨hs.cursor_lt, hs.inside⟩

/-- What the code does with a printable character. -/
theorem putOther_printable {c : UInt8} (hc : 0x20 ≤ c ∧ c ≤ 0x7E) :
    putOther fuel vm c =
      if (vm.x + 1) % 256 ≥ width then
        if (vm.y + 1) % 256 ≥ height then
          scrollUp fuel { written vm c with x := 0, y := (vm.y + 1) % 256 }
        else some { written vm c with x := 0, y := (vm.y + 1) % 256 }.syncCursor
      else some { written vm c with x := (vm.x + 1) % 256 }.syncCursor := by
  have hcr : c ≠ 0x0D := by
    intro heq
    rw [heq] at hc
    exact absurd hc.1 (by decide)
  have hlf : c ≠ 0x0A := by
    intro heq
    rw [heq] at hc
    exact absurd hc.1 (by decide)
  unfold putOther
  rw [if_neg hcr, if_neg hlf, if_pos hc]
  rfl

/-- A printable character. -/
theorem type_outcome (hs : Shows vm s) (ht : Tracks vm p) {c : UInt8} (hc : 0x20 ≤ c ∧ c ≤ 0x7E) :
    Outcome (putOther fuel vm c) p.type (s.type blank c) := by
  have hx := hs.x_lt
  have hwidth : width = 80 := rfl
  have hmod : (vm.x + 1) % 256 = vm.x + 1 := Nat.mod_eq_of_lt (by omega)
  have hcolumn := ht.column
  have hsx := hs.x_eq
  have hscreen : s.type blank c =
      if s.x + 1 < width then { s.written c with x := s.x + 1 }
      else { s.written c with x := 0 }.lineFeed blank := rfl
  rw [putOther_printable fuel hc, hmod, hscreen]
  unfold Cursor.type
  by_cases hend : vm.x + 1 ≥ width
  · -- the end of a row
    rw [if_pos hend, if_neg (show ¬ s.x + 1 < width by omega),
      if_neg (show ¬ p.column + 1 < width by omega)]
    have hstart : Shows { written vm c with x := 0 } { s.written c with x := 0 } :=
      { hs.written c with x_eq := rfl, x_lt := Nat.lt_of_le_of_lt (Nat.zero_le _) hx }
    exact lineFeed_outcome (p := { p with column := 0 }) blank fuel hstart ⟨rfl, ht.breaks⟩
  · rw [if_neg hend, if_pos (show s.x + 1 < width by omega),
      if_pos (show p.column + 1 < width by omega)]
    have hnext : Shows { written vm c with x := vm.x + 1 } { s.written c with x := s.x + 1 } :=
      { hs.written c with x_eq := congrArg (· + 1) hsx, x_lt := Nat.lt_of_not_le hend }
    refine .inl ⟨?_, _, rfl, hnext.sync, ⟨congrArg (· + 1) hcolumn, ht.breaks⟩⟩
    show p.breaks < height
    rw [← ht.breaks]
    exact hs.y_lt

theorem tabLoop_outcome (n : Nat) (hs : Shows vm s) (ht : Tracks vm p) (hp : p.breaks < height) :
    Outcome (tabLoop fuel n vm) (Cursor.type^[n] p)
      ((fun s => s.type blank 0x20)^[n] s) := by
  induction n generalizing vm s p with
  | zero => exact .inl ⟨hp, vm, rfl, hs, ht⟩
  | succ n ih =>
    have hfirst := type_outcome blank fuel hs ht (c := 0x20) (by decide)
    have hle : p.type.breaks ≤ (Cursor.type^[n] p.type).breaks := Cursor.breaks_le_iterate n _
    apply hfirst.bind hle
    intro vm' hs' ht'
    refine ih hs' ht' ?_
    rw [← ht'.breaks]
    exact hs'.y_lt

/-- **One call** of `PutChar`. -/
theorem putChar_outcome (hs : Shows vm s) (ht : Tracks vm p) (c : UInt8) :
    Outcome (putChar fuel vm c) (p.put c) (s.put blank c) := by
  have hp : p.breaks < height := by
    rw [← ht.breaks]
    exact hs.y_lt
  -- the order of the cases is the one of `putChar`
  by_cases htab : c = 0x09
  · have hput : p.put c = Cursor.type^[8 - p.column % 8] p := by
      unfold Cursor.put
      rw [if_neg (by rw [htab]; decide), if_neg (by rw [htab]; decide), if_pos htab]
    have hscreen : s.put blank c = s.tab blank := by
      unfold Screen.put
      rw [if_neg (by rw [htab]; decide), if_neg (by rw [htab]; decide), if_pos htab]
    unfold putChar Screen.tab at *
    rw [if_pos htab, hput, hscreen, ← ht.column, ← hs.x_eq]
    exact tabLoop_outcome blank fuel _ hs ht hp
  unfold putChar Cursor.put Screen.put
  rw [if_neg htab, if_neg htab, if_neg htab]
  by_cases hcr : c = 0x0D
  · unfold putOther
    rw [if_pos hcr, if_pos hcr, if_pos hcr]
    have hstart : Shows { vm with x := 0 } { s with x := 0 } :=
      { hs with x_eq := rfl, x_lt := Nat.lt_of_le_of_lt (Nat.zero_le _) hs.x_lt }
    exact .inl ⟨hp, _, rfl, hstart.sync, ⟨rfl, ht.breaks⟩⟩
  rw [if_neg hcr, if_neg hcr]
  by_cases hlf : c = 0x0A
  · unfold putOther
    rw [if_neg hcr, if_pos hlf, if_pos hlf, if_pos hlf]
    exact lineFeed_outcome blank fuel hs ht
  rw [if_neg hlf, if_neg hlf]
  by_cases hc : 0x20 ≤ c ∧ c ≤ 0x7E
  · rw [if_pos hc, if_pos hc]
    exact type_outcome blank fuel hs ht hc
  · unfold putOther
    rw [if_neg hcr, if_neg hlf, if_neg hc, if_neg hc, if_neg hc]
    -- any other byte is dropped
    exact .inl ⟨hp, vm, rfl, hs, ht⟩

/-- **A text**, byte after byte. -/
theorem putChars_outcome (hs : Shows vm s) (ht : Tracks vm p) (cs : Bytes) :
    Outcome (putChars fuel vm cs) (cs.foldl Cursor.put p) (cs.foldl (Screen.put blank) s) := by
  induction cs generalizing vm s p with
  | nil =>
    refine .inl ⟨?_, vm, rfl, hs, ht⟩
    show p.breaks < height
    rw [← ht.breaks]
    exact hs.y_lt
  | cons c cs ih =>
    have hfirst := putChar_outcome blank fuel hs ht c
    unfold putChars
    rw [List.foldlM_cons]
    apply hfirst.bind (Cursor.breaks_le_foldl cs (p.put c))
    intro vm' hs' ht'
    exact ih hs' ht'

end Steps

/-! ## Section 5: From Reset on -/

theorem accesses_reset (cells : List Nat) (vm : VideoMemory) {i : Nat}
    (hi : i ∈ (cells.foldl resetCell vm).accesses) : i ∈ cells ∨ i ∈ vm.accesses := by
  induction cells generalizing vm with
  | nil => exact .inr hi
  | cons j cells ih =>
    rcases ih (vm.resetCell j) hi with hmem | hmem
    · exact .inl (List.mem_cons_of_mem _ hmem)
    · rcases List.mem_cons.mp hmem with rfl | hmem
      · exact .inl List.mem_cons_self
      · exact .inr hmem

theorem shows_reset {vm : VideoMemory} (h : vm.accesses = []) :
    Shows vm.reset vm.reset.screen := by
  have hinside : ∀ i ∈ ((List.range (80 * 25)).foldl resetCell vm).accesses, i < endCell := by
    intro i hi
    rcases accesses_reset _ vm hi with hmem | hmem
    · exact List.mem_range.mp hmem
    · rw [h] at hmem
      cases hmem
  unfold reset
  generalize (List.range (80 * 25)).foldl resetCell vm = vm' at hinside ⊢
  exact ⟨fun _ _ => rfl, rfl, rfl, Nat.succ_pos 79, Nat.succ_pos 24, hinside⟩

/-- **The kernel console** survives a text, in any colors and whatever text
    memory held, exactly if the line breaks of the text fit on the screen. -/
theorem survives_iff (mem : Nat → UInt16) (fg bg : Color) (cs : Bytes) :
    Survives ((new mem).setColor fg bg) cs ↔ lineBreaks cs < height := by
  have hshows : Shows ((new mem).setColor fg bg).reset
      ((new mem).setColor fg bg).reset.screen := shows_reset rfl
  have htracks : Tracks ((new mem).setColor fg bg).reset ⟨0, 0⟩ := ⟨rfl, rfl⟩
  have hout := fun fuel =>
    putChars_outcome ((new mem).setColor fg bg).blankCell fuel hshows htracks cs
  constructor
  · intro hsurvives
    obtain ⟨fuel, vm', hrun, -⟩ := hsurvives
    rcases hout fuel with ⟨hlt, -⟩ | ⟨-, hnone⟩
    · exact hlt
    · rw [hrun] at hnone
      cases hnone
  · intro hlt
    rcases hout 0 with ⟨-, vm', hrun, hshows', -⟩ | ⟨hle, -⟩
    · exact ⟨0, vm', hrun, hshows'⟩
    · exact absurd hlt (Nat.not_lt_of_le hle)

/-- 25 newlines after `Reset`: the last call does not return. -/
theorem newlines_stuck :
    ¬ Survives ((new fun _ => 0).setColor .white .blue) (List.replicate 25 0x0A) := by
  intro hsurvives
  obtain ⟨fuel, vm', hrun, -⟩ := hsurvives
  have hshows : Shows ((new fun _ => 0).setColor .white .blue).reset
      ((new fun _ => 0).setColor .white .blue).reset.screen := shows_reset rfl
  have htracks : Tracks ((new fun _ => 0).setColor .white .blue).reset ⟨0, 0⟩ := ⟨rfl, rfl⟩
  rcases putChars_outcome 0 fuel hshows htracks (List.replicate 25 0x0A) with
    ⟨hlt, -⟩ | ⟨-, hnone⟩
  · exact absurd hlt (by decide)
  · rw [hrun] at hnone
    cases hnone

end VideoMemory

end Hausboot

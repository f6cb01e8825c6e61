import Mathlib.Data.List.TakeWhile
import Hausboot.Lib.Prog
import Hausboot.Stage2.Model

/-! # The Grammar of the Boot Script

    `RunScript` splits the script in place: it puts terminators at the ends of
    lines and behind command words while two cursors walk the same buffer.

    1. `Checked` is `RunScript` once more, character by character, with every
       access to the buffer held against a limit and every loop against a
       number of rounds. What the callbacks do is a parameter, `ScriptHost`.
    2. `ScriptHost.reference` reads the script line by line, without a buffer.
    3. `isolateLine_spec` and `isolateCommand_spec` say what one line turns
       into, `runScript_eq` goes through the lines.
    4. Where `Checked` has no fault, `runScript` of the code model does the same. -/

open ByteLib Prog

namespace Hausboot

/-! ## Section 1: RunScript, with its accesses checked -/

/-- What the commands of a script work on. `call` is `none` where the callback
    does not return. -/
structure ScriptHost (σ : Type) where
  call : Command → σ → Bytes → Option (Bool × σ)
  unknown : σ → Bytes → σ

/-- Why a checked run has been given up. -/
inductive ScriptFault where
  /-- An access behind the terminator of the buffer. -/
  | outside
  /-- A loop has not ended within the rounds. -/
  | rounds
  /-- A callback has not returned. -/
  | callback
deriving DecidableEq

namespace Checked

variable (limit : Nat)

/-- `*ptr` -/
def peek (buffer : Bytes) (ptr : Nat) : Except ScriptFault UInt8 :=
  if ptr < limit then .ok (charAt buffer ptr) else .error .outside

/-- `*ptr = x` -/
def poke (buffer : Bytes) (ptr : Nat) (x : UInt8) : Except ScriptFault Bytes :=
  if ptr < limit then .ok (buffer.set ptr x) else .error .outside

/-- `while (p(*ptr)) ++ptr;` -/
def skip (p : UInt8 → Bool) (buffer : Bytes) : Nat → Nat → Except ScriptFault Nat
  | 0, _ => .error .rounds
  | n + 1, ptr => do
    let c ← peek limit buffer ptr
    if p c then skip p buffer n (ptr + 1) else .ok ptr

/-- The string at `ptr`, as whoever is given the pointer reads it. -/
def stringAt (buffer : Bytes) : Nat → Nat → Except ScriptFault Bytes
  | 0, _ => .error .rounds
  | n + 1, ptr => do
    let c ← peek limit buffer ptr
    if c = 0 then .ok []
    else
      let s ← stringAt buffer n (ptr + 1)
      .ok (c :: s)

/-- `StrEqual` of a name of the table, given without its terminator, and the
    string at `ptr`. -/
def strEqual (buffer : Bytes) : Bytes → Nat → Except ScriptFault Bool
  | [], ptr => do
    let c ← peek limit buffer ptr
    .ok (c == 0)
  | a :: name, ptr => do
    let c ← peek limit buffer ptr
    if a ≠ c then .ok false else strEqual buffer name (ptr + 1)

/-- Isolates the current line. Returns the buffer and the start of the next one. -/
def isolateLine (n : Nat) (buffer : Bytes) (ptr : Nat) : Except ScriptFault (Bytes × Nat) := do
  let ptr ← skip limit (fun x => x ≠ 0 && x ≠ 0x0A) buffer n ptr
  let c ← peek limit buffer ptr
  if c = 0x0A then
    let buffer ← poke limit buffer ptr 0
    .ok (buffer, ptr + 1)
  else .ok (buffer, ptr)

/-- Isolates the argument behind the command string at `cmd`. Returns pointers to
    both, or `none` at the second `continue`, and the buffer. -/
def isolateArg (n : Nat) (buffer : Bytes) (cmd : Nat) :
    Except ScriptFault (Option (Nat × Nat) × Bytes) := do
  let line ← skip limit isAlnum buffer n cmd
  let d ← peek limit buffer line
  let c ← peek limit buffer cmd
  if !isSpace d || c = 0 || c = 0x23 then .ok (none, buffer)
  else
    let buffer ← poke limit buffer line 0
    let arg ← skip limit isSpace buffer n (line + 1)
    .ok (some (cmd, arg), buffer)

/-- Isolates the command string of the line, and its argument. `none` at a
    `continue`. -/
def isolateCommand (n : Nat) (buffer : Bytes) (line : Nat) :
    Except ScriptFault (Option (Nat × Nat) × Bytes) := do
  let cmd ← skip limit isSpace buffer n line
  let c ← peek limit buffer cmd
  if !isAlnum c then .ok (none, buffer) else isolateArg limit n buffer cmd

/-- The loop over `commands`. -/
def findCommand (buffer : Bytes) (cmd : Nat) :
    List (Bytes × Command) → Except ScriptFault (Option Command)
  | [] => .ok none
  | it :: rest => do
    let equal ← strEqual limit buffer it.1 cmd
    if equal then .ok (some it.2) else findCommand buffer cmd rest

/-- `RunScript` from `ptr` on: the final state, and the callbacks that it has
    invoked, with their arguments. -/
def runScript {σ : Type} (host : ScriptHost σ) :
    Nat → σ → Bytes → Nat → Except ScriptFault (σ × List (Command × Bytes))
  | 0, _, _, _ => .error .rounds
  | n + 1, st, buffer, ptr => do
    let c ← peek limit buffer ptr
    if c = 0 then .ok (st, [])
    else
      let line := ptr
      let (buffer, ptr) ← isolateLine limit (n + 1) buffer ptr
      match ← isolateCommand limit (n + 1) buffer line with
      | (none, buffer) => runScript host n st buffer ptr
      | (some (cmd, arg), buffer) =>
        match ← findCommand limit buffer cmd commands with
        | none =>
          let name ← stringAt limit buffer (n + 1) cmd
          .ok (host.unknown st name, [])
        | some command =>
          let arg ← stringAt limit buffer (n + 1) arg
          match host.call command st arg with
          | none => .error .callback
          | some (false, st') => .ok (st', [(command, arg)])
          | some (true, st') =>
            let (st', calls) ← runScript host n st' buffer ptr
            .ok (st', (command, arg) :: calls)

end Checked

/-! ## Section 2: The reference -/

/-- The command at the start of `word`, and its argument. -/
def parseWord (word : Bytes) : Option (Bytes × Bytes) :=
  let cmd := word.takeWhile isAlnum
  if cmd = [] then none
  else
    match word.dropWhile isAlnum with
    | [] => none
    | c :: rest => if isSpace c then some (cmd, rest.dropWhile isSpace) else none

/-- The command and the argument on a line, if there is a command. -/
def parseLine (line : Bytes) : Option (Bytes × Bytes) := parseWord (line.dropWhile isSpace)

/-- The lines of a script, one after the other. -/
def ScriptHost.reference {σ : Type} (host : ScriptHost σ) :
    List Bytes → σ → Option (σ × List (Command × Bytes))
  | [], st => some (st, [])
  | line :: lines, st =>
    match parseLine line with
    | none => host.reference lines st
    | some (cmd, arg) =>
      match commands.lookup cmd with
      | none => some (host.unknown st cmd, [])
      | some command =>
        match host.call command st arg with
        | none => none
        | some (false, st') => some (st', [(command, arg)])
        | some (true, st') =>
          (host.reference lines st').map fun r => (r.1, (command, arg) :: r.2)

/-- Where the reference has no result, a callback has not returned. -/
def ScriptHost.expected {σ : Type} (host : ScriptHost σ) (text : Bytes) (st : σ) :
    Except ScriptFault (σ × List (Command × Bytes)) :=
  match host.reference (text.splitOn 0x0A) st with
  | some r => .ok r
  | none => .error .callback

/-! ## Section 3: One line -/

theorem isSpace_zero : isSpace 0 = false := rfl

theorem isAlnum_zero : isAlnum 0 = false := rfl

theorem ne_zero_of_isAlnum {c : UInt8} (h : isAlnum c = true) : c ≠ 0 := by
  intro hc
  rw [hc, isAlnum_zero] at h
  cases h

theorem ne_hash_of_isAlnum {c : UInt8} (h : isAlnum c = true) : c ≠ 0x23 := by
  intro hc
  rw [hc] at h
  cases h

theorem ok_bind {α β : Type} (a : α) (f : α → Except ScriptFault β) :
    (Except.ok a >>= f) = f a := rfl

namespace Checked

section Spec

variable {limit n ptr : Nat} {p : UInt8 → Bool} {c x : UInt8} {buffer pre post s name : Bytes}

theorem peek_eq (hbuf : buffer = pre ++ c :: post) (hptr : ptr = pre.length)
    (hlimit : ptr < limit) : peek limit buffer ptr = .ok c := by
  subst hbuf hptr
  rw [peek, if_pos hlimit, charAt, List.getD_append_right _ _ _ _ le_rfl, Nat.sub_self]
  rfl

theorem poke_eq (hbuf : buffer = pre ++ c :: post) (hptr : ptr = pre.length)
    (hlimit : ptr < limit) : poke limit buffer ptr x = .ok (pre ++ x :: post) := by
  subst hbuf hptr
  rw [poke, if_pos hlimit, List.set_append_right _ _ le_rfl, Nat.sub_self]
  rfl

/-- The pointer behind the first character of a string in the buffer. -/
theorem one_further (hbuf : buffer = pre ++ (x :: s ++ post)) (hptr : ptr = pre.length) :
    ∃ pre', buffer = pre' ++ (s ++ post) ∧ ptr + 1 = pre'.length := by
  refine ⟨pre ++ [x], ?_, ?_⟩
  · rw [hbuf, List.append_assoc]
    rfl
  · rw [hptr, List.length_append]
    rfl

/-- A loop that skips characters stops at the first one that fails the test. -/
theorem skip_eq (hbuf : buffer = pre ++ (s ++ c :: post)) (hptr : ptr = pre.length)
    (hs : ∀ x ∈ s, p x = true) (hc : p c = false) (hlimit : ptr + s.length < limit)
    (hn : s.length < n) : skip limit p buffer n ptr = .ok (ptr + s.length) := by
  induction s generalizing n ptr pre with
  | nil =>
    obtain ⟨n, rfl⟩ := Nat.exists_eq_succ_of_ne_zero hn.ne'
    have hpeek : peek limit buffer ptr = .ok c := peek_eq hbuf hptr hlimit
    rw [skip, hpeek, ok_bind, if_neg (Bool.eq_false_iff.mp hc)]
    rfl
  | cons x s ih =>
    rw [List.length_cons] at hlimit hn
    obtain ⟨n, rfl⟩ := Nat.exists_eq_succ_of_ne_zero (Nat.ne_zero_of_lt hn)
    have hpeek : peek limit buffer ptr = .ok x := peek_eq hbuf hptr (by omega)
    obtain ⟨pre', hbuf', hptr'⟩ := one_further hbuf hptr
    have hrest := ih hbuf' hptr'
      (fun y hy => hs y (List.mem_cons_of_mem _ hy)) (by omega) (by omega : s.length < n)
    rw [skip, hpeek, ok_bind, if_pos (hs x List.mem_cons_self), hrest, List.length_cons,
      Nat.add_assoc, Nat.add_comm 1]

/-- A string is read up to its terminator. -/
theorem stringAt_eq (hbuf : buffer = pre ++ (s ++ 0 :: post)) (hptr : ptr = pre.length)
    (hs : (0 : UInt8) ∉ s) (hlimit : ptr + s.length < limit) (hn : s.length < n) :
    stringAt limit buffer n ptr = .ok s := by
  induction s generalizing n ptr pre with
  | nil =>
    obtain ⟨n, rfl⟩ := Nat.exists_eq_succ_of_ne_zero hn.ne'
    have hpeek : peek limit buffer ptr = .ok 0 := peek_eq hbuf hptr hlimit
    rw [stringAt, hpeek, ok_bind, if_pos rfl]
  | cons x s ih =>
    rw [List.length_cons] at hlimit hn
    obtain ⟨n, rfl⟩ := Nat.exists_eq_succ_of_ne_zero (Nat.ne_zero_of_lt hn)
    have hx : x ≠ 0 := fun h => hs (h ▸ List.mem_cons_self)
    have hpeek : peek limit buffer ptr = .ok x := peek_eq hbuf hptr (by omega)
    obtain ⟨pre', hbuf', hptr'⟩ := one_further hbuf hptr
    have hrest := ih hbuf' hptr'
      (fun h => hs (List.mem_cons_of_mem _ h)) (by omega) (by omega : s.length < n)
    rw [stringAt, hpeek, ok_bind, if_neg hx, hrest, ok_bind]

/-- `StrEqual` decides equality, and reads no further than the terminator. -/
theorem strEqual_eq (hbuf : buffer = pre ++ (s ++ 0 :: post)) (hptr : ptr = pre.length)
    (hs : (0 : UInt8) ∉ s) (hname : (0 : UInt8) ∉ name) (hlimit : ptr + s.length < limit) :
    strEqual limit buffer name ptr = .ok (s == name) := by
  induction name generalizing ptr pre s with
  | nil =>
    cases s with
    | nil =>
      have hpeek : peek limit buffer ptr = .ok 0 := peek_eq hbuf hptr hlimit
      rw [strEqual, hpeek, ok_bind]
      rfl
    | cons x s =>
      have hx : x ≠ 0 := fun h => hs (h ▸ List.mem_cons_self)
      have hpeek : peek limit buffer ptr = .ok x := peek_eq hbuf hptr (by omega)
      rw [strEqual, hpeek, ok_bind, beq_false_of_ne hx]
      rfl
  | cons a name ih =>
    have ha : a ≠ 0 := fun h => hname (h ▸ List.mem_cons_self)
    cases s with
    | nil =>
      have hpeek : peek limit buffer ptr = .ok 0 := peek_eq hbuf hptr hlimit
      rw [strEqual, hpeek, ok_bind, if_pos ha]
      rfl
    | cons x s =>
      rw [List.length_cons] at hlimit
      have hpeek : peek limit buffer ptr = .ok x := peek_eq hbuf hptr (by omega)
      obtain ⟨pre', hbuf', hptr'⟩ := one_further hbuf hptr
      have hrest := ih hbuf' hptr'
        (fun h => hs (List.mem_cons_of_mem _ h)) (fun h => hname (List.mem_cons_of_mem _ h))
        (by omega)
      rw [strEqual, hpeek, ok_bind, List.cons_beq_cons]
      by_cases hax : a = x
      · rw [if_neg (not_not_intro hax), hrest, hax, beq_self_eq_true, Bool.true_and]
      · rw [if_pos hax, beq_false_of_ne (Ne.symm hax), Bool.false_and]

/-- The loop over the table finds what a search for the string finds. -/
theorem findCommand_eq (hbuf : buffer = pre ++ (s ++ 0 :: post)) (hptr : ptr = pre.length)
    (hs : (0 : UInt8) ∉ s) (hlimit : ptr + s.length < limit) {table : List (Bytes × Command)}
    (htable : ∀ it ∈ table, (0 : UInt8) ∉ it.1) :
    findCommand limit buffer ptr table = .ok (table.lookup s) := by
  induction table with
  | nil => rfl
  | cons it table ih =>
    have hequal := strEqual_eq hbuf hptr hs (htable it List.mem_cons_self) hlimit
    have hrest := ih fun it hit => htable it (List.mem_cons_of_mem _ hit)
    rw [findCommand, hequal, ok_bind, hrest, List.lookup_cons]
    cases s == it.1 with
    | true => rfl
    | false => rfl

/-- Where a test fails at the terminator, it fails somewhere in the string or
    behind it. -/
theorem stops_at (p : UInt8 → Bool) (hp : p 0 = false) (s post : Bytes) :
    ∃ c post', s.dropWhile p ++ 0 :: post = c :: post' ∧ p c = false ∧
      s ++ 0 :: post = s.takeWhile p ++ c :: post' := by
  have hsplit : s ++ 0 :: post = s.takeWhile p ++ (s.dropWhile p ++ 0 :: post) := by
    rw [← List.append_assoc, List.takeWhile_append_dropWhile]
  cases hrest : s.dropWhile p with
  | nil =>
    rw [hrest] at hsplit
    exact ⟨0, post, rfl, hp, hsplit⟩
  | cons c rest =>
    have hhead := List.head?_dropWhile_not p s
    rw [hrest] at hsplit hhead
    exact ⟨c, rest ++ 0 :: post, rfl, by simpa using hhead, hsplit⟩

/-- A loop over a string in the buffer, whose test fails at the terminator. -/
theorem skip_string (hp : p 0 = false) (hbuf : buffer = pre ++ (s ++ 0 :: post))
    (hptr : ptr = pre.length) (hlimit : ptr + s.length < limit) (hn : s.length < n) :
    skip limit p buffer n ptr = .ok (ptr + (s.takeWhile p).length) := by
  obtain ⟨c, post', -, hc, hsplit⟩ := stops_at p hp s post
  have hle : (s.takeWhile p).length ≤ s.length := (List.takeWhile_sublist p).length_le
  rw [hsplit] at hbuf
  exact skip_eq hbuf hptr (fun x hx => List.mem_takeWhile_imp hx) hc (by omega) (by omega)

end Spec

section Line

variable {σ : Type} (host : ScriptHost σ)
variable {limit n ptr : Nat} {c : UInt8} {buffer pre post rest behind line word : Bytes}

/-- An empty line at the end of the script does nothing. -/
theorem reference_append_nil (lines : List Bytes) (st : σ) :
    host.reference (lines ++ [[]]) st = host.reference lines st := by
  induction lines generalizing st with
  | nil => rfl
  | cons line lines ih =>
    rw [List.cons_append, ScriptHost.reference, ScriptHost.reference]
    simp only [ih]

/-- The first line of a script: the terminator behind it replaces the newline,
    or it is the one at the end of the buffer, and then the cursor stays on it. -/
theorem isolateLine_eq (hbuf : buffer = pre ++ (rest ++ 0 :: behind)) (hptr : ptr = pre.length)
    (hrest : (0 : UInt8) ∉ rest) (hne : rest ≠ []) (hlimit : ptr + rest.length < limit)
    (hn : rest.length < n) :
    ∃ line gap tail post, gap ++ (tail ++ 0 :: behind) = 0 :: post ∧
      line.length + gap.length + tail.length = rest.length ∧ tail.length < rest.length ∧
      (0 : UInt8) ∉ line ∧ (0 : UInt8) ∉ tail ∧
      (∀ st, host.reference (rest.splitOn 0x0A) st =
        host.reference (line :: tail.splitOn 0x0A) st) ∧
      isolateLine limit n buffer ptr =
        .ok (pre ++ (line ++ 0 :: post), ptr + line.length + gap.length) := by
  let p : UInt8 → Bool := fun x => x ≠ 0 && x ≠ 0x0A
  have hskip : skip limit p buffer n ptr = .ok (ptr + (rest.takeWhile p).length) :=
    skip_string rfl hbuf hptr hlimit hn
  have hwhole : rest = rest.takeWhile p ++ rest.dropWhile p :=
    List.takeWhile_append_dropWhile.symm
  have hline : ∀ x ∈ rest.takeWhile p, (x == 0x0A) = false := by
    intro x hx
    have hpx := List.mem_takeWhile_imp hx
    simp only [p, Bool.and_eq_true, decide_eq_true_eq] at hpx
    exact beq_false_of_ne hpx.2
  have hline0 : (0 : UInt8) ∉ rest.takeWhile p := fun h => by
    have hp0 := List.mem_takeWhile_imp h
    cases hp0
  cases hbehind : rest.dropWhile p with
  | nil =>
    -- the last line, without a newline
    rw [hbehind, List.append_nil] at hwhole
    rw [← hwhole] at hskip hline
    have hbuf' : buffer = (pre ++ rest) ++ 0 :: behind := by rw [hbuf, List.append_assoc]
    have hpeek : peek limit buffer (ptr + rest.length) = .ok 0 :=
      peek_eq hbuf' (by rw [hptr, List.length_append]) hlimit
    refine ⟨rest, [], [], behind, rfl, by simp, List.length_pos_iff.mpr hne, hrest, by simp,
      ?_, ?_⟩
    · intro st
      rw [List.splitOn_eq_splitOnP, List.splitOnP_eq_singleton hline]
      exact (reference_append_nil host [rest] st).symm
    · rw [isolateLine, hskip, ok_bind, hpeek, ok_bind, if_neg (by decide), hbuf]
      rfl
  | cons c tail =>
    have hc : c = 0x0A := by
      have hhead := List.head?_dropWhile_not p rest
      have hmem : c ∈ rest := by
        rw [hwhole, hbehind]
        simp
      have hc0 : c ≠ 0 := fun h => hrest (h ▸ hmem)
      rw [hbehind] at hhead
      simpa [p, hc0] using hhead
    rw [hbehind, hc] at hwhole
    generalize rest.takeWhile p = line at hskip hwhole hline hline0
    have hlen : rest.length = line.length + tail.length + 1 := by
      rw [hwhole, List.length_append, List.length_cons]
      rfl
    have hbuf' : buffer = (pre ++ line) ++ 0x0A :: (tail ++ 0 :: behind) := by
      rw [hbuf, hwhole]
      simp
    have hptr' : ptr + line.length = (pre ++ line).length := by
      rw [hptr, List.length_append]
    have hpeek : peek limit buffer (ptr + line.length) = .ok 0x0A :=
      peek_eq hbuf' hptr' (by omega)
    have hpoke : poke limit buffer (ptr + line.length) 0 = _ := poke_eq hbuf' hptr' (by omega)
    refine ⟨line, [0], tail, tail ++ 0 :: behind, rfl, by rw [hlen, List.length_singleton]; omega,
      by omega, hline0, ?_, ?_, ?_⟩
    · intro h
      exact hrest (hwhole ▸ List.mem_append_right _ (List.mem_cons_of_mem _ h))
    · intro st
      rw [hwhole, List.splitOn_eq_splitOnP, List.splitOn_eq_splitOnP,
        List.splitOnP_append_cons_of_forall_mem hline 0x0A rfl]
    · rw [isolateLine, hskip, ok_bind, hpeek, ok_bind, if_pos rfl, hpoke, ok_bind,
        List.append_assoc]
      rfl

/-- What `isolateCommand` has to do for a line that reads as `parsed` and ends at
    `stop`: without a command it leaves the buffer alone, otherwise the command
    and its argument become strings of their own, between `ptr` and `stop`. -/
def Isolates (result : Except ScriptFault (Option (Nat × Nat) × Bytes)) (buffer post : Bytes)
    (ptr stop : Nat) : Option (Bytes × Bytes) → Prop
  | none => result = .ok (none, buffer)
  | some (cmd, arg) => ∃ front between,
    ptr ≤ front.length ∧
    front.length + cmd.length + 1 + between.length + arg.length = stop ∧
    (0 : UInt8) ∉ cmd ∧ (0 : UInt8) ∉ arg ∧
    result = .ok (some (front.length, front.length + cmd.length + 1 + between.length),
      front ++ (cmd ++ 0 :: (between ++ (arg ++ 0 :: post))))

theorem Isolates.mono {result : Except ScriptFault (Option (Nat × Nat) × Bytes)}
    {ptr' stop : Nat} {parsed : Option (Bytes × Bytes)}
    (h : Isolates result buffer post ptr' stop parsed) (hle : ptr ≤ ptr') :
    Isolates result buffer post ptr stop parsed := by
  cases parsed with
  | none => exact h
  | some words =>
    obtain ⟨front, between, hfront, hrest⟩ := h
    exact ⟨front, between, hle.trans hfront, hrest⟩

theorem isolateArg_eq (hbuf : buffer = pre ++ (c :: word ++ 0 :: post)) (hptr : ptr = pre.length)
    (hword : (0 : UInt8) ∉ c :: word) (hc : isAlnum c = true)
    (hlimit : ptr + (c :: word).length < limit) (hn : (c :: word).length < n) :
    Isolates (isolateArg limit n buffer ptr) buffer post ptr (ptr + (c :: word).length)
      (parseWord (c :: word)) := by
  have hskip : skip limit isAlnum buffer n ptr = _ :=
    skip_string isAlnum_zero hbuf hptr hlimit hn
  have hpeek : peek limit buffer ptr = .ok c := peek_eq hbuf hptr (by omega)
  have hcmd : (c :: word).takeWhile isAlnum ≠ [] := by
    rw [List.takeWhile_cons_of_pos hc]
    exact List.cons_ne_nil _ _
  obtain ⟨d, post₁, hrest, -, hsplit⟩ := stops_at isAlnum isAlnum_zero (c :: word) post
  have hwhole : c :: word = (c :: word).takeWhile isAlnum ++ (c :: word).dropWhile isAlnum :=
    List.takeWhile_append_dropWhile.symm
  rw [parseWord, if_neg hcmd]
  generalize (c :: word).takeWhile isAlnum = cmd at *
  generalize (c :: word).dropWhile isAlnum = behindCmd at *
  have hlen : (c :: word).length = cmd.length + behindCmd.length := by
    rw [hwhole, List.length_append]
  have hbuf₁ : buffer = (pre ++ cmd) ++ d :: post₁ := by rw [hbuf, hsplit, List.append_assoc]
  have hend : ptr + cmd.length = (pre ++ cmd).length := by rw [hptr, List.length_append]
  have hpeek₁ : peek limit buffer (ptr + cmd.length) = .ok d := peek_eq hbuf₁ hend (by omega)
  have hguard : (!isSpace d || decide (c = 0) || decide (c = 0x23)) = !isSpace d := by
    rw [decide_eq_false (ne_zero_of_isAlnum hc), decide_eq_false (ne_hash_of_isAlnum hc),
      Bool.or_false, Bool.or_false]
  rw [isolateArg, hskip, ok_bind, hpeek₁, ok_bind, hpeek, ok_bind, hguard]
  cases behindCmd with
  | nil =>
    -- the line ends with the run
    obtain ⟨rfl, -⟩ := List.cons.inj hrest
    rfl
  | cons d' rest =>
    obtain ⟨rfl, hpost₁⟩ : d' = d ∧ rest ++ 0 :: post = post₁ := List.cons.inj hrest
    dsimp only
    by_cases hspace : isSpace d' = true
    swap
    · rw [if_neg hspace, Bool.eq_false_iff.mpr hspace]
      rfl
    rw [if_pos hspace, hspace]
    have hrestlen : (d' :: rest).length = rest.length + 1 := rfl
    have hrest0 : (0 : UInt8) ∉ rest := fun h =>
      hword (hwhole ▸ List.mem_append_right _ (List.mem_cons_of_mem _ h))
    have hpoke : poke limit buffer (ptr + cmd.length) 0 = _ := poke_eq hbuf₁ hend (by omega)
    have hbuf₂ : (pre ++ cmd) ++ 0 :: post₁ = (pre ++ cmd ++ [0]) ++ (rest ++ 0 :: post) := by
      rw [← hpost₁]
      simp
    have hbehind : ptr + cmd.length + 1 = (pre ++ cmd ++ [0]).length := by
      rw [hend, List.length_append, List.length_append, List.length_append]
      rfl
    have hskip₂ : skip limit isSpace _ n (ptr + cmd.length + 1) = _ :=
      skip_string isSpace_zero hbuf₂ hbehind (by omega) (by omega)
    have hblanks : rest = rest.takeWhile isSpace ++ rest.dropWhile isSpace :=
      List.takeWhile_append_dropWhile.symm
    have hlen₂ : rest.length = (rest.takeWhile isSpace).length + (rest.dropWhile isSpace).length := by
      rw [← List.length_append, ← hblanks]
    have hbuf₃ : (pre ++ cmd) ++ 0 :: post₁ = pre ++ (cmd ++ 0 :: (rest.takeWhile isSpace ++
        (rest.dropWhile isSpace ++ 0 :: post))) := by
      rw [List.append_assoc, ← hpost₁, ← List.append_assoc (rest.takeWhile isSpace), ← hblanks]
    refine ⟨pre, rest.takeWhile isSpace, hptr.le, by omega, ?_, ?_, ?_⟩
    · intro h
      exact hword (hwhole ▸ List.mem_append_left _ h)
    · intro h
      exact hrest0 (hblanks ▸ List.mem_append_right _ h)
    · rw [← hbuf₃, ← hptr]
      simp only [Bool.not_true, Bool.false_eq_true, if_false, hpoke, ok_bind, hskip₂]

theorem isolateCommand_eq (hbuf : buffer = pre ++ (line ++ 0 :: post)) (hptr : ptr = pre.length)
    (hline : (0 : UInt8) ∉ line) (hlimit : ptr + line.length < limit) (hn : line.length < n) :
    Isolates (isolateCommand limit n buffer ptr) buffer post ptr (ptr + line.length)
      (parseLine line) := by
  have hskip : skip limit isSpace buffer n ptr = _ :=
    skip_string isSpace_zero hbuf hptr hlimit hn
  obtain ⟨c, post₁, hword, -, -⟩ := stops_at isSpace isSpace_zero line post
  have hblanks : line = line.takeWhile isSpace ++ line.dropWhile isSpace :=
    List.takeWhile_append_dropWhile.symm
  rw [parseLine]
  generalize line.takeWhile isSpace = blanks at *
  generalize line.dropWhile isSpace = word at *
  have hlen : line.length = blanks.length + word.length := by rw [hblanks, List.length_append]
  have hstart : ptr + blanks.length = (pre ++ blanks).length := by rw [hptr, List.length_append]
  have hbuf₁ : buffer = (pre ++ blanks) ++ (word ++ 0 :: post) := by
    rw [hbuf, hblanks, List.append_assoc, List.append_assoc]
  have hpeek : peek limit buffer (ptr + blanks.length) = .ok c :=
    peek_eq (hword ▸ hbuf₁) hstart (by omega)
  rw [isolateCommand, hskip, ok_bind, hpeek, ok_bind]
  cases word with
  | nil =>
    obtain ⟨rfl, -⟩ := List.cons.inj hword
    rfl
  | cons c' word =>
    obtain ⟨rfl, -⟩ := List.cons.inj hword
    by_cases halnum : isAlnum c' = true
    · have hword0 : (0 : UInt8) ∉ c' :: word := fun h =>
        hline (hblanks ▸ List.mem_append_right _ h)
      have harg : Isolates (isolateArg limit n buffer _) _ _ _ _ _ :=
        isolateArg_eq hbuf₁ hstart hword0 halnum (by omega) (by omega)
      rw [halnum, hlen, ← Nat.add_assoc]
      exact harg.mono (Nat.le_add_right _ _)
    · rw [Bool.eq_false_iff.mpr halnum, parseWord, List.takeWhile_cons_of_neg halnum]
      rfl

/-! ## Section 4: The whole script -/

theorem commands_terminated : ∀ it ∈ commands, (0 : UInt8) ∉ it.1 := by decide

/-- What the loop reads back from an isolated command, and what it leaves in
    front of the cursor. -/
theorem Isolates.words {result : Except ScriptFault (Option (Nat × Nat) × Bytes)} {stop : Nat}
    {cmd arg : Bytes} (h : Isolates result buffer post ptr stop (some (cmd, arg)))
    (hlimit : stop < limit) (hn : stop ≤ ptr + n) :
    ∃ cmdPtr argPtr buffer' front, result = .ok (some (cmdPtr, argPtr), buffer') ∧
      findCommand limit buffer' cmdPtr commands = .ok (commands.lookup cmd) ∧
      stringAt limit buffer' (n + 1) cmdPtr = .ok cmd ∧
      stringAt limit buffer' (n + 1) argPtr = .ok arg ∧
      buffer' = front ++ 0 :: post ∧ front.length = stop := by
  obtain ⟨front, between, hfront, hstop, hcmd0, harg0, hresult⟩ := h
  have hbarg : front ++ (cmd ++ 0 :: (between ++ (arg ++ 0 :: post))) =
      (front ++ cmd ++ [0] ++ between) ++ (arg ++ 0 :: post) := by simp
  have hargptr : front.length + cmd.length + 1 + between.length =
      (front ++ cmd ++ [0] ++ between).length := by
    simp
    omega
  refine ⟨_, _, _, front ++ cmd ++ [0] ++ between ++ arg, hresult, ?find, ?cmd, ?arg, ?split, ?len⟩
  case find => exact findCommand_eq rfl rfl hcmd0 (by omega) commands_terminated
  case cmd => exact stringAt_eq rfl rfl hcmd0 (by omega) (by omega)
  case arg => exact stringAt_eq hbarg hargptr harg0 (by omega) (by omega)
  case split => rw [hbarg, List.append_assoc _ arg]
  case len => rw [List.length_append, ← hargptr, hstop]

/-- `RunScript` on a script that ends at the terminator in front of `limit`. -/
theorem runScript_eq (hbuf : buffer = pre ++ (rest ++ 0 :: behind)) (hptr : ptr = pre.length)
    (hrest : (0 : UInt8) ∉ rest) (hlimit : ptr + rest.length < limit) (hn : rest.length < n)
    (st : σ) : runScript limit host n st buffer ptr = host.expected rest st := by
  induction n generalizing buffer pre ptr rest st with
  | zero => omega
  | succ n ih =>
    cases rest with
    | nil =>
      have hpeek : peek limit buffer ptr = .ok 0 := peek_eq hbuf hptr hlimit
      rw [runScript, hpeek, ok_bind, if_pos rfl]
      rfl
    | cons c text =>
      have hc : c ≠ 0 := fun h => hrest (h ▸ List.mem_cons_self)
      have hpeek : peek limit buffer ptr = .ok c := peek_eq hbuf hptr (by omega)
      obtain ⟨line, gap, tail, post, hgap, hlen, htail, hline0, htail0, hlines, hisolate⟩ :=
        isolateLine_eq host hbuf hptr hrest (List.cons_ne_nil c text) hlimit hn
      have hcommand : Isolates (isolateCommand limit (n + 1) (pre ++ (line ++ 0 :: post)) ptr)
          (pre ++ (line ++ 0 :: post)) post ptr (ptr + line.length) (parseLine line) :=
        isolateCommand_eq rfl hptr hline0 (by omega) (by omega)
      -- whatever the line has become, the cursor is at the start of the next one
      have hnext : ∀ (st : σ) (buffer pre : Bytes), buffer = pre ++ 0 :: post →
          pre.length = ptr + line.length →
          runScript limit host n st buffer (ptr + line.length + gap.length) =
            host.expected tail st := by
        intro st buffer pre hbuf hpre
        have hbuf' : buffer = (pre ++ gap) ++ (tail ++ 0 :: behind) := by
          rw [hbuf, ← hgap, List.append_assoc]
        have hpre' : ptr + line.length + gap.length = (pre ++ gap).length := by
          rw [List.length_append, hpre]
        exact ih hbuf' hpre' htail0 (by omega) (by omega) st
      rw [runScript, hpeek, ok_bind, if_neg hc, ScriptHost.expected, hlines, ScriptHost.reference]
      dsimp only
      rw [hisolate, ok_bind]
      dsimp only
      cases hparse : parseLine line with
      | none =>
        rw [hparse] at hcommand
        have hskipped : isolateCommand limit (n + 1) _ ptr = .ok (none, _) := hcommand
        rw [hskipped, ok_bind]
        exact hnext st _ (pre ++ line) (List.append_assoc _ _ _).symm
          (by rw [List.length_append, hptr])
      | some words =>
        obtain ⟨cmd, arg⟩ := words
        rw [hparse] at hcommand
        have hstop : ptr + line.length < limit := by omega
        obtain ⟨cmdPtr, argPtr, buffer', front, hisolated, hfound, hcmd, harg, hsplit, hfront⟩ :=
          hcommand.words (n := n) hstop (by omega)
        rw [hisolated, ok_bind]
        dsimp only
        rw [hfound, ok_bind]
        cases commands.lookup cmd with
        | none =>
          dsimp only
          rw [hcmd, ok_bind]
        | some command =>
          dsimp only
          rw [harg, ok_bind]
          cases host.call command st arg with
          | none => rfl
          | some result =>
            obtain ⟨ok, st'⟩ := result
            cases ok with
            | false => rfl
            | true =>
              have hrun := hnext st' buffer' front hsplit hfront
              dsimp only
              rw [hrun, ScriptHost.expected]
              cases host.reference (tail.splitOn 0x0A) st' with
              | none => rfl
              | some r => rfl

end Line

/-! ## Section 5: The code model -/

section CodeModel

variable {limit n ptr stop : Nat} {p : UInt8 → Bool} {c x : UInt8} {buffer buffer' s name : Bytes}

theorem peek_ok (h : peek limit buffer ptr = .ok c) : ptr < limit ∧ charAt buffer ptr = c := by
  unfold peek at h
  split at h
  · next hlt =>
    cases h
    exact ⟨hlt, rfl⟩
  · cases h

theorem poke_ok (h : poke limit buffer ptr x = .ok buffer') : buffer' = buffer.set ptr x := by
  unfold poke at h
  split at h
  · cases h
    rfl
  · cases h

theorem drop_eq_cons (hlimit : limit ≤ buffer.length) (h : ptr < limit) :
    buffer.drop ptr = charAt buffer ptr :: buffer.drop (ptr + 1) := by
  have hlt : ptr < buffer.length := h.trans_le hlimit
  rw [List.drop_eq_getElem_cons hlt, charAt, List.getD_eq_getElem _ _ hlt]

theorem skip_ok (hlimit : limit ≤ buffer.length) (h : skip limit p buffer n ptr = .ok stop) :
    advance p buffer ptr = stop := by
  induction n generalizing ptr with
  | zero => cases h
  | succ n ih =>
    obtain ⟨c, hpeek, h⟩ := except_bind_eq_ok.mp h
    obtain ⟨hlt, hc⟩ := peek_ok hpeek
    rw [advance, drop_eq_cons hlimit hlt, hc]
    split at h
    · next hpc =>
      have hrest := ih h
      rw [advance] at hrest
      rw [List.takeWhile_cons_of_pos hpc, List.length_cons]
      omega
    · next hpc =>
      cases h
      rw [List.takeWhile_cons_of_neg hpc]
      rfl

theorem stringAt_ok (hlimit : limit ≤ buffer.length) (h : stringAt limit buffer n ptr = .ok s) :
    cstr (buffer.drop ptr) = s := by
  induction n generalizing ptr s with
  | zero => cases h
  | succ n ih =>
    obtain ⟨c, hpeek, h⟩ := except_bind_eq_ok.mp h
    obtain ⟨hlt, hc⟩ := peek_ok hpeek
    rw [drop_eq_cons hlimit hlt, hc]
    split at h
    · next hc0 =>
      cases h
      rw [hc0, cstr_cons_zero]
    · next hc0 =>
      obtain ⟨rest, hrest, h⟩ := except_bind_eq_ok.mp h
      cases h
      rw [cstr_cons_ne hc0, ih hrest]

theorem strEqual_ok {b : Bool} (hlimit : limit ≤ buffer.length) (hname : (0 : UInt8) ∉ name)
    (h : strEqual limit buffer name ptr = .ok b) :
    Hausboot.strEqual name (cstr (buffer.drop ptr)) = b := by
  rw [Hausboot.strEqual, cstr_of_notMem hname, cstr_of_notMem (zero_notMem_cstr _)]
  induction name generalizing ptr with
  | nil =>
    obtain ⟨c, hpeek, h⟩ := except_bind_eq_ok.mp h
    obtain ⟨hlt, hc⟩ := peek_ok hpeek
    cases h
    rw [drop_eq_cons hlimit hlt, hc]
    by_cases hc0 : c = 0
    · rw [hc0, cstr_cons_zero]
      rfl
    · rw [cstr_cons_ne hc0, beq_false_of_ne hc0]
      rfl
  | cons a name ih =>
    obtain ⟨c, hpeek, h⟩ := except_bind_eq_ok.mp h
    obtain ⟨hlt, hc⟩ := peek_ok hpeek
    have ha : a ≠ 0 := fun h => hname (h ▸ List.mem_cons_self)
    rw [drop_eq_cons hlimit hlt, hc]
    split at h
    · next hac =>
      cases h
      by_cases hc0 : c = 0
      · rw [hc0, cstr_cons_zero]
        rfl
      · rw [cstr_cons_ne hc0, List.cons_beq_cons, beq_false_of_ne hac, Bool.false_and]
    · next hac =>
      rw [not_not.mp hac] at ha ⊢
      rw [cstr_cons_ne ha, List.cons_beq_cons, beq_self_eq_true, Bool.true_and]
      exact ih (fun h => hname (List.mem_cons_of_mem _ h)) h

theorem findCommand_ok {table : List (Bytes × Command)} {found : Option Command}
    (hlimit : limit ≤ buffer.length) (htable : ∀ it ∈ table, (0 : UInt8) ∉ it.1)
    (h : findCommand limit buffer ptr table = .ok found) :
    (table.find? fun it => Hausboot.strEqual it.1 (cstr (buffer.drop ptr))).map Prod.snd =
      found := by
  induction table with
  | nil =>
    cases h
    rfl
  | cons it table ih =>
    obtain ⟨equal, hequal, h⟩ := except_bind_eq_ok.mp h
    rw [List.find?_cons, strEqual_ok hlimit (htable it List.mem_cons_self) hequal]
    cases equal with
    | true =>
      cases h
      rfl
    | false => exact ih (fun it hit => htable it (List.mem_cons_of_mem _ hit)) h

/-- The callbacks of stage2. -/
def stage2Host (w : World) (v : Volume) (mc : Machine) (fuel : Nat) : ScriptHost Boot where
  call command st arg := command.callback w v mc fuel st arg
  unknown st cmd := st.print [.text "Error, unknown command: ", .chars cmd, .text "\r\n"]

theorem isolateLine_ok {next : Nat} (hlimit : limit ≤ buffer.length)
    (h : isolateLine limit n buffer ptr = .ok (buffer', next)) :
    buffer'.length = buffer.length ∧
      (let stop := advance (fun x => x ≠ 0 && x ≠ 0x0A) buffer ptr
        if charAt buffer stop = 0x0A then (buffer.set stop 0, stop + 1) else (buffer, stop)) =
          (buffer', next) := by
  obtain ⟨stop, hskip, h⟩ := except_bind_eq_ok.mp h
  obtain ⟨c, hpeek, h⟩ := except_bind_eq_ok.mp h
  dsimp only
  rw [skip_ok hlimit hskip, (peek_ok hpeek).2]
  split at h
  · next hc =>
    obtain ⟨buffer₁, hpoke, h⟩ := except_bind_eq_ok.mp h
    cases h
    rw [if_pos hc, poke_ok hpoke, List.length_set]
    exact ⟨rfl, rfl⟩
  · next hc =>
    cases h
    rw [if_neg hc]
    exact ⟨rfl, rfl⟩

theorem isolateCommand_ok {found : Option (Nat × Nat)} {line : Nat}
    (hlimit : limit ≤ buffer.length)
    (h : isolateCommand limit n buffer line = .ok (found, buffer')) :
    buffer'.length = buffer.length ∧ Hausboot.isolateCommand buffer line =
      (found.map fun it => (cstr (buffer'.drop it.1), cstr (buffer'.drop it.2)), buffer') := by
  obtain ⟨cmd, hskip, h⟩ := except_bind_eq_ok.mp h
  obtain ⟨c, hpeek, h⟩ := except_bind_eq_ok.mp h
  have hc := (peek_ok hpeek).2
  unfold Hausboot.isolateCommand
  dsimp only
  rw [skip_ok hlimit hskip, hc]
  split at h
  · next halnum =>
    cases h
    rw [if_pos halnum]
    exact ⟨rfl, rfl⟩
  next halnum =>
  obtain ⟨stop, hskip₁, h⟩ := except_bind_eq_ok.mp h
  obtain ⟨d, hpeek₁, h⟩ := except_bind_eq_ok.mp h
  obtain ⟨c', hpeek', h⟩ := except_bind_eq_ok.mp h
  have hc' := (peek_ok hpeek').2
  rw [hc] at hc'
  subst hc'
  rw [if_neg halnum, skip_ok hlimit hskip₁, (peek_ok hpeek₁).2]
  split at h
  · next hguard =>
    cases h
    rw [if_pos hguard]
    exact ⟨rfl, rfl⟩
  next hguard =>
  obtain ⟨buffer₁, hpoke, h⟩ := except_bind_eq_ok.mp h
  obtain ⟨arg, hskip₂, h⟩ := except_bind_eq_ok.mp h
  cases h
  have hset := poke_ok hpoke
  have hlen : buffer'.length = buffer.length := by rw [hset, List.length_set]
  rw [if_neg hguard, ← hset, skip_ok (hlimit.trans hlen.ge) hskip₂]
  exact ⟨hlen, rfl⟩

/-- Where the checked run ends, so does the run of the code model, and with the
    same callbacks. -/
theorem runScript_ok {w : World} {v : Volume} {mc : Machine} {fuel : Nat} {st st' : Boot}
    {calls : List (Command × Bytes)} (hlimit : limit ≤ buffer.length)
    (h : runScript limit (stage2Host w v mc fuel) n st buffer ptr = .ok (st', calls)) :
    ∃ cs, Hausboot.runScript w v mc fuel n st buffer ptr = some (st', cs) ∧
      cs.map (fun c => (c.command, c.arg)) = calls := by
  induction n generalizing st buffer ptr calls with
  | zero => cases h
  | succ n ih =>
    obtain ⟨c, hpeek, h⟩ := except_bind_eq_ok.mp h
    unfold Hausboot.runScript
    rw [(peek_ok hpeek).2]
    split at h
    · next hc =>
      cases h
      exact ⟨[], if_pos hc, rfl⟩
    next hc =>
    rw [if_neg hc]
    obtain ⟨⟨buffer₁, next⟩, hline, h⟩ := except_bind_eq_ok.mp h
    obtain ⟨⟨found, buffer₂⟩, hcommand, h⟩ := except_bind_eq_ok.mp h
    obtain ⟨hlen₁, hline⟩ := isolateLine_ok hlimit hline
    have hlimit₁ : limit ≤ buffer₁.length := hlimit.trans hlen₁.ge
    obtain ⟨hlen₂, hcommand⟩ := isolateCommand_ok hlimit₁ hcommand
    have hlimit₂ : limit ≤ buffer₂.length := hlimit₁.trans hlen₂.ge
    dsimp only at hline ⊢
    rw [hline]
    dsimp only
    rw [hcommand]
    cases found with
    | none => exact ih hlimit₂ h
    | some it =>
      obtain ⟨cmd, arg⟩ := it
      obtain ⟨found, hfind, h⟩ := except_bind_eq_ok.mp h
      have hfind := findCommand_ok hlimit₂ commands_terminated hfind
      dsimp only [Option.map_some]
      cases hentry : commands.find? fun it => Hausboot.strEqual it.1 (cstr (buffer₂.drop cmd)) with
      -- A word that is in no entry of the table ends the script.
      | none =>
        rw [hentry] at hfind
        subst hfind
        obtain ⟨name, hname, h⟩ := except_bind_eq_ok.mp h
        cases h
        rw [stringAt_ok hlimit₂ hname]
        exact ⟨[], rfl, rfl⟩
      | some entry =>
        obtain ⟨word, command⟩ := entry
        rw [hentry] at hfind
        subst hfind
        obtain ⟨argument, harg, h⟩ := except_bind_eq_ok.mp h
        rw [stringAt_ok hlimit₂ harg]
        dsimp only [Option.map_some] at h ⊢
        have hcall : (stage2Host w v mc fuel).call command st argument =
            command.callback w v mc fuel st argument := rfl
        rw [hcall] at h
        cases hresult : command.callback w v mc fuel st argument with
        | none =>
          rw [hresult] at h
          cases h
        | some result =>
          obtain ⟨ok, st₁⟩ := result
          rw [hresult] at h
          cases ok with
          -- A failed command is the last one called, the next line is read after any other.
          | false =>
            cases h
            exact ⟨[⟨command, argument, st, false, st'⟩], rfl, rfl⟩
          | true =>
            obtain ⟨⟨st₂, rest⟩, hrest, h⟩ := except_bind_eq_ok.mp h
            cases h
            obtain ⟨cs, hrun, hcs⟩ := ih hlimit₂ hrest
            refine ⟨⟨command, argument, st, true, st₁⟩ :: cs, ?_, ?_⟩
            · simp only [Option.bind_eq_bind, Option.bind_some, if_true, hrun]
            · rw [List.map_cons, hcs]

end CodeModel

end Checked

/-! ## Section 6: The grammar -/

section Grammar

variable {σ : Type} (host : ScriptHost σ)

/-- The reference has a result if every callback returns. -/
theorem reference_total (hcall : ∀ command st arg, (host.call command st arg).isSome = true)
    (lines : List Bytes) (st : σ) : ∃ r, host.reference lines st = some r := by
  induction lines generalizing st with
  | nil => exact ⟨_, rfl⟩
  | cons line lines ih =>
    rw [ScriptHost.reference]
    cases parseLine line with
    | none => exact ih st
    | some words =>
      obtain ⟨cmd, arg⟩ := words
      dsimp only
      cases commands.lookup cmd with
      | none => exact ⟨_, rfl⟩
      | some command =>
        obtain ⟨⟨ok, st'⟩, hresult⟩ := Option.isSome_iff_exists.mp (hcall command st arg)
        dsimp only
        rw [hresult]
        cases ok with
        | false => exact ⟨_, rfl⟩
        | true =>
          obtain ⟨r, hr⟩ := ih st'
          dsimp only
          rw [hr]
          exact ⟨_, rfl⟩

/-- On every terminated buffer, `RunScript` invokes the callbacks that the
    reference names, with the same arguments and in the same order, accesses
    nothing behind the terminator, and ends if every callback returns. -/
theorem runScript_grammar {text : Bytes} {n : Nat} (behind : Bytes) (st : σ)
    (hterm : (0 : UInt8) ∉ text) (hn : text.length < n) :
    Checked.runScript (text.length + 1) host n st (text ++ 0 :: behind) 0 =
        host.expected text st ∧
      ((∀ command st arg, (host.call command st arg).isSome = true) →
        ∃ r, Checked.runScript (text.length + 1) host n st (text ++ 0 :: behind) 0 = .ok r) ∧
      ∀ (w : World) (v : Volume) (mc : Machine) (fuel : Nat) (boot boot' : Boot)
        (calls : List (Command × Bytes)),
        (Checked.stage2Host w v mc fuel).reference (text.splitOn 0x0A) boot =
            some (boot', calls) →
          ∃ cs, runScript w v mc fuel n boot (text ++ 0 :: behind) 0 = some (boot', cs) ∧
            cs.map (fun c => (c.command, c.arg)) = calls := by
  have hrun : ∀ {τ : Type} (host : ScriptHost τ) (st : τ),
      Checked.runScript (text.length + 1) host n st (text ++ 0 :: behind) 0 =
        host.expected text st := fun host st =>
    Checked.runScript_eq host (List.nil_append _).symm rfl hterm
      (by rw [List.length_nil, Nat.zero_add]; exact Nat.lt_succ_self _) hn st
  refine ⟨hrun host st, ?_, ?_⟩
  · intro hcall
    obtain ⟨r, hr⟩ := reference_total host hcall (text.splitOn 0x0A) st
    exact ⟨r, by rw [hrun, ScriptHost.expected, hr]⟩
  · intro w v mc fuel boot boot' calls href
    have hlimit : text.length + 1 ≤ (text ++ 0 :: behind).length := by
      rw [List.length_append, List.length_cons]
      omega
    refine Checked.runScript_ok hlimit ?_
    rw [hrun, ScriptHost.expected, href]

/-- A line that is no command, a comment, and an argument with blanks in it;
    the last line has no newline. -/
theorem runScript_grammar_boot :
    Checked.runScript 36 ⟨fun _ k _ => some (true, k + 1), fun k _ => k⟩ 36 0
        (str "#echo\n\n echo  a b\t\nechoes\ninfo\tdisk" ++ [0, 0x41]) 0 =
      .ok (2, [(.echo, str "a b\t"), (.info, str "disk")]) :=
  (runScript_grammar ⟨fun _ k _ => some (true, k + 1), fun k _ => k⟩ [0x41] 0
    (by decide : (0 : UInt8) ∉ str "#echo\n\n echo  a b\t\nechoes\ninfo\tdisk")
    (by decide)).1.trans (by decide)

end Grammar

end Hausboot

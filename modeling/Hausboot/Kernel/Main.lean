import Hausboot.Device.TextScreen
import Hausboot.Kernel.Console
import Hausboot.Mmap.LoaderName

/-! # The Kernel: What it Shows

    `multiboot_main` of the kernel, on its text screen: a header of five lines,
    and a line for each entry of the memory map that stage2 has handed over. No
    line is wrapped, so the output takes as many rows as it has lines. The screen
    has 25 rows, and the end of the 25th line does not return. A size of ten digits
    does not fit in the buffer for it. So the kernel gets to its end exactly if the
    BIOS has answered with fewer than 20 entries and neither of the sizes that it
    reports is that large (`kernel_shows_answers`). -/

open ByteLib

namespace Hausboot

open Mmap

namespace VideoMemory

/-! ## Section 1: The code -/

section Code

variable (fuel : ℕ) (dec : TextScreen.Buffer 10) (hex : TextScreen.Buffer 17)

/-- `PutChar`, as the screen calls its driver. -/
def putNext (vm : Option VideoMemory) (c : UInt8) : Option VideoMemory := vm.bind (putChar fuel · c)

/-- `operator<<`, `WriteHex` and `WriteDecimal` of `TextScreen<VideoMemory>`. What
    is in the buffers at first does not matter. -/
def writeOp (vm : VideoMemory) : ScreenOp → Option VideoMemory
  | .text s => putChars fuel vm (str s)
  | .chars cs => putChars fuel vm cs
  | .decimal n => (TextScreen.writeDecimal (putNext fuel) dec (some vm) (UInt32.ofNat n)).join
  | .hex n => (TextScreen.writeHex (putNext fuel) hex (some vm) (UInt64.ofNat n)).join

def writeOps (vm : VideoMemory) (ops : List ScreenOp) : Option VideoMemory :=
  ops.foldlM (writeOp fuel dec hex) vm

/-- The C string at an address. -/
def stringAt (m : Store) : ℕ → ℕ → Option Bytes
  | 0, _ => none
  | n + 1, a => if m a = 0 then some [] else (stringAt m n (a + 1)).map (m a :: ·)

/-- `multiboot_main`, up to its `hlt` loop. `mem` is what text memory holds at
    first. -/
def multibootMain (read64 : Bytes → ℕ) (m : Store) (info signature : ℕ) (mem : ℕ → UInt16) :
    Option VideoMemory := do
  let vm := ((new mem).setColor .white .blue).reset
  let vm ← writeOps fuel dec hex vm [.text "Hello 32 bit world!", .text "\r\n"]
  if signature ≠ 0x2BADB002 then
    writeOps fuel dec hex vm [.text "Multi boot signature is broken!", .text "\r\n"]
  else
    let name ← stringAt m fuel (MultiBootInfo.bootLoaderName m info)
    let vm ← writeOps fuel dec hex vm [.text "Boot loader name: ", .chars name, .text "\r\n"]
    let vm ← writeOps fuel dec hex vm
      [.text "Low memory: ", .decimal (MultiBootInfo.lowMemoryCount m info), .text "k", .text "\r\n"]
    let vm ← writeOps fuel dec hex vm
      [.text "High memory: ", .decimal (MultiBootInfo.highMemoryCount m info), .text "k",
        .text "\r\n"]
    let ops ← printMemoryMap read64 fuel m info
    writeOps fuel dec hex vm ops

end Code

/-! ## Section 2: Output operations as text -/

def opText : ScreenOp → Bytes
  | .text s => str s
  | .chars cs => cs
  | .decimal n => Decimal.decimal n
  | .hex n => TextScreen.hexText 16 (n % 2 ^ 64)

def opsText (ops : List ScreenOp) : Bytes := ops.flatMap opText

/-- A number for which the buffer has room. -/
def Fits : ScreenOp → Prop
  | .decimal n => n < 10 ^ 9
  | .text _ | .chars _ | .hex _ => True

section Text

variable {fuel : ℕ} {dec : TextScreen.Buffer 10} {hex : TextScreen.Buffer 17}

theorem foldl_putNext (vm : Option VideoMemory) (cs : Bytes) :
    cs.foldl (putNext fuel) vm = vm.bind (putChars fuel · cs) := by
  induction cs generalizing vm with
  | nil => cases vm <;> rfl
  | cons c cs ih =>
    rw [List.foldl_cons, ih, putNext, Option.bind_assoc]
    rfl

theorem putChars_append (vm : VideoMemory) (cs ds : Bytes) :
    putChars fuel vm (cs ++ ds) = (putChars fuel vm cs).bind (putChars fuel · ds) :=
  List.foldlM_append

theorem writeOp_eq {op : ScreenOp} (h : Fits op) (vm : VideoMemory) :
    writeOp fuel dec hex vm op = putChars fuel vm (opText op) := by
  cases op with
  | text s => rfl
  | chars cs => rfl
  | decimal n =>
    have hn : n < 10 ^ 9 := h
    have hnat : (UInt32.ofNat n).toNat = n := UInt32.toNat_ofNat_of_lt' (Nat.lt_trans hn (by decide))
    rw [writeOp, TextScreen.writeDecimal_eq, hnat, if_pos hn, Option.join_some, foldl_putNext]
    rfl
  | hex n =>
    rw [writeOp, TextScreen.writeHex_eq, UInt64.toNat_ofNat', Option.join_some, foldl_putNext]
    rfl

/-- A number of ten digits overruns the buffer. -/
theorem writeOp_overflow {n : ℕ} (hn : 10 ^ 9 ≤ n) (hfits : n < 2 ^ 32) (vm : VideoMemory) :
    writeOp fuel dec hex vm (.decimal n) = none := by
  have hnat : (UInt32.ofNat n).toNat = n := UInt32.toNat_ofNat_of_lt' hfits
  rw [writeOp, TextScreen.writeDecimal_eq, hnat, if_neg (Nat.not_lt.mpr hn)]
  rfl

theorem writeOps_overflow {n : ℕ} (hn : 10 ^ 9 ≤ n) (hfits : n < 2 ^ 32) (op : ScreenOp)
    (ops : List ScreenOp) (vm : VideoMemory) :
    writeOps fuel dec hex vm (op :: .decimal n :: ops) = none := by
  rw [writeOps, List.foldlM_cons]
  cases writeOp fuel dec hex vm op with
  | none => rfl
  | some vm' =>
    show List.foldlM _ vm' (.decimal n :: ops) = none
    rw [List.foldlM_cons, writeOp_overflow hn hfits]
    rfl

theorem writeOps_eq {ops : List ScreenOp} (h : ∀ op ∈ ops, Fits op) (vm : VideoMemory) :
    writeOps fuel dec hex vm ops = putChars fuel vm (opsText ops) := by
  induction ops generalizing vm with
  | nil => rfl
  | cons op ops ih =>
    obtain ⟨hop, hops⟩ := List.forall_mem_cons.mp h
    rw [opsText, List.flatMap_cons, putChars_append, ← writeOp_eq hop]
    exact congrArg _ (funext fun vm' => ih hops vm')

/-- Where one output ends and the next begins makes no difference. -/
theorem writeOps_bind {ops : List ScreenOp} (h : ∀ op ∈ ops, Fits op) (vm : VideoMemory)
    (cs : Bytes) : (putChars fuel vm cs).bind (writeOps fuel dec hex · ops) =
      putChars fuel vm (cs ++ opsText ops) := by
  rw [putChars_append]
  exact congrArg _ (funext fun vm' => writeOps_eq h vm')

theorem writeOps_bind_bind {ops : List ScreenOp} (h : ∀ op ∈ ops, Fits op) (vm : VideoMemory)
    (cs : Bytes) (f : VideoMemory → Option VideoMemory) :
    ((putChars fuel vm cs).bind fun vm' => (writeOps fuel dec hex vm' ops).bind f) =
      (putChars fuel vm (cs ++ opsText ops)).bind f := by
  rw [← writeOps_bind h, Option.bind_assoc]

end Text

/-! ## Section 3: Lines -/

def Printable (cs : Bytes) : Prop := ∀ c ∈ cs, 0x20 ≤ c ∧ c ≤ 0x7E

instance (cs : Bytes) : Decidable (Printable cs) :=
  List.decidableBAll (fun c => 0x20 ≤ c ∧ c ≤ 0x7E) cs

def crlf : Bytes := [0x0D, 0x0A]

/-- A text that stays on its row. -/
structure Row (cs : Bytes) : Prop where
  printable : Printable cs
  length_lt : cs.length < width

theorem cursor_printable {cs : Bytes} (hcs : Printable cs) {k b : ℕ} (hlt : k + cs.length < width) :
    cs.foldl Cursor.put ⟨k, b⟩ = ⟨k + cs.length, b⟩ := by
  induction cs generalizing k with
  | nil => rfl
  | cons c cs ih =>
    obtain ⟨hc, hcs⟩ := List.forall_mem_cons.mp hcs
    rw [List.length_cons] at hlt ⊢
    have hput : Cursor.put ⟨k, b⟩ c = ⟨k + 1, b⟩ := by
      have hcr : c ≠ 0x0D := fun h => absurd (h ▸ hc.1) (by decide)
      have hlf : c ≠ 0x0A := fun h => absurd (h ▸ hc.1) (by decide)
      have htab : c ≠ 0x09 := fun h => absurd (h ▸ hc.1) (by decide)
      rw [Cursor.put, if_neg hcr, if_neg hlf, if_neg htab, if_pos hc, Cursor.type,
        if_pos (show k + 1 < width by omega)]
    rw [List.foldl_cons, hput, ih hcs (by omega), Nat.add_assoc, Nat.add_comm 1]

theorem cursor_row {cs : Bytes} (h : Row cs) (b : ℕ) :
    (cs ++ crlf).foldl Cursor.put ⟨0, b⟩ = ⟨0, b + 1⟩ := by
  have hlt := h.length_lt
  rw [List.foldl_append, cursor_printable h.printable (by omega)]
  rfl

/-- As many line breaks as there are lines. -/
theorem cursor_rows {rows : List Bytes} (h : ∀ row ∈ rows, Row row) (b : ℕ) :
    (rows.flatMap (· ++ crlf)).foldl Cursor.put ⟨0, b⟩ = ⟨0, b + rows.length⟩ := by
  induction rows generalizing b with
  | nil => rfl
  | cons row rows ih =>
    obtain ⟨hrow, hrows⟩ := List.forall_mem_cons.mp h
    rw [List.flatMap_cons, List.foldl_append, cursor_row hrow, ih hrows, List.length_cons,
      Nat.add_assoc, Nat.add_comm 1]

/-! ### What is printable -/

theorem Printable.append {cs ds : Bytes} (hcs : Printable cs) (hds : Printable ds) :
    Printable (cs ++ ds) := fun c hc => (List.mem_append.mp hc).elim (hcs c) (hds c)

theorem printable_decimal (n : ℕ) : Printable (Decimal.decimal n) := by
  have hdigits : ∀ c ∈ Decimal.digits n, 0x20 ≤ c ∧ c ≤ 0x7E := by
    intro c hc
    have hrange := Decimal.mem_digits hc
    exact ⟨UInt8.le_iff_toNat_le.mpr (Nat.le_trans (by decide) hrange.1),
      UInt8.le_iff_toNat_le.mpr (Nat.le_trans hrange.2 (by decide))⟩
  rw [Decimal.decimal]
  split
  · decide
  · exact hdigits

theorem length_decimal_le {n : ℕ} (hn : n < 10 ^ 9) : (Decimal.decimal n).length ≤ 9 := by
  rw [Decimal.decimal]
  split
  · decide
  · exact (Decimal.length_digits_le_iff n 9).mpr hn

theorem printable_hexText (count v : ℕ) : Printable (TextScreen.hexText count v) := by
  intro c hc
  obtain ⟨i, -, rfl⟩ := List.mem_map.mp hc
  have hlt := Nat.mod_lt (v / 16 ^ (count - 1 - i)) (show 16 > 0 by decide)
  generalize v / 16 ^ (count - 1 - i) % 16 = d at hlt
  interval_cases d <;> decide

theorem length_hexText (count v : ℕ) : (TextScreen.hexText count v).length = count := by
  rw [TextScreen.hexText, List.length_map, List.length_range]

/-! ## Section 4: The output of the kernel -/

section Kernel

variable (read64 : Bytes → ℕ)

/-- The line of an entry. -/
def entryRow (e : Mmap.MemoryMapEntry) : Bytes := opsText (printEntry read64 e).dropLast

def kernelRows (name : Bytes) (low high : ℕ) (es : List Bytes) : List Bytes :=
  [str "Hello 32 bit world!", str "Boot loader name: " ++ name,
    str "Low memory: " ++ Decimal.decimal low ++ str "k",
    str "High memory: " ++ Decimal.decimal high ++ str "k", str "Multiboot memory map:"] ++
  es.map fun e => entryRow read64 ⟨e⟩

theorem str_crlf : str "\r\n" = crlf := by decide

theorem opsText_append (ops ops' : List ScreenOp) :
    opsText (ops ++ ops') = opsText ops ++ opsText ops' := List.flatMap_append

theorem opsText_flatten (lines : List (List ScreenOp)) :
    opsText lines.flatten = lines.flatMap opsText := by
  induction lines with
  | nil => rfl
  | cons line lines ih => rw [List.flatten_cons, opsText_append, ih, List.flatMap_cons]

theorem opsText_printEntry (e : Mmap.MemoryMapEntry) :
    opsText (printEntry read64 e) = entryRow read64 e ++ crlf := by
  have hlast : printEntry read64 e = (printEntry read64 e).dropLast ++ [.text "\r\n"] := rfl
  conv_lhs => rw [hlast, opsText_append]
  rw [entryRow, opsText, opsText, List.flatMap_singleton, opText, str_crlf]

theorem fits_printEntry (e : Mmap.MemoryMapEntry) : ∀ op ∈ printEntry read64 e, Fits op := by
  simp [printEntry, Fits]

theorem row_entry (e : Mmap.MemoryMapEntry) : Row (entryRow read64 e) := by
  have hbar : Printable (str " | ") ∧ (str " | ").length = 3 := by decide
  have htype : Printable (str e.typeAsString) ∧ (str e.typeAsString).length ≤ 8 := by
    rw [Mmap.MemoryMapEntry.typeAsString]
    split <;> decide
  generalize hstop : (if e.size read64 > 0 then
      if (e.baseAddress read64 + e.size read64) % 2 ^ 64 < e.baseAddress read64 then
        0xFFFFFFFFFFFFFFFF
      else (e.baseAddress read64 + e.size read64) % 2 ^ 64 - 1
    else e.baseAddress read64) = stop
  have htext : entryRow read64 e = TextScreen.hexText 16 (e.baseAddress read64 % 2 ^ 64) ++
      (str " | " ++ (TextScreen.hexText 16 (stop % 2 ^ 64) ++
        (str " | " ++ (str e.typeAsString ++ [])))) := by
    rw [← hstop]
    rfl
  rw [htext, List.append_nil]
  refine ⟨(printable_hexText _ _).append (hbar.1.append ((printable_hexText _ _).append
    (hbar.1.append htype.1))), ?_⟩
  -- 16 digits twice, two bars and at most eight letters
  have hwidth : width = 80 := rfl
  simp only [List.length_append, length_hexText, hbar.2]
  omega

/-- No line of the kernel is wrapped. -/
theorem row_kernel {name : Bytes} (hname : Printable name) (hlen : name.length ≤ 61)
    {low high : ℕ} (hlow : low < 10 ^ 9) (hhigh : high < 10 ^ 9) (es : List Bytes) :
    ∀ row ∈ kernelRows read64 name low high es, Row row := by
  have hwidth : width = 80 := rfl
  have hcount : ∀ {pre : Bytes} {n : ℕ}, Printable pre ∧ pre.length ≤ 20 → n < 10 ^ 9 →
      Row (pre ++ Decimal.decimal n ++ str "k") := by
    intro pre n hpre hn
    have hk : Printable (str "k") ∧ (str "k").length = 1 := by decide
    have hdec := length_decimal_le hn
    refine ⟨(hpre.1.append (printable_decimal n)).append hk.1, ?_⟩
    rw [List.length_append, List.length_append, hk.2]
    omega
  have htitle : Printable (str "Boot loader name: ") ∧ (str "Boot loader name: ").length = 18 := by
    decide
  intro row hrow
  simp only [kernelRows, List.cons_append, List.nil_append, List.mem_cons, List.mem_map] at hrow
  rcases hrow with rfl | rfl | rfl | rfl | rfl | ⟨e, -, rfl⟩
  · exact ⟨by decide, by decide⟩
  · refine ⟨htitle.1.append hname, ?_⟩
    rw [List.length_append, htitle.2]
    omega
  · exact hcount (by decide) hlow
  · exact hcount (by decide) hhigh
  · exact ⟨by decide, by decide⟩
  · exact row_entry read64 ⟨e⟩

variable {fuel : ℕ} {m : Store} {info : ℕ}

/-- **multiboot_main** puts out its lines. -/
theorem multibootMain_eq {name : Bytes} {es : List Bytes}
    (hname : stringAt m fuel (MultiBootInfo.bootLoaderName m info) = some name)
    (hlow : MultiBootInfo.lowMemoryCount m info < 10 ^ 9)
    (hhigh : MultiBootInfo.highMemoryCount m info < 10 ^ 9)
    (hprints : Prints read64 m info es) (hfuel : es.length < fuel)
    (dec : TextScreen.Buffer 10) (hex : TextScreen.Buffer 17) (mem : ℕ → UInt16) :
    multibootMain fuel dec hex read64 m info 0x2BADB002 mem =
      putChars fuel ((new mem).setColor .white .blue).reset
        ((kernelRows read64 name (MultiBootInfo.lowMemoryCount m info)
          (MultiBootInfo.highMemoryCount m info) es).flatMap (· ++ crlf)) := by
  have hfirst : ∀ op ∈ [ScreenOp.text "Hello 32 bit world!", .text "\r\n"], Fits op := by
    simp [Fits]
  have hloader : ∀ op ∈ [ScreenOp.text "Boot loader name: ", .chars name, .text "\r\n"], Fits op := by
    simp [Fits]
  have hcount : ∀ pre n, n < 10 ^ 9 →
      ∀ op ∈ [ScreenOp.text pre, .decimal n, .text "k", .text "\r\n"], Fits op := by
    intro pre n hn
    simpa [Fits] using hn
  have hmap : ∀ op ∈ [ScreenOp.text "Multiboot memory map:", .text "\r\n"] ++
      (es.map fun e => printEntry read64 ⟨e⟩).flatten, Fits op := by
    intro op hop
    rcases List.mem_append.mp hop with hop | hop
    · rcases List.mem_pair.mp hop with rfl | rfl <;> trivial
    · obtain ⟨line, hline, hop⟩ := List.mem_flatten.mp hop
      obtain ⟨e, -, rfl⟩ := List.mem_map.mp hline
      exact fits_printEntry read64 ⟨e⟩ op hop
  -- the outputs follow each other, so they are one text
  rw [multibootMain]
  simp only [ne_eq, not_true_eq_false, if_false, hname, hprints fuel hfuel, Option.bind_eq_bind,
    Option.bind_some]
  rw [writeOps_eq hfirst, writeOps_bind_bind hloader, writeOps_bind_bind (hcount _ _ hlow),
    writeOps_bind_bind (hcount _ _ hhigh), writeOps_bind hmap]
  congr 1
  simp only [opsText_append, opsText_flatten, List.flatMap_map, opsText_printEntry]
  simp only [kernelRows, opsText, List.flatMap_append, List.flatMap_cons, List.flatMap_nil, opText,
    str_crlf, List.append_nil, List.append_assoc, List.flatMap_map]

/-- What the console shows after the output of the kernel. -/
def kernelScreen (mem : ℕ → UInt16) (name : Bytes) (low high : ℕ) (es : List Bytes) : Screen :=
  ((kernelRows read64 name low high es).flatMap (· ++ crlf)).foldl
    (Screen.put ((new mem).setColor .white .blue).blankCell)
    ((new mem).setColor .white .blue).reset.screen

/-- The kernel is done after fewer than 25 lines, and else it never is. -/
theorem multibootMain_outcome {name : Bytes} {es : List Bytes}
    (hname : stringAt m fuel (MultiBootInfo.bootLoaderName m info) = some name)
    (hprintable : Printable name) (hlen : name.length ≤ 61)
    (hlow : MultiBootInfo.lowMemoryCount m info < 10 ^ 9)
    (hhigh : MultiBootInfo.highMemoryCount m info < 10 ^ 9)
    (hprints : Prints read64 m info es) (hfuel : es.length < fuel)
    (dec : TextScreen.Buffer 10) (hex : TextScreen.Buffer 17) (mem : ℕ → UInt16) :
    Outcome (multibootMain fuel dec hex read64 m info 0x2BADB002 mem) ⟨0, 5 + es.length⟩
      (kernelScreen read64 mem name (MultiBootInfo.lowMemoryCount m info)
        (MultiBootInfo.highMemoryCount m info) es) := by
  have hshows : Shows ((new mem).setColor .white .blue).reset _ := shows_reset rfl
  have hbreaks := cursor_rows (row_kernel read64 hprintable hlen hlow hhigh es) 0
  have hrows : (kernelRows read64 name (MultiBootInfo.lowMemoryCount m info)
      (MultiBootInfo.highMemoryCount m info) es).length = 5 + es.length := by
    rw [kernelRows, List.length_append, List.length_map]
    rfl
  rw [hrows, Nat.zero_add] at hbreaks
  rw [multibootMain_eq read64 hname hlow hhigh hprints hfuel dec hex mem, ← hbreaks]
  exact putChars_outcome _ _ hshows ⟨rfl, rfl⟩ _

/-- A counter that has ten digits is never put out. -/
theorem multibootMain_overflow (dec : TextScreen.Buffer 10) (hex : TextScreen.Buffer 17)
    (mem : ℕ → UInt16) (h : 10 ^ 9 ≤ MultiBootInfo.lowMemoryCount m info ∨
      10 ^ 9 ≤ MultiBootInfo.highMemoryCount m info) :
    multibootMain fuel dec hex read64 m info 0x2BADB002 mem = none := by
  have hlow : MultiBootInfo.lowMemoryCount m info < 2 ^ 32 := Store.readLE_lt _ _ 4
  have hhigh : MultiBootInfo.highMemoryCount m info < 2 ^ 32 := Store.readLE_lt _ _ 4
  rw [multibootMain]
  simp only [ne_eq, not_true_eq_false, if_false, Option.bind_eq_bind]
  rcases h with h | h
  · simp only [writeOps_overflow h hlow, Option.bind_none, Option.bind_fun_none]
  · simp only [writeOps_overflow h hhigh, Option.bind_none, Option.bind_fun_none]

/-- The kernel gets to its end exactly if all of its lines fit on the screen and
    both counters fit in the buffer. -/
theorem multibootMain_ends {name : Bytes} {es : List Bytes}
    (hname : stringAt m fuel (MultiBootInfo.bootLoaderName m info) = some name)
    (hprintable : Printable name) (hlen : name.length ≤ 61)
    (hprints : Prints read64 m info es) (hfuel : es.length < fuel)
    (dec : TextScreen.Buffer 10) (hex : TextScreen.Buffer 17) (mem : ℕ → UInt16) :
    (∀ vm, multibootMain fuel dec hex read64 m info 0x2BADB002 mem = some vm →
      Shows vm (kernelScreen read64 mem name (MultiBootInfo.lowMemoryCount m info)
        (MultiBootInfo.highMemoryCount m info) es)) ∧
    ((∃ vm, multibootMain fuel dec hex read64 m info 0x2BADB002 mem = some vm) ↔
      es.length < 20 ∧ MultiBootInfo.lowMemoryCount m info < 10 ^ 9 ∧
        MultiBootInfo.highMemoryCount m info < 10 ^ 9) := by
  by_cases hcounts : MultiBootInfo.lowMemoryCount m info < 10 ^ 9 ∧
      MultiBootInfo.highMemoryCount m info < 10 ^ 9
  · have hheight : height = 25 := rfl
    rcases multibootMain_outcome read64 hname hprintable hlen hcounts.1 hcounts.2 hprints hfuel
      dec hex mem with ⟨hlt, vm, hrun, hshows, -⟩ | ⟨hle, hrun⟩
    · dsimp only at hlt
      refine ⟨fun vm' hrun' => ?_, fun _ => ⟨by omega, hcounts⟩, fun _ => ⟨vm, hrun⟩⟩
      cases hrun.symm.trans hrun'
      exact hshows
    · dsimp only at hle
      rw [hrun]
      exact ⟨fun _ hsome => (nomatch hsome), fun ⟨_, hsome⟩ => (nomatch hsome),
        fun ⟨hfew, _⟩ => by omega⟩
  · rw [multibootMain_overflow read64 dec hex mem (by omega)]
    exact ⟨fun _ hsome => (nomatch hsome), fun ⟨_, hsome⟩ => (nomatch hsome),
      fun ⟨_, hfit⟩ => absurd hfit hcounts⟩

end Kernel

/-! ## Section 5: From the BIOS to the screen -/

/-- The text is still there in a memory that is the same there. -/
theorem stringAt_congr {m m' : Store} {n a : ℕ} {s : Bytes}
    (hsame : ∀ i, a ≤ i → i ≤ a + s.length → m' i = m i) (h : stringAt m n a = some s) :
    stringAt m' n a = some s := by
  induction n generalizing a s with
  | zero => cases h
  | succ n ih =>
    have hfirst := hsame a (Nat.le_refl a) (Nat.le_add_right a _)
    rw [stringAt] at h ⊢
    rw [hfirst]
    by_cases hend : m a = 0
    · rw [if_pos hend] at h ⊢
      exact h
    · rw [if_neg hend] at h ⊢
      obtain ⟨rest, hrest, rfl⟩ := Option.map_eq_some_iff.mp h
      rw [List.length_cons] at hsame
      rw [ih (fun i h1 h2 => hsame i (by omega) (by omega)) hrest, Option.map_some]

/-- The name of the loader, which does not lie on the heap and fits on its line. -/
structure NameAt (r : HeapRegion) (m : Store) (steps name : ℕ) (loader : Bytes) : Prop where
  stored : stringAt m steps name = some loader
  offHeap : ∀ a, name ≤ a → a ≤ name + loader.length → OffHeap r a
  fits : name < 2 ^ 32
  printable : Printable loader
  length_le : loader.length ≤ 61

/-- The size that is reported for the entries that set the counter. -/
def reported (read64 : Bytes → ℕ) (sets : Mmap.MemoryMapEntry → Bool) (es : List Bytes) : ℕ :=
  LastHit.lastHit sets (kib read64) 0 (es.map Mmap.MemoryMapEntry.mk)

/-- **From the BIOS to the screen.** Whatever up to 32 entries the BIOS answers,
    on the structure that stage2 makes of them the kernel gets to its end exactly
    if there are fewer than 20 of them and no size that it reports has ten digits;
    and then it shows its header and each of the entries. -/
theorem kernel_shows_answers (read64 : Bytes → ℕ) {r : HeapRegion} {σ : HeapRun}
    (hσ : r.Reachable σ) {fw : Mmap.Firmware} {es : List Bytes} (hes : Mmap.Answers fw 0 0 es)
    (hmax : es.length ≤ 32) {temp : Bytes} (htemp : temp.length = 20) (map₀ : MemoryMap)
    {steps name : ℕ} {loader : Bytes} (hname : NameAt r σ.heap.mem steps name loader)
    (hsteps : es.length < steps) (dec : TextScreen.Buffer 10) (hex : TextScreen.Buffer 17)
    (mem : ℕ → UInt16) :
    ∃ map, MemoryMap.load 32 fw temp map₀ = some (true, map) ∧
      ∀ {fuel info table : ℕ}, Allocates fuel σ.heap name map.count info table →
        ∃ h', Mmap.mbGenInfo read64 fuel σ.heap name map = some (info, h') ∧
          (∀ vm, multibootMain steps dec hex read64 h'.mem info 0x2BADB002 mem = some vm →
            Shows vm (kernelScreen read64 mem loader (reported read64 (SetsLow read64) es)
              (reported read64 (SetsHigh read64) es) es)) ∧
          ((∃ vm, multibootMain steps dec hex read64 h'.mem info 0x2BADB002 mem = some vm) ↔
            es.length < 20 ∧ reported read64 (SetsLow read64) es < 10 ^ 9 ∧
              reported read64 (SetsHigh read64) es < 10 ^ 9) := by
  obtain ⟨bs, hinv⟩ := runInv_reachable hσ
  obtain ⟨map, hload, hentries⟩ := load_spec hes (by decide) hmax htemp map₀
  refine ⟨map, hload, ?_⟩
  intro fuel info table halloc
  have hraw := hes.length_entry
  obtain ⟨h', hgen, hfirst, hlast, hfilled⟩ := mbGenInfo_spec read64 hinv hentries hraw hmax halloc
  obtain ⟨h₁, hgen₁, hlow, hhigh⟩ := mbGenInfo_counts read64 hinv hentries hraw hmax halloc
  obtain ⟨h₂, hgen₂, hptr, hkept⟩ :=
    mbGenInfo_name read64 hinv hentries hraw hmax hname.fits halloc
  -- the three results are about the same structure
  cases hgen.symm.trans hgen₁
  cases hgen.symm.trans hgen₂
  obtain ⟨_, _, -, -, -, htable⟩ := halloc
  have hprints := prints_of_filled read64 htable hfirst hlast hfilled
  have hloader : stringAt h'.mem steps (MultiBootInfo.bootLoaderName h'.mem info) = some loader := by
    rw [hptr]
    exact stringAt_congr (fun a h1 h2 => hkept a (hname.offHeap a h1 h2)) hname.stored
  have hends := multibootMain_ends read64 hloader hname.printable hname.length_le hprints hsteps
    dec hex mem
  rw [hlow, hhigh] at hends
  exact ⟨h', hgen, hends⟩

/-- 639k from address 0 on, which are free. -/
def lowEntry : Bytes := [0, 0, 0, 0, 0, 0, 0, 0, 0, 0xFC, 9, 0, 0, 0, 0, 0, 1, 0, 0, 0]

/-- A BIOS with this entry only. -/
def oneEntry : Mmap.Firmware := fun _ _ => ⟨false, Mmap.signature, 0, lowEntry⟩

set_option maxRecDepth 3000

/-- The kernel shows the entry, and its size as low memory. -/
theorem kernel_shows_one :
    ∃ map info h' vm, MemoryMap.load 32 oneEntry (List.replicate 20 0) ⟨fun _ => ⟨[]⟩, 0⟩ =
        some (true, map) ∧
      Mmap.mbGenInfo leNat 4 (heapInit (fun a => if a = 100 then 0x48 else 0) 4096 8192) 100 map =
        some (info, h') ∧
      multibootMain 2 ⟨List.replicate 10 0, rfl⟩ ⟨List.replicate 17 0, rfl⟩ leNat h'.mem info
        0x2BADB002 (fun _ => 0) = some vm ∧
      Shows vm (kernelScreen leNat (fun _ => 0) [0x48] 639 0 [lowEntry]) := by
  let r : HeapRegion := ⟨4096, 8192, by decide, by decide, by decide⟩
  let m : Store := fun a => if a = 100 then 0x48 else 0
  have hreach : r.Reachable (r.start m) := ⟨_, .refl⟩
  have hes : Mmap.Answers oneEntry 0 0 [lowEntry] := .last ⟨rfl, rfl, rfl⟩ rfl
  have hname : NameAt r (r.start m).heap.mem 2 100 [0x48] := by
    refine ⟨by decide, fun a h1 h2 => .inl ?_, by decide, by decide, by decide⟩
    rw [List.length_singleton] at h2
    exact Nat.lt_of_le_of_lt h2 (by decide)
  obtain ⟨map, hload, hshows⟩ := kernel_shows_answers leNat hreach hes (by decide)
    (List.length_replicate) ⟨fun _ => ⟨[]⟩, 0⟩ hname (by decide) ⟨List.replicate 10 0, rfl⟩
    ⟨List.replicate 17 0, rfl⟩ (fun _ => 0)
  obtain ⟨map', hload', hentries⟩ := load_spec hes (by decide) (show 1 ≤ 32 by decide)
    (List.length_replicate) ⟨fun _ => ⟨[]⟩, 0⟩
  cases hload.symm.trans hload'
  have hcount : map.count = 1 := count_of_entries hentries
  have hinfo : (newInfo 4 (r.start m).heap 100).map Prod.fst = some 4104 := by decide
  have htable : ((newInfo 4 (r.start m).heap 100).bind fun x => newTable 4 x.2 1).map Prod.fst =
      some 4240 := by decide
  obtain ⟨⟨info, h₁⟩, hnew, rfl⟩ := Option.map_eq_some_iff.mp hinfo
  obtain ⟨⟨table, h₂⟩, hnew', rfl⟩ := Option.map_eq_some_iff.mp htable
  rw [hnew] at hnew'
  obtain ⟨h', hgen, hscreen, hends⟩ :=
    hshows ⟨h₁, h₂, hnew, by decide, by rw [hcount]; exact hnew', by decide⟩
  have hlow : reported leNat (SetsLow leNat) [lowEntry] = 639 := by decide
  have hhigh : reported leNat (SetsHigh leNat) [lowEntry] = 0 := by decide
  rw [hlow, hhigh] at hscreen hends
  obtain ⟨vm, hrun⟩ := hends.mpr ⟨by decide, by decide, by decide⟩
  exact ⟨map, _, h', vm, hload, hgen, hrun, hscreen vm hrun⟩

end VideoMemory

end Hausboot

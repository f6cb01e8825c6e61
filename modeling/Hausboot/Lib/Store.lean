import Hausboot.Lib.Bytes

/-! # Byte Stores

    A store maps every address to a byte. `read` and `write` move whole
    byte strings, `readLE` and `writeLE` little-endian numbers of a given
    width. The lemmas say what a write changes and what it leaves alone. -/

open ByteLib

abbrev Store : Type := Nat → UInt8

namespace Store

/-- The `n` bytes from address `a` on. -/
def read (m : Store) (a n : Nat) : Bytes := (List.range n).map fun i => m (a + i)

/-- The store with the byte string `d` placed at address `a`. -/
def write (m : Store) (a : Nat) (d : Bytes) : Store :=
  fun i => if a ≤ i ∧ i < a + d.length then d.getD (i - a) 0 else m i

def readLE (m : Store) (a n : Nat) : Nat := leNat (m.read a n)

def writeLE (m : Store) (a n v : Nat) : Store := m.write a (leBytes n v)

/-! ## Section 1: Reading -/

@[simp] theorem length_read (m : Store) (a n : Nat) : (m.read a n).length = n := by
  simp [read]

theorem getElem?_read (m : Store) (a n i : Nat) :
    (m.read a n)[i]? = if i < n then some (m (a + i)) else none := by
  by_cases h : i < n <;> simp [read, h]

/-- A read depends on the bytes of its window only. -/
theorem read_congr {m m' : Store} {a n : Nat} (h : ∀ i, a ≤ i → i < a + n → m i = m' i) :
    m.read a n = m'.read a n := by
  apply List.map_congr_left
  intro i hi
  exact h (a + i) (by omega) (by have := List.mem_range.mp hi; omega)

theorem read_add (m : Store) (a n k : Nat) :
    m.read a (n + k) = m.read a n ++ m.read (a + n) k := by
  simp [read, List.range_add, Nat.add_assoc, Function.comp_def]

theorem slice_read (m : Store) {a n o k : Nat} (h : o + k ≤ n) :
    slice (m.read a n) o k = m.read (a + o) k := by
  obtain ⟨r, rfl⟩ := Nat.exists_eq_add_of_le h
  have hlen : (m.read a o).length = o := length_read m a o
  rw [slice, Nat.add_assoc, read_add, List.drop_append_of_le_length (by omega),
    List.drop_eq_nil_of_le (by omega), List.nil_append, read_add,
    List.take_append_of_le_length (by simp)]
  exact List.take_of_length_le (by simp)

theorem take_read (m : Store) {a n k : Nat} (h : k ≤ n) : (m.read a n).take k = m.read a k := by
  have hwin := slice_read m (a := a) (o := 0) (k := k) (n := n) (by omega)
  rwa [slice, List.drop_zero, Nat.add_zero] at hwin

theorem readLE_lt (m : Store) (a n : Nat) : m.readLE a n < 256 ^ n := by
  have h := leNat_lt (m.read a n)
  rwa [length_read] at h

/-! ## Section 2: Reading after writing -/

theorem write_apply_of_mem {m : Store} {a i : Nat} {d : Bytes} (hlo : a ≤ i)
    (hhi : i < a + d.length) : m.write a d i = d.getD (i - a) 0 := by
  simp [write, hlo, hhi]

theorem write_apply_of_not_mem {m : Store} {a i : Nat} {d : Bytes}
    (h : i < a ∨ a + d.length ≤ i) : m.write a d i = m i := by
  simp only [write]
  rw [if_neg (by omega)]

@[simp] theorem write_nil (m : Store) (a : Nat) : m.write a [] = m := by
  funext i
  exact write_apply_of_not_mem (by simp; omega)

theorem read_write_same (m : Store) (a : Nat) (d : Bytes) :
    (m.write a d).read a d.length = d := by
  apply List.ext_getElem?
  intro i
  rw [getElem?_read]
  split
  · next h =>
    rw [write_apply_of_mem (by omega) (by omega), Nat.add_sub_cancel_left, List.getD_eq_getElem?_getD,
      List.getElem?_eq_getElem h]
    rfl
  · next h => exact (List.getElem?_eq_none (by omega)).symm

/-- Two writes one behind the other are one. -/
theorem write_append (m : Store) (a : Nat) (d e : Bytes) :
    (m.write a d).write (a + d.length) e = m.write a (d ++ e) := by
  funext i
  simp only [write, List.length_append]
  by_cases hlo : a ≤ i
  · by_cases hd : i < a + d.length
    · rw [if_neg (by omega), if_pos ⟨hlo, hd⟩, if_pos (by omega), List.getD_eq_getElem?_getD,
        List.getD_eq_getElem?_getD, List.getElem?_append_left (by omega)]
    · by_cases he : i < a + d.length + e.length
      · rw [if_pos (by omega), if_pos (by omega), List.getD_eq_getElem?_getD,
          List.getD_eq_getElem?_getD, List.getElem?_append_right (by omega)]
        congr 2
        omega
      · rw [if_neg (by omega), if_neg (by omega), if_neg (by omega)]
  · rw [if_neg (by omega), if_neg (by omega), if_neg (by omega)]

/-- A window apart from the written one keeps its bytes. -/
theorem read_write_disjoint {m : Store} {a b n : Nat} {d : Bytes}
    (h : a + n ≤ b ∨ b + d.length ≤ a) : (m.write b d).read a n = m.read a n :=
  read_congr fun i _ _ => write_apply_of_not_mem (by omega)

/-- A window that contains the written one. -/
theorem read_write_splice {m : Store} {a n o : Nat} {d : Bytes} (h : o + d.length ≤ n) :
    (m.write (a + o) d).read a n = splice (m.read a n) o d := by
  obtain ⟨k, rfl⟩ := Nat.exists_eq_add_of_le h
  have htake : (m.read a (o + d.length + k)).take o = m.read a o := by
    rw [Nat.add_assoc, read_add, List.take_left' (length_read m a o)]
  have hdrop : (m.read a (o + d.length + k)).drop (o + d.length) = m.read (a + (o + d.length)) k := by
    rw [read_add, List.drop_left' (length_read m a _)]
  have hsame := read_write_same m (a + o) d
  rw [splice, htake, hdrop, read_add, read_add, hsame, read_write_disjoint (by omega),
    read_write_disjoint (by omega)]

/-- A window that starts with the written one. -/
theorem read_write_front (m : Store) (a k : Nat) (d : Bytes) :
    (m.write a d).read a (d.length + k) = d ++ m.read (a + d.length) k := by
  rw [read_add, read_write_same, read_write_disjoint (by omega)]

theorem read_zero (a n : Nat) : Store.read (fun _ => 0) a n = List.replicate n 0 := by
  simp [read]

/-- A window of what was copied to the front of a store. -/
theorem read_write_copy (m m' : Store) {a n i k : Nat} (h : i + k ≤ n) :
    (m.write 0 (m'.read a n)).read i k = m'.read (a + i) k := by
  have hsame := read_write_same m 0 (m'.read a n)
  rw [length_read] at hsame
  have hwin := slice_read (m.write 0 (m'.read a n)) (a := 0) h
  rw [hsame, slice_read m' h, Nat.zero_add] at hwin
  exact hwin.symm

/-! ## Section 3: Numbers -/

theorem readLE_writeLE_same (m : Store) (a n v : Nat) :
    (m.writeLE a n v).readLE a n = v % 256 ^ n := by
  have h := read_write_same m a (leBytes n v)
  rw [length_leBytes] at h
  rw [readLE, writeLE, h, leNat_leBytes]

theorem readLE_writeLE_disjoint {m : Store} {a b n k v : Nat} (h : a + n ≤ b ∨ b + k ≤ a) :
    (m.writeLE b k v).readLE a n = m.readLE a n := by
  rw [readLE, writeLE, read_write_disjoint (by simpa using h), readLE]

theorem readLE_congr {m m' : Store} {a n : Nat} (h : ∀ i, a ≤ i → i < a + n → m i = m' i) :
    m.readLE a n = m'.readLE a n := by
  rw [readLE, read_congr h, readLE]

theorem readLE_one (m : Store) (a : Nat) : m.readLE a 1 = (m a).toNat := by
  simp [readLE, read, leNat]

/-! ## Section 4: Many writes -/

/-- The store behind a list of writes, in their order. -/
def writes (m : Store) (ws : List (Nat × Bytes)) : Store :=
  ws.foldl (fun m w => m.write w.1 w.2) m

@[simp] theorem writes_nil (m : Store) : m.writes [] = m := rfl

theorem writes_append (m : Store) (ws ws' : List (Nat × Bytes)) :
    m.writes (ws ++ ws') = (m.writes ws).writes ws' :=
  List.foldl_append

/-- A byte keeps its value if every write that covers it stores just that. -/
theorem writes_apply {m : Store} {ws : List (Nat × Bytes)} {i : Nat}
    (h : ∀ w ∈ ws, w.1 ≤ i → i < w.1 + w.2.length → w.2.getD (i - w.1) 0 = m i) :
    m.writes ws i = m i := by
  induction ws generalizing m with
  | nil => rfl
  | cons w ws ih =>
    obtain ⟨hfirst, hrest⟩ := List.forall_mem_cons.mp h
    have hone : m.write w.1 w.2 i = m i := by
      by_cases hcover : w.1 ≤ i ∧ i < w.1 + w.2.length
      · rw [write_apply_of_mem hcover.1 hcover.2, hfirst hcover.1 hcover.2]
      · exact write_apply_of_not_mem (by omega)
    rw [writes, List.foldl_cons, ← writes, ih, hone]
    rwa [hone]

end Store

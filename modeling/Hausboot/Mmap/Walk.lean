import Hausboot.Heap.Runs
import Hausboot.Mmap.Model

/-! # The Memory Map, from the Firmware to the Kernel

    What the firmware answers, what `Load` stores, what `MBGenInfo` writes and
    what the kernel walks over are the same list of 20-byte entries. The table
    and the info structure are two blocks of the heap, so that filling the one
    leaves the other alone; the size fields of the table lead from each entry
    to the one behind it, and from the last one to the end. -/

open ByteLib

namespace Hausboot.Mmap

/-! ## Section 1: Load -/

/-- An answer with an entry. -/
structure Answer.Ok (a : Answer) : Prop where
  carry : a.carry = false
  eax : a.eax = signature
  entry : a.entry.length = 20

/-- The firmware answers with these entries from the `k`th call on, and then
    ends the list: with the carry flag, or with a continuation value of 0. -/
inductive Answers (fw : Firmware) : Nat → Nat → List Bytes → Prop where
  | carry {k ebx : Nat} (h : (fw k ebx).carry = true) : Answers fw k ebx []
  | last {k ebx : Nat} (h : (fw k ebx).Ok) (hlast : (fw k ebx).ebx = 0) :
      Answers fw k ebx [(fw k ebx).entry]
  | more {k ebx : Nat} {es : List Bytes} (h : (fw k ebx).Ok) (hmore : (fw k ebx).ebx ≠ 0)
      (rest : Answers fw (k + 1) (fw k ebx).ebx es) : Answers fw k ebx ((fw k ebx).entry :: es)

theorem Answers.length_entry {fw : Firmware} {k ebx : Nat} {es : List Bytes}
    (h : Answers fw k ebx es) : ∀ e ∈ es, e.length = 20 := by
  induction h with
  | carry h => simp
  | last h hlast => simpa using h.entry
  | more h hmore rest ih =>
    intro e he
    rcases List.mem_cons.mp he with rfl | he
    · exact h.entry
    · exact ih e he

theorem splice_all {bs d : Bytes} (h : d.length = bs.length) : splice bs 0 d = d := by
  rw [splice, List.take_zero, List.nil_append, Nat.zero_add, h, List.drop_length, List.append_nil]

namespace MemoryMap

@[simp] theorem count_put (map : MemoryMap) (e : MemoryMapEntry) :
    (map.put e).count = map.count := rfl

/-- The array element behind the last entry can be written to. -/
theorem entries_put (map : MemoryMap) (e : MemoryMapEntry) : (map.put e).entries = map.entries := by
  apply List.map_congr_left
  intro i hi
  exact if_neg (Nat.ne_of_lt (List.mem_range.mp hi))

theorem entries_push (map : MemoryMap) (e : MemoryMapEntry) :
    ({ map.put e with count := map.count + 1 } : MemoryMap).entries = map.entries ++ [e] := by
  have hlast : (map.put e).ent map.count = e := if_pos rfl
  have hput := entries_put map e
  rw [entries] at hput
  rw [entries, List.range_succ, List.map_append, List.map_singleton]
  dsimp only
  rw [hlast]
  exact congrArg (· ++ [e]) hput

end MemoryMap

open MemoryMap in
/-- The loop of `Load`, on the answers that are left. -/
theorem loadLoop_spec {fw : Firmware} {max k ebx : Nat} {es : List Bytes}
    (h : Answers fw k ebx es) {n : Nat} {temp : Bytes} {map : MemoryMap}
    (htemp : temp.length = 20) (hroom : map.count < max) (hfits : map.count + es.length ≤ max)
    (hfuel : max ≤ map.count + n) :
    ∃ map', loadLoop max fw n k ebx temp map = some (true, map') ∧
      map'.entries = map.entries ++ es.map MemoryMapEntry.mk := by
  induction h generalizing n temp map with
  | @carry k ebx h =>
    obtain ⟨n, rfl⟩ : ∃ n', n = n' + 1 := ⟨n - 1, by omega⟩
    refine ⟨_, ?_, (entries_put map ⟨splice temp 0 (fw k ebx).entry⟩).trans (List.append_nil _).symm⟩
    rw [loadLoop, intCallE820, if_pos h]
    rfl
  | @last k ebx h hlast =>
    obtain ⟨n, rfl⟩ : ∃ n', n = n' + 1 := ⟨n - 1, by omega⟩
    refine ⟨_, ?_, entries_push map ⟨(fw k ebx).entry⟩⟩
    rw [loadLoop, intCallE820, h.carry, h.eax, hlast, splice_all (h.entry.trans htemp.symm)]
    simp
  | @more k ebx es h hmore rest ih =>
    obtain ⟨n, rfl⟩ : ∃ n', n = n' + 1 := ⟨n - 1, by omega⟩
    rw [List.length_cons] at hfits
    have hpush := entries_push map ⟨(fw k ebx).entry⟩
    have hround : loadLoop max fw (n + 1) k ebx temp map =
        if map.count + 1 < max then
          loadLoop max fw n (k + 1) (fw k ebx).ebx (fw k ebx).entry
            { map.put ⟨(fw k ebx).entry⟩ with count := map.count + 1 }
        else some (true, { map.put ⟨(fw k ebx).entry⟩ with count := map.count + 1 }) := by
      rw [loadLoop, intCallE820, h.carry, h.eax, splice_all (h.entry.trans htemp.symm)]
      by_cases hfull : map.count + 1 < max
      · simp [hmore, hfull]
      · simp [hmore, hfull]
    rw [hround]
    by_cases hfull : map.count + 1 < max
    · obtain ⟨map', hload, hentries⟩ := @ih n (fw k ebx).entry
        { map.put ⟨(fw k ebx).entry⟩ with count := map.count + 1 } h.entry hfull (by dsimp only; omega) (by dsimp only; omega)
      rw [if_pos hfull]
      refine ⟨map', hload, ?_⟩
      rw [hentries, hpush, List.append_assoc]
      rfl
    · -- the array is full, and nothing is left
      have hnil : es = [] := List.eq_nil_of_length_eq_zero (by omega)
      rw [if_neg hfull, hnil]
      exact ⟨_, rfl, hpush⟩

/-- **Load** stores the answered entries in order. -/
theorem load_spec {fw : Firmware} {max : Nat} {es : List Bytes} (h : Answers fw 0 0 es)
    (hmax : 0 < max) (hfits : es.length ≤ max) {temp : Bytes} (htemp : temp.length = 20)
    (map : MemoryMap) :
    ∃ map', MemoryMap.load max fw temp map = some (true, map') ∧
      map'.entries = es.map MemoryMapEntry.mk := by
  have hfits' : 0 + es.length ≤ max := by omega
  have hfuel : max ≤ 0 + max := by omega
  exact @loadLoop_spec fw max 0 0 es h max temp { map with count := 0 } htemp hmax hfits' hfuel

/-! ## Section 2: The table -/

/-- The entries are stored from `p` on, and each one leads to the one behind. -/
def Filled (m : Store) : Nat → List MemoryMapEntry → Prop
  | _, [] => True
  | p, e :: es => MultiBootMmap.wrapped m p = e ∧ MultiBootMmap.next m p = p + 24 ∧
      Filled m (p + 24) es

/-- A change outside of the table. -/
theorem Filled.congr {m m' : Store} {p : Nat} {es : List MemoryMapEntry} (h : Filled m p es)
    (hsame : ∀ a, p ≤ a → a < p + 24 * es.length → m' a = m a) : Filled m' p es := by
  induction es generalizing p with
  | nil => trivial
  | cons e es ih =>
    obtain ⟨hentry, hnext, hrest⟩ := h
    rw [List.length_cons] at hsame
    refine ⟨?_, ?_, ih hrest fun a h1 h2 => hsame a (by omega) (by omega)⟩
    · rw [← hentry, MultiBootMmap.wrapped, MultiBootMmap.wrapped]
      congr 1
      exact Store.read_congr fun a h1 h2 => hsame a (by omega) (by omega)
    · rw [← hnext, MultiBootMmap.next, MultiBootMmap.next,
        Store.readLE_congr fun a h1 h2 => hsame a (by omega) (by omega)]

/-- Storing one entry, in a round of the loop of `MBGenInfo`. -/
theorem filled_entry (m : Store) {p : Nat} {e : MemoryMapEntry} (hlen : e.raw.length = 20)
    (hp : p + 24 < 2 ^ 32) :
    Filled (MultiBootMmap.setNext (MultiBootMmap.setWrapped m p e) p (p + 24)) p [e] := by
  have hsize : sub32 (sub32 (p + 24) p) 4 = 20 := by
    rw [sub32_of_le (by omega) hp, Nat.add_sub_cancel_left]
    rfl
  have hsame := Store.read_write_same m (p + 4) e.raw
  rw [hlen] at hsame
  refine ⟨?_, ?_, trivial⟩
  · rw [MultiBootMmap.wrapped, MultiBootMmap.setNext, Store.writeLE,
      Store.read_write_disjoint (by rw [length_leBytes]; omega), MultiBootMmap.setWrapped, hsame]
  · rw [MultiBootMmap.next, MultiBootMmap.setNext, Store.readLE_writeLE_same, hsize,
      u32_of_lt (by omega)]
    omega

theorem entry_frame (m : Store) {p a : Nat} {e : MemoryMapEntry} (hlen : e.raw.length = 20)
    (ha : a < p ∨ p + 24 ≤ a) :
    MultiBootMmap.setNext (MultiBootMmap.setWrapped m p e) p (p + 24) a = m a := by
  rw [MultiBootMmap.setNext, Store.writeLE,
    Store.write_apply_of_not_mem (by rw [length_leBytes]; omega), MultiBootMmap.setWrapped,
    Store.write_apply_of_not_mem (by omega)]

/-- **The loop of MBGenInfo**: it stores the entries from the `i`th one on, and
    changes nothing else. -/
theorem fillLoop_spec {map : MemoryMap} {table : Nat} (n : Nat) {i : Nat} (m : Store)
    (hlen : ∀ j, i ≤ j → j < i + n → (map.getAt j).raw.length = 20)
    (hend : table + 24 * (i + n) < 2 ^ 32) :
    Filled (fillLoop map table n i m) (table + 24 * i) ((List.range' i n).map map.getAt) ∧
    ∀ a, a < table + 24 * i ∨ table + 24 * (i + n) ≤ a → fillLoop map table n i m a = m a := by
  induction n generalizing i m with
  | zero => exact ⟨trivial, fun _ _ => rfl⟩
  | succ n ih =>
    have hraw := hlen i (Nat.le_refl i) (by omega)
    have hentry := filled_entry m (p := table + 24 * i) hraw (by omega)
    obtain ⟨hrest, hframe'⟩ := @ih (i + 1) (MultiBootMmap.setNext
        (MultiBootMmap.setWrapped m (table + 24 * i) (map.getAt i)) (table + 24 * i)
        (table + 24 * i + 24))
      (fun j h1 h2 => hlen j (by omega) (by omega)) (by omega)
    have hnext : table + 24 * (i + 1) = table + 24 * i + 24 := by omega
    rw [hnext] at hrest hframe'
    rw [List.range'_succ, List.map_cons]
    refine ⟨?_, ?_⟩
    · -- the later rounds leave the entry alone
      have hkept := hentry.congr fun a _ h2 => hframe' a (.inl h2)
      exact ⟨hkept.1, hkept.2.1, hrest⟩
    · intro a ha
      exact (hframe' a (by omega)).trans (entry_frame m hraw (by omega))

/-- **The walk of the kernel**: it visits the entries one by one, and ends
    behind the last one. -/
theorem mmapLoop_spec {β : Type} (body : Nat → β) {m : Store} {p : Nat}
    {es : List MemoryMapEntry} (h : Filled m p es) {fuel : Nat} (hfuel : es.length < fuel) :
    mmapLoop m (p + 24 * es.length) body fuel p =
      some ((List.range' p es.length 24).map body, p + 24 * es.length) := by
  induction es generalizing p fuel with
  | nil =>
    obtain ⟨n, rfl⟩ : ∃ n, fuel = n + 1 := ⟨fuel - 1, by omega⟩
    rw [mmapLoop, if_neg (by simp)]
    rfl
  | cons e es ih =>
    obtain ⟨n, rfl⟩ : ∃ n, fuel = n + 1 := ⟨fuel - 1, by omega⟩
    obtain ⟨-, hnext, hrest⟩ := h
    rw [List.length_cons] at hfuel ⊢
    have hstop : p + 24 * (es.length + 1) = p + 24 + 24 * es.length := by omega
    rw [mmapLoop, if_pos (by omega), hnext, hstop, ih hrest (by omega)]
    rfl

/-- What is visited are the entries. -/
theorem wrapped_visited {m : Store} {p : Nat} {es : List MemoryMapEntry} (h : Filled m p es) :
    (List.range' p es.length 24).map (MultiBootMmap.wrapped m) = es := by
  induction es generalizing p with
  | nil => rfl
  | cons e es ih =>
    obtain ⟨hentry, -, hrest⟩ := h
    rw [List.length_cons, List.range'_succ, List.map_cons, hentry, ih hrest]

/-! ## Section 3: The info structure -/

section Info

variable (read64 : Bytes → Nat)

/-- Counting the memory writes to the two counters only. -/
theorem countMemory_frame (m : Store) (info : Nat) (e : MemoryMapEntry) {a : Nat}
    (ha : a < info + 4 ∨ info + 12 ≤ a) : MultiBootInfo.countMemory read64 m info e a = m a := by
  unfold MultiBootInfo.countMemory
  split
  · rfl
  split
  · rfl
  split
  · exact Store.write_apply_of_not_mem (by rw [length_leBytes]; omega)
  · exact Store.write_apply_of_not_mem (by rw [length_leBytes]; omega)

theorem countLoop_frame (info array n i : Nat) (m : Store) {a : Nat}
    (ha : a < info + 4 ∨ info + 12 ≤ a) :
    MultiBootInfo.countLoop read64 info array n i m a = m a := by
  induction n generalizing i m with
  | zero => rfl
  | succ n ih => rw [MultiBootInfo.countLoop, ih, countMemory_frame read64 _ info _ ha]

/-- A flag that is set in a word of four bytes. -/
theorem isSet_set {v flag : Nat} (hv : v < 2 ^ 32) (hflag : flag < 2 ^ 32) :
    FlagField.isSet (FlagField.set v flag % 256 ^ 4) flag = true := by
  have hlt : v ||| flag < 256 ^ 4 := Nat.or_lt_two_pow (n := 32) hv hflag
  have hand : (v ||| flag) &&& flag = flag := by
    apply Nat.eq_of_testBit_eq
    intro i
    rw [Nat.testBit_and, Nat.testBit_or]
    cases Nat.testBit flag i with
    | true => simp
    | false => simp
  rw [FlagField.isSet, FlagField.set, Nat.mod_eq_of_lt hlt, hand]
  exact beq_self_eq_true flag

/-- The other flags are kept. -/
theorem isSet_set_other {v flag other : Nat} (hv : v < 2 ^ 32) (hflag : flag < 2 ^ 32)
    (hother : flag &&& other = 0) :
    FlagField.isSet (FlagField.set v flag % 256 ^ 4) other = FlagField.isSet v other := by
  have hlt : v ||| flag < 256 ^ 4 := Nat.or_lt_two_pow (n := 32) hv hflag
  rw [FlagField.isSet, FlagField.set, Nat.mod_eq_of_lt hlt, Nat.and_or_distrib_right, hother,
    Nat.or_zero, FlagField.isSet]

/-- The counting loop writes into the words at 4 and 8 only. -/
theorem setMemoryMap_field (m : Store) (info array count : Nat) {o n : Nat}
    (hon : o + n ≤ 4 ∨ 12 ≤ o) :
    (MultiBootInfo.setMemoryMap read64 m info array count).readLE (info + o) n =
      (((m.writeLE (info + 48) 4 array).writeLE (info + 44) 4 (count * 24)).writeLE info 4
        (FlagField.set (((m.writeLE (info + 48) 4 array).writeLE (info + 44) 4
          (count * 24)).readLE info 4) MultiBootInfo.flagMemMap)).readLE (info + o) n :=
  Store.readLE_congr fun a h1 h2 => countLoop_frame read64 info array count 0 _ (by omega)

/-- **SetMemoryMap**: the pointers for the kernel, and nothing outside of the
    structure. -/
theorem setMemoryMap_spec (m : Store) (info : Nat) {array count : Nat}
    (hend : array + 24 * count < 2 ^ 32) :
    MultiBootInfo.memoryMapBegin (MultiBootInfo.setMemoryMap read64 m info array count) info =
      array ∧
    MultiBootInfo.memoryMapEnd (MultiBootInfo.setMemoryMap read64 m info array count) info =
      array + 24 * count ∧
    ∀ a, a < info ∨ info + 128 ≤ a →
      MultiBootInfo.setMemoryMap read64 m info array count a = m a := by
  have hflags : FlagField.isSet ((MultiBootInfo.setMemoryMap read64 m info array count).readLE
      info 4) MultiBootInfo.flagMemMap = true := by
    have h0 := setMemoryMap_field read64 m info array count (o := 0) (n := 4) (.inl (by decide))
    rw [Nat.add_zero, Store.readLE_writeLE_same] at h0
    rw [h0]
    exact isSet_set (Store.readLE_lt _ _ 4) (by decide)
  have hbase : (MultiBootInfo.setMemoryMap read64 m info array count).readLE (info + 48) 4 =
      array := by
    rw [setMemoryMap_field read64 m info array count (.inr (by decide)), Store.readLE_writeLE_disjoint (by omega),
      Store.readLE_writeLE_disjoint (by omega), Store.readLE_writeLE_same]
    exact Nat.mod_eq_of_lt (by omega)
  have hlength : (MultiBootInfo.setMemoryMap read64 m info array count).readLE (info + 44) 4 =
      count * 24 := by
    rw [setMemoryMap_field read64 m info array count (.inr (by decide)), Store.readLE_writeLE_disjoint (by omega),
      Store.readLE_writeLE_same]
    exact Nat.mod_eq_of_lt (by omega)
  refine ⟨?_, ?_, ?_⟩
  · rw [MultiBootInfo.memoryMapBegin, hflags, hbase]
    rfl
  · rw [MultiBootInfo.memoryMapEnd, hflags, hbase, hlength, Nat.mul_comm count, u32_of_lt hend]
    rfl
  · intro a ha
    rw [MultiBootInfo.setMemoryMap, countLoop_frame read64 info array count 0 _ (by omega), Store.writeLE,
      Store.write_apply_of_not_mem (by rw [length_leBytes]; omega), Store.writeLE,
      Store.write_apply_of_not_mem (by rw [length_leBytes]; omega), Store.writeLE,
      Store.write_apply_of_not_mem (by rw [length_leBytes]; omega)]

end Info

/-! ## Section 4: The blocks on the heap -/

section Blocks

variable {r : HeapRegion} {h h' : Heap} {live : List Nat} {bs : List Block} {fuel : Nat}

theorem roundCount_ge {count : Nat} (hcount : count + 4 < 2 ^ 32) : count ≤ roundCount count := by
  unfold roundCount
  split
  · rw [u32_of_lt (by omega)]
    omega
  · exact Nat.le_refl count

/-- A block in use for the payload `[p, p + n)`. -/
def InBlock (bs : List Block) (p n : Nat) : Prop :=
  ∃ s ∈ bs, s.used = true ∧ p = s.start + HeapEntry.sizeof ∧ p + n ≤ s.stop

theorem InBlock.lt (hinv : RunInv r ⟨h, live⟩ bs) {p n : Nat} (hp : InBlock bs p n) :
    p + n < 2 ^ 32 := by
  obtain ⟨s, hs, -, -, hstop⟩ := hp
  exact Nat.lt_of_le_of_lt hstop (hinv.repr.shape.stop_le hs)

/-- **new**: a new block, and the blocks in use are kept. -/
theorem malloc_new {p : Nat} {count : UInt32} (hinv : RunInv r ⟨h, live⟩ bs)
    (hcall : malloc fuel h count = some (p, h')) (hnull : p ≠ 0)
    (hcount : count.toNat + 4 < 2 ^ 32) :
    ∃ bs', RunInv r ⟨h', p :: live⟩ bs' ∧ InBlock bs' p count.toNat ∧
      ∀ q n, InBlock bs q n → InBlock bs' q n ∧ (q + n ≤ p ∨ p + count.toNat ≤ q) := by
  rcases malloc_cases hinv hcall with ⟨hp, -⟩ | ⟨-, bs', hinv', hkept, s, hs, hused, hnew, hp, hfits⟩
  · exact absurd hp hnull
  have hround := roundCount_ge hcount
  refine ⟨bs', hinv', ⟨s, hs, hused, hp, by omega⟩, ?_⟩
  rintro q n ⟨t, ht, htused, hq, hqstop⟩
  have ht' := hkept t ht htused
  have hne : t ≠ s := by
    rintro rfl
    exact hnew (List.mem_filter.mpr ⟨ht, htused⟩)
  refine ⟨⟨t, ht', htused, hq, hqstop⟩, ?_⟩
  have hapart := hinv'.repr.shape.tiles.apart ht' hs hne
  simp only [HeapEntry.sizeof] at hp hq
  omega

/-- Writing inside a block in use. -/
theorem runInv_write (hinv : RunInv r ⟨h, live⟩ bs) {p n : Nat} (hp : InBlock bs p n)
    (hlive : p ∈ live) {a : Nat} {d : Bytes} (hlo : p ≤ a) (hhi : a + d.length ≤ p + n) :
    RunInv r ⟨{ h with mem := h.mem.write a d }, live⟩ bs := by
  obtain ⟨s, hs, -, hstart, hstop⟩ := hp
  apply runInv_store hinv hlive hlo
  rw [hstart, Nat.add_sub_cancel, (hinv.repr.stored s hs).1]
  exact Nat.le_trans hhi hstop

/-- The info structure on the heap. -/
theorem newInfo_spec {info name : Nat} (hinv : RunInv r ⟨h, live⟩ bs)
    (hcall : newInfo fuel h name = some (info, h')) (hnull : info ≠ 0) :
    ∃ bs', RunInv r ⟨h', info :: live⟩ bs' ∧ InBlock bs' info 128 := by
  unfold newInfo at hcall
  obtain ⟨⟨p, h₁⟩, hmalloc, hrest⟩ := Option.bind_eq_some_iff.mp hcall
  obtain ⟨rfl, rfl⟩ := Prod.mk.inj (Option.some.inj hrest)
  obtain ⟨bs', hinv', hblock, -⟩ := malloc_new hinv hmalloc hnull (by decide)
  have h0 := runInv_write hinv' hblock List.mem_cons_self (Nat.le_refl p)
    (d := List.replicate MultiBootInfo.sizeof 0) (by rw [List.length_replicate]; exact Nat.le_refl _)
  have h1 := runInv_write h0 hblock List.mem_cons_self (Nat.le_add_right p 64)
    (d := leBytes 4 name) (by rw [length_leBytes]; show p + 64 + 4 ≤ p + 128; omega)
  refine ⟨bs', ?_, hblock⟩
  exact runInv_write h1 hblock List.mem_cons_self (Nat.le_refl p)
    (by rw [length_leBytes]; show p + 4 ≤ p + 128; omega)

/-- The table on the heap, apart from what was there. -/
theorem newTable_spec {table count : Nat} (hinv : RunInv r ⟨h, live⟩ bs)
    (hcall : newTable fuel h count = some (table, h')) (hnull : table ≠ 0) (hcount : count ≤ 32) :
    ∃ bs', RunInv r ⟨h', table :: live⟩ bs' ∧ InBlock bs' table (24 * count) ∧
      ∀ q n, InBlock bs q n → q + n ≤ table ∨ table + 24 * count ≤ q := by
  have hsize : (UInt32.ofNat (MultiBootMmap.sizeof * count)).toNat = 24 * count := by
    rw [UInt32.toNat_ofNat']
    exact Nat.mod_eq_of_lt (by show 24 * count < 2 ^ 32; omega)
  unfold newTable at hcall
  obtain ⟨⟨p, h₁⟩, hmalloc, hrest⟩ := Option.bind_eq_some_iff.mp hcall
  obtain ⟨rfl, rfl⟩ := Prod.mk.inj (Option.some.inj hrest)
  obtain ⟨bs', hinv', hblock, hapart⟩ := malloc_new hinv hmalloc hnull (by rw [hsize]; omega)
  rw [hsize] at hblock hapart
  refine ⟨bs', ?_, hblock, fun q n hq => (hapart q n hq).2⟩
  exact runInv_write hinv' hblock List.mem_cons_self (Nat.le_refl p)
    (by rw [List.length_replicate]; exact Nat.le_refl _)

end Blocks

/-- The boot loader hands over the address of this structure. -/
theorem mbGenInfo_address {read64 : Bytes → Nat} {mc : Machine} {fuel name info info' : Nat}
    {st st' : Boot} {map : MemoryMap} {h' : Heap}
    (hloader : Hausboot.mbGenInfo mc fuel st = some (some info, st'))
    (hgen : mbGenInfo read64 fuel st.heap name map = some (info', h')) : info' = info := by
  obtain ⟨⟨p, h₁⟩, hmalloc, hrest⟩ := Option.bind_eq_some_iff.mp hloader
  have hinfo : p = info := by
    dsimp only at hrest
    split at hrest
    · cases hrest
    obtain ⟨⟨q, h₂⟩, -, hrest⟩ := Option.bind_eq_some_iff.mp hrest
    dsimp only at hrest
    split at hrest
    · cases hrest
    · exact Option.some.inj (Prod.mk.inj (Option.some.inj hrest)).1
  subst hinfo
  obtain ⟨⟨p', h₁'⟩, hnew, hrest⟩ := Option.bind_eq_some_iff.mp hgen
  obtain ⟨⟨q', h₂'⟩, -, hrest⟩ := Option.bind_eq_some_iff.mp hrest
  obtain ⟨rfl, -⟩ := Prod.mk.inj (Option.some.inj hrest)
  obtain ⟨⟨p'', h₁''⟩, hmalloc', hrest⟩ := Option.bind_eq_some_iff.mp hnew
  obtain ⟨rfl, -⟩ := Prod.mk.inj (Option.some.inj hrest)
  rw [hmalloc] at hmalloc'
  exact (Prod.mk.inj (Option.some.inj hmalloc')).1.symm

/-! ## Section 5: The kernel sees what the firmware has answered -/

/-- Both allocations of `MBGenInfo` succeed. -/
def Allocates (fuel : Nat) (h : Heap) (name count info table : Nat) : Prop :=
  ∃ h₁ h₂, newInfo fuel h name = some (info, h₁) ∧ info ≠ 0 ∧
    newTable fuel h₁ count = some (table, h₂) ∧ table ≠ 0

/-- The walk from `MemoryMapBegin` along `Next` visits these entries, each once
    and in order, and stops exactly at `MemoryMapEnd`. -/
def Walks (m : Store) (info : Nat) (es : List Bytes) : Prop :=
  ∀ fuel, es.length < fuel → ∃ ps,
    mmapLoop m (MultiBootInfo.memoryMapEnd m info) id fuel (MultiBootInfo.memoryMapBegin m info) =
      some (ps, MultiBootInfo.memoryMapEnd m info) ∧
    ps.Nodup ∧ ps.map (fun p => m.read (p + 4) 20) = es

/-- What the kernel prints then. -/
def Prints (read64 : Bytes → Nat) (m : Store) (info : Nat) (es : List Bytes) : Prop :=
  ∀ fuel, es.length < fuel → printMemoryMap read64 fuel m info =
    some ([.text "Multiboot memory map:", .text "\r\n"] ++
      (es.map fun e => printEntry read64 ⟨e⟩).flatten)

theorem walks_of_filled {m : Store} {info table : Nat} {es : List Bytes}
    (hfirst : MultiBootInfo.memoryMapBegin m info = table)
    (hlast : MultiBootInfo.memoryMapEnd m info = table + 24 * es.length)
    (hfilled : Filled m table (es.map MemoryMapEntry.mk)) : Walks m info es := by
  intro fuel hfuel
  have hlt : (es.map MemoryMapEntry.mk).length < fuel := by
    rw [List.length_map]
    exact hfuel
  have hwalk := mmapLoop_spec id hfilled hlt
  have hseen := wrapped_visited hfilled
  rw [List.length_map] at hwalk hseen
  rw [List.map_id] at hwalk
  rw [hfirst, hlast]
  refine ⟨_, hwalk, List.nodup_range' 24, ?_⟩
  have hraw := congrArg (List.map MemoryMapEntry.raw) hseen
  rw [List.map_map, List.map_map] at hraw
  exact hraw.trans (List.map_id es)

theorem prints_of_filled (read64 : Bytes → Nat) {m : Store} {info table : Nat} {es : List Bytes}
    (hnull : table ≠ 0) (hfirst : MultiBootInfo.memoryMapBegin m info = table)
    (hlast : MultiBootInfo.memoryMapEnd m info = table + 24 * es.length)
    (hfilled : Filled m table (es.map MemoryMapEntry.mk)) : Prints read64 m info es := by
  intro fuel hfuel
  have hlt : (es.map MemoryMapEntry.mk).length < fuel := by
    rw [List.length_map]
    exact hfuel
  have hwalk := mmapLoop_spec (fun p => printEntry read64 (MultiBootMmap.wrapped m p)) hfilled hlt
  have hseen := congrArg (List.map (printEntry read64)) (wrapped_visited hfilled)
  rw [List.length_map] at hwalk hseen
  rw [List.map_map, List.map_map] at hseen
  rw [printMemoryMap, hfirst, hlast]
  dsimp only
  rw [if_neg (by simp; omega), hwalk]
  show some (_ ++ List.flatten _) = _
  exact congrArg (fun lines => some (_ ++ List.flatten lines)) hseen

/-- The list that `MBGenInfo` reads with `At`. -/
theorem map_getAt (map : MemoryMap) :
    (List.range' 0 map.count).map map.getAt = map.entries := by
  rw [← List.range_eq_range', MemoryMap.entries]
  apply List.map_congr_left
  intro i hi
  exact if_pos (List.mem_range.mp hi)

theorem count_of_entries {map : MemoryMap} {es : List Bytes}
    (hentries : map.entries = es.map MemoryMapEntry.mk) : map.count = es.length := by
  have hsame := congrArg List.length hentries
  rwa [MemoryMap.entries, List.length_map, List.length_map, List.length_range] at hsame

/-- The loop of `MBGenInfo` over a whole map. -/
theorem fillLoop_entries {map : MemoryMap} {es : List Bytes}
    (hentries : map.entries = es.map MemoryMapEntry.mk) (hlen : ∀ e ∈ es, e.length = 20)
    {table : Nat} (m : Store) (hend : table + 24 * map.count < 2 ^ 32) :
    Filled (fillLoop map table map.count 0 m) table (es.map MemoryMapEntry.mk) ∧
    ∀ a, a < table ∨ table + 24 * map.count ≤ a → fillLoop map table map.count 0 m a = m a := by
  have hraw : ∀ j, 0 ≤ j → j < 0 + map.count → (map.getAt j).raw.length = 20 := by
    intro j _ hj
    have hmem : map.getAt j ∈ map.entries := by
      rw [← map_getAt]
      exact List.mem_map.mpr ⟨j, List.mem_range'_1.mpr ⟨Nat.zero_le j, hj⟩, rfl⟩
    rw [hentries] at hmem
    obtain ⟨e, he, heq⟩ := List.mem_map.mp hmem
    rw [← heq]
    exact hlen e he
  obtain ⟨hfilled, hframe⟩ := @fillLoop_spec map table map.count 0 m hraw
    (by rw [Nat.zero_add]; exact hend)
  rw [map_getAt, hentries, Nat.mul_zero, Nat.add_zero] at hfilled
  exact ⟨hfilled, fun a ha => hframe a (by omega)⟩

/-- What is left of `MBGenInfo` after its allocations. -/
theorem mbGenInfo_eq (read64 : Bytes → Nat) {h h₁ h₂ : Heap} {map : MemoryMap}
    {fuel name info table : Nat} (hinfo : newInfo fuel h name = some (info, h₁))
    (htable : newTable fuel h₁ map.count = some (table, h₂)) :
    mbGenInfo read64 fuel h name map = some (info, { h₂ with
      mem := MultiBootInfo.setMemoryMap read64 (fillLoop map table map.count 0 h₂.mem) info table
        map.count }) := by
  rw [mbGenInfo, hinfo]
  show (newTable fuel h₁ map.count >>= _) = _
  rw [htable]
  rfl

/-- **MBGenInfo** makes a table of the entries. -/
theorem mbGenInfo_spec (read64 : Bytes → Nat) {r : HeapRegion} {h : Heap} {live : List Nat}
    {bs : List Block} (hinv : RunInv r ⟨h, live⟩ bs) {map : MemoryMap} {es : List Bytes}
    (hentries : map.entries = es.map MemoryMapEntry.mk) (hlen : ∀ e ∈ es, e.length = 20)
    (hmax : es.length ≤ 32) {fuel name info table : Nat}
    (halloc : Allocates fuel h name map.count info table) :
    ∃ h', mbGenInfo read64 fuel h name map = some (info, h') ∧
      MultiBootInfo.memoryMapBegin h'.mem info = table ∧
      MultiBootInfo.memoryMapEnd h'.mem info = table + 24 * es.length ∧
      Filled h'.mem table (es.map MemoryMapEntry.mk) := by
  obtain ⟨h₁, h₂, hinfo, hinfo0, htable, htable0⟩ := halloc
  have hcount := count_of_entries hentries
  obtain ⟨bs₁, hinv₁, hblock₁⟩ := newInfo_spec hinv hinfo hinfo0
  obtain ⟨bs₂, hinv₂, hblock₂, hapart⟩ := newTable_spec hinv₁ htable htable0 (by omega)
  have hend := hblock₂.lt hinv₂
  -- the table does not overlap the structure
  have hinfoApart := hapart info 128 hblock₁
  obtain ⟨hfilled, -⟩ := fillLoop_entries hentries hlen h₂.mem hend
  obtain ⟨hfirst, hlast, hframe⟩ := setMemoryMap_spec read64
    (fillLoop map table map.count 0 h₂.mem) info hend
  -- `setMemoryMap` writes into the structure only, so the table stays filled
  refine ⟨_, mbGenInfo_eq read64 hinfo htable, hfirst, ?_, ?_⟩
  · rw [hlast, hcount]
  · refine hfilled.congr fun a h1 h2 => hframe a ?_
    rw [List.length_map, ← hcount] at h2
    omega

/-- **The memory map**: whatever up to 32 entries the firmware answers, `Load`
    stores them, and the kernel walks over exactly them. -/
theorem kernel_sees_answers (read64 : Bytes → Nat) {r : HeapRegion} {σ : HeapRun}
    (hσ : r.Reachable σ) {fw : Firmware} {es : List Bytes} (hes : Answers fw 0 0 es)
    (hmax : es.length ≤ 32) {temp : Bytes} (htemp : temp.length = 20) (map₀ : MemoryMap) :
    ∃ map, MemoryMap.load 32 fw temp map₀ = some (true, map) ∧
      map.entries = es.map MemoryMapEntry.mk ∧
      ∀ {fuel name info table : Nat}, Allocates fuel σ.heap name map.count info table →
        ∃ h', mbGenInfo read64 fuel σ.heap name map = some (info, h') ∧
          Walks h'.mem info es ∧ Prints read64 h'.mem info es := by
  obtain ⟨bs, hinv⟩ := runInv_reachable hσ
  obtain ⟨map, hload, hentries⟩ := load_spec hes (by decide) hmax htemp map₀
  refine ⟨map, hload, hentries, ?_⟩
  intro fuel name info table halloc
  obtain ⟨h', hgen, hfirst, hlast, hfilled⟩ :=
    mbGenInfo_spec read64 hinv hentries hes.length_entry hmax halloc
  obtain ⟨_, _, -, -, -, htable⟩ := halloc
  exact ⟨h', hgen, walks_of_filled hfirst hlast hfilled,
    prints_of_filled read64 htable hfirst hlast hfilled⟩

/-- A firmware with two entries: it is done when it answers with 0. -/
def twoEntries : Firmware := fun k _ =>
  if k = 0 then ⟨false, signature, 7, List.replicate 20 0xAA⟩
  else ⟨false, signature, 0, List.replicate 20 0xBB⟩

set_option maxRecDepth 3000

/-- The kernel sees both entries. -/
theorem kernel_sees_two :
    ∃ map info h', MemoryMap.load 32 twoEntries (List.replicate 20 0) ⟨fun _ => ⟨[]⟩, 0⟩ =
        some (true, map) ∧
      mbGenInfo leNat 4 (heapInit (fun _ => 0) 4096 8192) 0 map = some (info, h') ∧
      Walks h'.mem info [List.replicate 20 0xAA, List.replicate 20 0xBB] := by
  let r : HeapRegion := ⟨4096, 8192, by decide, by decide, by decide⟩
  have hreach : r.Reachable (r.start fun _ => 0) := ⟨_, .refl⟩
  have hes : Answers twoEntries 0 0 [List.replicate 20 0xAA, List.replicate 20 0xBB] :=
    .more ⟨rfl, rfl, rfl⟩ (by decide) (.last ⟨rfl, rfl, rfl⟩ rfl)
  obtain ⟨map, hload, hentries, hsees⟩ := kernel_sees_answers leNat hreach hes (by decide)
    (List.length_replicate) ⟨fun _ => ⟨[]⟩, 0⟩
  have hcount : map.count = 2 := count_of_entries hentries
  have hinfo : (newInfo 4 (r.start fun _ => 0).heap 0).map Prod.fst = some 4104 := by decide
  have htable : ((newInfo 4 (r.start fun _ => 0).heap 0).bind fun x => newTable 4 x.2 2).map
      Prod.fst = some 4240 := by decide
  obtain ⟨⟨info, h₁⟩, hnew, rfl⟩ := Option.map_eq_some_iff.mp hinfo
  obtain ⟨⟨table, h₂⟩, hnew', rfl⟩ := Option.map_eq_some_iff.mp htable
  rw [hnew] at hnew'
  obtain ⟨h', hgen, hwalks, -⟩ := hsees ⟨h₁, h₂, hnew, by decide, by rw [hcount]; exact hnew', by decide⟩
  exact ⟨map, _, h', hload, hgen, hwalks⟩

end Hausboot.Mmap

import Hausboot.Heap.Frame
import Hausboot.Lib.LastHit
import Hausboot.Mmap.Walk

/-! # The Memory Map: Low and High Memory

    `SetMemoryMap` puts the size of a usable region into `_memLower` or into
    `_memUpper`, whatever an earlier entry has put there. So the counters are
    last hits over the table (`countLoop_counts`), and whether they say how much
    memory there is depends on the map (`memory_reported_iff`). -/

open ByteLib LastHit

namespace Hausboot.Mmap

namespace MultiBootInfo

/-- `LowMemoryCount` -/
def lowMemoryCount (m : Store) (info : Nat) : Nat := m.readLE (info + 4) 4

/-- `HighMemoryCount` -/
def highMemoryCount (m : Store) (info : Nat) : Nat := m.readLE (info + 8) 4

end MultiBootInfo

open MultiBootInfo

section Counts

variable (read64 : Bytes → Nat)

/-! ## Section 1: The counters are last hits -/

/-- The entry sets `_memLower`. -/
def SetsLow (e : MemoryMapEntry) : Bool :=
  e.type = 1 && e.baseAddress read64 < 0x00100000

/-- The entry sets `_memUpper`. -/
def SetsHigh (e : MemoryMapEntry) : Bool :=
  e.type = 1 && 0x00100000 ≤ e.baseAddress read64 && e.baseAddress read64 ≤ 0xFFFFFFFF

/-- The value that is stored, in KiB. -/
def kib (e : MemoryMapEntry) : Nat := u32 (e.size read64 / 1024)

/-- One round of the loop, for both counters. -/
theorem countMemory_counts (m : Store) (info : Nat) (e : MemoryMapEntry) :
    lowMemoryCount (countMemory read64 m info e) info =
      (if SetsLow read64 e then kib read64 e else lowMemoryCount m info) ∧
    highMemoryCount (countMemory read64 m info e) info =
      if SetsHigh read64 e then kib read64 e else highMemoryCount m info := by
  have hfits : kib read64 e % 256 ^ 4 = kib read64 e :=
    Nat.mod_eq_of_lt (Nat.mod_lt _ (by decide))
  unfold countMemory lowMemoryCount highMemoryCount
  by_cases htype : e.type = 1
  swap
  · simp [SetsLow, SetsHigh, htype]
  rw [if_neg (not_not_intro htype)]
  by_cases hfar : e.baseAddress read64 > 0xFFFFFFFF
  · have hlow : ¬ e.baseAddress read64 < 0x00100000 := by omega
    have hhigh : ¬ e.baseAddress read64 ≤ 0xFFFFFFFF := by omega
    simp [SetsLow, SetsHigh, hfar, hlow, hhigh]
  rw [if_neg hfar]
  by_cases hlow : e.baseAddress read64 < 0x00100000
  · have hhigh : ¬ 0x00100000 ≤ e.baseAddress read64 := by omega
    have hset : SetsLow read64 e = true ∧ SetsHigh read64 e = false := by
      simp [SetsLow, SetsHigh, htype, hlow, hhigh]
    rw [if_pos hlow, if_pos hset.1, hset.2, Store.readLE_writeLE_same,
      Store.readLE_writeLE_disjoint (by omega)]
    exact ⟨hfits, rfl⟩
  · have hset : SetsLow read64 e = false ∧ SetsHigh read64 e = true := by
      simp only [SetsLow, SetsHigh, htype, hlow]
      simp
      omega
    rw [if_neg hlow, hset.1, if_pos hset.2, Store.readLE_writeLE_same,
      Store.readLE_writeLE_disjoint (by omega)]
    exact ⟨rfl, hfits⟩

/-- The loop over a table that lies apart from the structure. -/
theorem countLoop_counts {info array : Nat} (es : List MemoryMapEntry) (i : Nat) (m : Store)
    (hfilled : Filled m (array + 24 * i) es)
    (hapart : info + 12 ≤ array + 24 * i ∨ array + 24 * i + 24 * es.length ≤ info + 4) :
    lowMemoryCount (countLoop read64 info array es.length i m) info =
      lastHit (SetsLow read64) (kib read64) (lowMemoryCount m info) es ∧
    highMemoryCount (countLoop read64 info array es.length i m) info =
      lastHit (SetsHigh read64) (kib read64) (highMemoryCount m info) es := by
  induction es generalizing i m with
  | nil => exact ⟨rfl, rfl⟩
  | cons e es ih =>
    obtain ⟨hentry, -, hrest⟩ := hfilled
    rw [List.length_cons] at hapart
    have hnext : array + 24 * i + 24 = array + 24 * (i + 1) := by omega
    rw [hnext] at hrest
    -- the counters do not lie in the rest of the table
    have hkept := hrest.congr fun a h1 h2 =>
      countMemory_frame read64 m info e (show a < info + 4 ∨ info + 12 ≤ a by omega)
    obtain ⟨hlow, hhigh⟩ := ih (i + 1) (countMemory read64 m info e) hkept (by omega)
    obtain ⟨hlow₁, hhigh₁⟩ := countMemory_counts read64 m info e
    rw [hlow₁] at hlow
    rw [hhigh₁] at hhigh
    rw [List.length_cons, countLoop, MultiBootMmap.sizeof, hentry]
    exact ⟨hlow, hhigh⟩

/-! ## Section 2: What the counters should say -/

/-- A new info structure, and a table of the entries apart from it, both in the
    32 bit address space. -/
structure TableAt (m : Store) (info array : Nat) (es : List MemoryMapEntry) : Prop where
  low : lowMemoryCount m info = 0
  high : highMemoryCount m info = 0
  filled : Filled m array es
  apart : info + 128 ≤ array ∨ array + 24 * es.length ≤ info
  fits : info + 128 < 2 ^ 32 ∧ array + 24 * es.length < 2 ^ 32

/-- Each of these addresses lies in a usable region. -/
def UsableFrom (es : List MemoryMapEntry) (start length : Nat) : Prop :=
  ∀ a, start ≤ a → a < start + length →
    ∃ e ∈ es, e.type = 1 ∧ e.baseAddress read64 ≤ a ∧ a < e.baseAddress read64 + e.size read64

/-- What `SetMemoryMap` should report of a map: memory that is there, and the
    same for each order of the entries. -/
def Reports (es : List MemoryMapEntry) : Prop :=
  ∀ m info array, TableAt m info array es →
    UsableFrom read64 es 0x00100000
      (1024 * highMemoryCount (setMemoryMap read64 m info array es.length) info) ∧
    UsableFrom read64 es 0
      (1024 * lowMemoryCount (setMemoryMap read64 m info array es.length) info) ∧
    ∀ es', es'.Perm es → ∀ m' info' array', TableAt m' info' array' es' →
      highMemoryCount (setMemoryMap read64 m' info' array' es'.length) info' =
        highMemoryCount (setMemoryMap read64 m info array es.length) info ∧
      lowMemoryCount (setMemoryMap read64 m' info' array' es'.length) info' =
        lowMemoryCount (setMemoryMap read64 m info array es.length) info

/-- All entries that set a counter have the same size in KiB, and as much
    memory is usable from `start` on. -/
def Agree (sets : MemoryMapEntry → Bool) (start : Nat) (es : List MemoryMapEntry) : Prop :=
  ∀ e ∈ es, sets e = true → UsableFrom read64 es start (1024 * kib read64 e) ∧
    ∀ e' ∈ es, sets e' = true → kib read64 e' = kib read64 e

theorem setMemoryMap_counts {m : Store} {info array : Nat} {es : List MemoryMapEntry}
    (h : TableAt m info array es) :
    lowMemoryCount (setMemoryMap read64 m info array es.length) info =
      lastHit (SetsLow read64) (kib read64) 0 es ∧
    highMemoryCount (setMemoryMap read64 m info array es.length) info =
      lastHit (SetsHigh read64) (kib read64) 0 es := by
  obtain ⟨hlow, hhigh, hfilled, hapart, -⟩ := h
  -- the other fields that are set lie around the counters
  obtain ⟨m₁, hset, hframe⟩ : ∃ m₁ : Store,
      setMemoryMap read64 m info array es.length = countLoop read64 info array es.length 0 m₁ ∧
      ∀ a, a < info ∨ info + 4 ≤ a ∧ a < info + 44 ∨ info + 52 ≤ a → m₁ a = m a := by
    refine ⟨_, rfl, ?_⟩
    intro a ha
    rw [Store.writeLE, Store.write_apply_of_not_mem (by rw [length_leBytes]; omega), Store.writeLE,
      Store.write_apply_of_not_mem (by rw [length_leBytes]; omega), Store.writeLE,
      Store.write_apply_of_not_mem (by rw [length_leBytes]; omega)]
  have hfilled₁ : Filled m₁ array es := hfilled.congr fun a h1 h2 => hframe a (by omega)
  obtain ⟨hlow₁, hhigh₁⟩ := @countLoop_counts read64 info array es 0 m₁ hfilled₁ (by omega)
  have hlow₀ : lowMemoryCount m₁ info = 0 := by
    rw [← hlow, lowMemoryCount, lowMemoryCount]
    exact Store.readLE_congr fun a h1 h2 => hframe a (by omega)
  have hhigh₀ : highMemoryCount m₁ info = 0 := by
    rw [← hhigh, highMemoryCount, highMemoryCount]
    exact Store.readLE_congr fun a h1 h2 => hframe a (by omega)
  rw [hlow₀] at hlow₁
  rw [hhigh₀] at hhigh₁
  rw [hset]
  exact ⟨hlow₁, hhigh₁⟩

/-- There is such a table for every map that fits. -/
theorem exists_tableAt (es : List MemoryMapEntry) (hraw : ∀ e ∈ es, e.raw.length = 20)
    (hfits : 128 + 24 * es.length < 2 ^ 32) :
    ∃ m info array, TableAt m info array es := by
  let map : MemoryMap := ⟨fun i => es.getD i ⟨[]⟩, es.length⟩
  have hentries : (List.range' 0 es.length).map map.getAt = es := by
    rw [map_getAt map, MemoryMap.entries]
    refine List.ext_getElem (by simp [map]) ?_
    intro i h1 h2
    simp [map, h2]
  have hlen : ∀ j, 0 ≤ j → j < 0 + es.length → (map.getAt j).raw.length = 20 := by
    intro j _ hj
    apply hraw
    rw [← hentries]
    exact List.mem_map.mpr ⟨j, List.mem_range'_1.mpr ⟨Nat.zero_le j, hj⟩, rfl⟩
  obtain ⟨hfilled, hframe⟩ := @fillLoop_spec map 128 es.length 0 (fun _ => 0) hlen (by omega)
  rw [hentries] at hfilled
  have hzero : ∀ o, o + 4 ≤ 128 →
      Store.readLE (fillLoop map 128 es.length 0 fun _ => 0) (0 + o) 4 = 0 := by
    intro o ho
    exact Store.readLE_congr fun a h1 h2 => hframe a (by omega)
  exact ⟨_, 0, 128, hzero 4 (by decide), hzero 8 (by decide), hfilled, .inl (by decide),
    by decide, by omega⟩

/-! ## Section 3: The table that MBGenInfo makes -/

section Table

variable {r : HeapRegion} {h h' : Heap} {live : List Nat} {bs : List Block} {fuel : Nat}

/-- The counters of a new structure. -/
theorem newInfo_zero {info name a : Nat} (hcall : newInfo fuel h name = some (info, h'))
    (hlo : info + 4 ≤ a) (hhi : a < info + 12) : h'.mem a = 0 := by
  unfold newInfo at hcall
  obtain ⟨⟨p, h₁⟩, -, hrest⟩ := Option.bind_eq_some_iff.mp hcall
  obtain ⟨rfl, rfl⟩ := Prod.mk.inj (Option.some.inj hrest)
  have hlen : (List.replicate MultiBootInfo.sizeof (0 : UInt8)).length = 128 :=
    List.length_replicate
  simp only [setLoadName, Store.writeLE]
  rw [Store.write_apply_of_not_mem (by rw [length_leBytes]; omega),
    Store.write_apply_of_not_mem (by rw [length_leBytes]; omega),
    Store.write_apply_of_mem (by omega) (by omega)]
  simp

/-- The table is written to its own block, which was free. -/
theorem newTable_keeps {table count a : Nat} (hinv : RunInv r ⟨h, live⟩ bs)
    (hcall : newTable fuel h count = some (table, h')) (hfree : OutsideFree bs a)
    (hout : a < table ∨ table + 24 * count ≤ a) : h'.mem a = h.mem a := by
  unfold newTable at hcall
  obtain ⟨⟨p, h₁⟩, hmalloc, hrest⟩ := Option.bind_eq_some_iff.mp hcall
  obtain ⟨rfl, rfl⟩ := Prod.mk.inj (Option.some.inj hrest)
  have hlen : (List.replicate (MultiBootMmap.sizeof * count) (0 : UInt8)).length = 24 * count :=
    List.length_replicate
  dsimp only
  rw [Store.write_apply_of_not_mem (by omega), malloc_frame hinv hmalloc a hfree]

theorem newTable_frame {table count q n a : Nat} (hinv : RunInv r ⟨h, live⟩ bs)
    (hcall : newTable fuel h count = some (table, h')) (hnull : table ≠ 0) (hcount : count ≤ 32)
    (hq : InBlock bs q n) (hlo : q ≤ a) (hhi : a < q + n) : h'.mem a = h.mem a := by
  obtain ⟨-, -, -, hapart⟩ := newTable_spec hinv hcall hnull hcount
  have haparts := hapart q n hq
  obtain ⟨s, hs, hused, hstart, hstop⟩ := hq
  have hout : OutsideFree bs a :=
    outsideFree_of_used hinv.repr.shape.tiles hs hused (by omega) (by omega)
  exact newTable_keeps hinv hcall hout (by omega)

/-- **MBGenInfo** counts over the entries of the map, whatever their order. -/
theorem mbGenInfo_counts (hinv : RunInv r ⟨h, live⟩ bs) {map : MemoryMap} {es : List Bytes}
    (hentries : map.entries = es.map MemoryMapEntry.mk) (hlen : ∀ e ∈ es, e.length = 20)
    (hmax : es.length ≤ 32) {name info table : Nat}
    (halloc : Allocates fuel h name map.count info table) :
    ∃ h', mbGenInfo read64 fuel h name map = some (info, h') ∧
      lowMemoryCount h'.mem info =
        lastHit (SetsLow read64) (kib read64) 0 (es.map MemoryMapEntry.mk) ∧
      highMemoryCount h'.mem info =
        lastHit (SetsHigh read64) (kib read64) 0 (es.map MemoryMapEntry.mk) := by
  obtain ⟨h₁, h₂, hinfo, hinfo0, htable, htable0⟩ := halloc
  have hcount := count_of_entries hentries
  obtain ⟨bs₁, hinv₁, hblock₁⟩ := newInfo_spec hinv hinfo hinfo0
  obtain ⟨bs₂, hinv₂, hblock₂, hapart⟩ := newTable_spec hinv₁ htable htable0 (by omega)
  have hend := hblock₂.lt hinv₂
  have hinfoEnd := hblock₁.lt hinv₁
  have hinfoApart := hapart info 128 hblock₁
  obtain ⟨hfilled, hframe⟩ := fillLoop_entries hentries hlen h₂.mem hend
  -- the counters stay zero until the loop over the table
  have hzero : ∀ o, 4 ≤ o → o + 4 ≤ 12 →
      Store.readLE (fillLoop map table map.count 0 h₂.mem) (info + o) 4 = 0 := by
    intro o h1 h2
    have hbytes : ∀ a, info + o ≤ a → a < info + o + 4 →
        fillLoop map table map.count 0 h₂.mem a = (fun _ => 0 : Store) a := by
      intro a h3 h4
      rw [hframe a (by omega), newTable_frame hinv₁ htable htable0 (by omega) hblock₁
        (by omega) (by omega)]
      exact newInfo_zero hinfo (by omega) (by omega)
    exact Store.readLE_congr hbytes
  have htableAt : TableAt (fillLoop map table map.count 0 h₂.mem) info table
      (es.map MemoryMapEntry.mk) :=
    ⟨hzero 4 (by decide) (by decide), hzero 8 (by decide) (by decide), hfilled,
      by rw [List.length_map, ← hcount]; exact hinfoApart, by omega,
      by rw [List.length_map, ← hcount]; exact hend⟩
  have hcounts := setMemoryMap_counts read64 htableAt
  rw [List.length_map, ← hcount] at hcounts
  exact ⟨_, mbGenInfo_eq read64 hinfo htable, hcounts⟩

end Table

/-! ## Section 4: When the reported memory is there -/

theorem usableFrom_zero (es : List MemoryMapEntry) (start : Nat) :
    UsableFrom read64 es start (1024 * 0) := by
  intro a h1 h2
  omega

/-- A counter reports memory that is there, if all entries that set it agree. -/
theorem Agree.usable {sets : MemoryMapEntry → Bool} {start : Nat} {es : List MemoryMapEntry}
    (h : Agree read64 sets start es) :
    UsableFrom read64 es start (1024 * lastHit sets (kib read64) 0 es) := by
  rcases lastHit_cases sets (kib read64) 0 es with ⟨-, hres⟩ | ⟨e, he, hset, hres⟩
  · rw [hres]
    exact usableFrom_zero read64 es start
  · rw [hres]
    exact (h e he hset).1

theorem agree_iff {sets : MemoryMapEntry → Bool} {start : Nat} {es : List MemoryMapEntry} :
    Agree read64 sets start es ↔
      UsableFrom read64 es start (1024 * lastHit sets (kib read64) 0 es) ∧
      ∀ es', es'.Perm es →
        lastHit sets (kib read64) 0 es' = lastHit sets (kib read64) 0 es := by
  rw [lastHit_perm_iff]
  constructor
  · intro h
    exact ⟨h.usable, fun e he hset => (h e he hset).2⟩
  · rintro ⟨husable, hsame⟩ e he hset
    have hres : lastHit sets (kib read64) 0 es = kib read64 e :=
      lastHit_eq he hset (hsame e he hset)
    rw [hres] at husable
    exact ⟨husable, hsame e he hset⟩

/-- A single usable region, from `start` on, agrees with itself. -/
theorem agree_single {sets : MemoryMapEntry → Bool} {start : Nat} {es : List MemoryMapEntry}
    {e : MemoryMapEntry} (he : e ∈ es) (htype : e.type = 1) (hbase : e.baseAddress read64 = start)
    (honly : ∀ e' ∈ es, sets e' = true → e' = e) : Agree read64 sets start es := by
  have hle : 1024 * kib read64 e ≤ e.size read64 := by
    have hmod := Nat.mod_le (e.size read64 / 1024) (2 ^ 32)
    simp only [kib, u32]
    omega
  intro e' he' hset
  obtain rfl := honly e' he' hset
  refine ⟨?_, fun e'' he'' hset'' => by rw [honly e'' he'' hset'']⟩
  intro a h1 h2
  exact ⟨e', he, htype, by omega, by omega⟩

/-- **Reported memory**: what `SetMemoryMap` reports is there and does not
    depend on the order, if and only if the usable regions below one megabyte
    agree with each other and with what lies at 0, and those above with each
    other and with what lies at one megabyte. -/
theorem memory_reported_iff (es : List MemoryMapEntry) (hraw : ∀ e ∈ es, e.raw.length = 20)
    (hfits : 128 + 24 * es.length < 2 ^ 32) :
    Reports read64 es ↔
      Agree read64 (SetsHigh read64) 0x00100000 es ∧ Agree read64 (SetsLow read64) 0 es := by
  constructor
  · intro h
    obtain ⟨m, info, array, htable⟩ := exists_tableAt es hraw hfits
    obtain ⟨hhigh, hlow, hperm⟩ := h m info array htable
    obtain ⟨hlowEq, hhighEq⟩ := setMemoryMap_counts read64 htable
    rw [hhighEq] at hhigh
    rw [hlowEq] at hlow
    -- a table for each order of the entries
    have horder : ∀ es', es'.Perm es →
        lastHit (SetsHigh read64) (kib read64) 0 es' = lastHit (SetsHigh read64) (kib read64) 0 es ∧
        lastHit (SetsLow read64) (kib read64) 0 es' = lastHit (SetsLow read64) (kib read64) 0 es := by
      intro es' hes'
      obtain ⟨m', info', array', htable'⟩ := exists_tableAt es'
        (fun e he => hraw e (hes'.mem_iff.mp he)) (by rw [hes'.length_eq]; exact hfits)
      obtain ⟨hlowEq', hhighEq'⟩ := setMemoryMap_counts read64 htable'
      have hcounts := hperm es' hes' m' info' array' htable'
      rw [hlowEq, hhighEq, hlowEq', hhighEq'] at hcounts
      exact hcounts
    exact ⟨(agree_iff read64).mpr ⟨hhigh, fun es' hes' => (horder es' hes').1⟩,
      (agree_iff read64).mpr ⟨hlow, fun es' hes' => (horder es' hes').2⟩⟩
  · rintro ⟨hhigh, hlow⟩ m info array htable
    obtain ⟨hlowEq, hhighEq⟩ := setMemoryMap_counts read64 htable
    rw [hlowEq, hhighEq]
    refine ⟨hhigh.usable, hlow.usable, ?_⟩
    intro es' hes' m' info' array' htable'
    obtain ⟨hlowEq', hhighEq'⟩ := setMemoryMap_counts read64 htable'
    rw [hlowEq', hhighEq']
    exact ⟨((agree_iff read64).mp hhigh).2 es' hes', ((agree_iff read64).mp hlow).2 es' hes'⟩

end Counts

/-- An entry of the firmware. -/
def sampleEntry (base size type : Nat) : MemoryMapEntry :=
  ⟨leBytes 8 base ++ leBytes 8 size ++ leBytes 4 type⟩

/-- 640 KiB at 0 and 63 MiB at one megabyte, with a reserved hole between them. -/
def plainMap : List MemoryMapEntry :=
  [sampleEntry 0 0xA0000 1, sampleEntry 0xA0000 0x60000 2, sampleEntry 0x100000 0x3F00000 1]

/-- A map that is reported as it is. -/
theorem memory_reported_plain : Reports leNat plainMap := by
  rw [memory_reported_iff leNat plainMap (by decide) (by decide)]
  constructor
  · apply agree_single leNat (show sampleEntry 0x100000 0x3F00000 1 ∈ plainMap by simp [plainMap])
      (by decide) (by decide)
    intro e he hset
    simp only [plainMap, List.mem_cons, List.not_mem_nil, or_false] at he
    rcases he with rfl | rfl | rfl
    · exact absurd hset (by decide)
    · exact absurd hset (by decide)
    · rfl
  · apply agree_single leNat (show sampleEntry 0 0xA0000 1 ∈ plainMap by simp [plainMap])
      (by decide) (by decide)
    intro e he hset
    simp only [plainMap, List.mem_cons, List.not_mem_nil, or_false] at he
    rcases he with rfl | rfl | rfl
    · rfl
    · exact absurd hset (by decide)
    · exact absurd hset (by decide)

/-- Two regions above one megabyte, with a hole from 15 to 16 MiB. -/
def holeMap : List MemoryMapEntry :=
  [sampleEntry 0x100000 0xE00000 1, sampleEntry 0x1000000 0x7000000 1]

/-- The map with the hole: the size of the last region is reported. -/
theorem memory_reported_hole :
    ¬ ∀ es : List MemoryMapEntry, (∀ e ∈ es, e.raw.length = 20) → 128 + 24 * es.length < 2 ^ 32 →
      Reports leNat es := by
  intro hall
  obtain ⟨m, info, array, htable⟩ := exists_tableAt holeMap (by decide) (by decide)
  obtain ⟨hhigh, -, -⟩ := hall holeMap (by decide) (by decide) m info array htable
  have hcount : lastHit (SetsHigh leNat) (kib leNat) 0 holeMap = 0x1C000 := by decide
  rw [(setMemoryMap_counts leNat htable).2, hcount] at hhigh
  -- the first byte of the hole
  obtain ⟨e, he, -, hlo, hhi⟩ := hhigh 0xF00000 (by decide) (by decide)
  have hnone : ∀ e ∈ holeMap, ¬ (e.baseAddress leNat ≤ 0xF00000 ∧
      0xF00000 < e.baseAddress leNat + e.size leNat) := by decide
  exact hnone e he ⟨hlo, hhi⟩

end Hausboot.Mmap

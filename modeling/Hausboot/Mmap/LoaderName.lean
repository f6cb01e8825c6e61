import Hausboot.Mmap.Counts

/-! # The Memory Map: The Name of the Loader

    `MBGenInfo` stores the address of the loader's name in the structure before
    it makes the memory map. What it writes after that leaves the address and
    its flag alone, and none of it lies outside the heap (`mbGenInfo_name`). -/

open ByteLib

namespace Hausboot.Mmap

namespace MultiBootInfo

/-- `BootLoaderName` -/
def bootLoaderName (m : Store) (info : Nat) : Nat :=
  if !FlagField.isSet (m.readLE info 4) flagBootLoaderName then 0 else m.readLE (info + 64) 4

theorem bootLoaderName_congr {m m' : Store} {info : Nat}
    (h : ∀ a, info ≤ a → a < info + 128 → m' a = m a) :
    bootLoaderName m' info = bootLoaderName m info := by
  have hflags : m'.readLE info 4 = m.readLE info 4 :=
    Store.readLE_congr fun a h1 h2 => h a h1 (by omega)
  have hname : m'.readLE (info + 64) 4 = m.readLE (info + 64) 4 :=
    Store.readLE_congr fun a h1 h2 => h a (by omega) (by omega)
  rw [bootLoaderName, bootLoaderName, hflags, hname]

theorem bootLoaderName_setLoadName (m : Store) (info : Nat) {name : Nat} (hname : name < 2 ^ 32) :
    bootLoaderName (setLoadName m info name) info = name := by
  rw [bootLoaderName, setLoadName, Store.readLE_writeLE_same,
    isSet_set (Store.readLE_lt _ _ 4) (by decide), Store.readLE_writeLE_disjoint (by omega),
    Store.readLE_writeLE_same]
  exact Nat.mod_eq_of_lt hname

theorem bootLoaderName_setMemoryMap (read64 : Bytes → Nat) (m : Store) (info array count : Nat) :
    bootLoaderName (setMemoryMap read64 m info array count) info = bootLoaderName m info := by
  have hflags := setMemoryMap_field read64 m info array count (o := 0) (n := 4) (.inl (by decide))
  rw [Nat.add_zero, Store.readLE_writeLE_same] at hflags
  have hname := setMemoryMap_field read64 m info array count (o := 64) (n := 4) (.inr (by decide))
  rw [Store.readLE_writeLE_disjoint (by omega), Store.readLE_writeLE_disjoint (by omega),
    Store.readLE_writeLE_disjoint (by omega)] at hname
  rw [bootLoaderName, hflags, hname, isSet_set_other (Store.readLE_lt _ _ 4) (by decide) (by decide),
    Store.readLE_writeLE_disjoint (by omega), Store.readLE_writeLE_disjoint (by omega), bootLoaderName]

end MultiBootInfo

open MultiBootInfo

section Outside

variable {r : HeapRegion} {h h' : Heap} {live : List Nat} {bs : List Block} {fuel : Nat}

/-- The address does not lie on the heap. -/
def OffHeap (r : HeapRegion) (a : Nat) : Prop := a < r.basePtr ∨ r.stop ≤ a

theorem OffHeap.outsideFree (hinv : RunInv r ⟨h, live⟩ bs) {a : Nat} (ha : OffHeap r a) :
    OutsideFree bs a := by
  apply outsideFree_of_range hinv.repr.shape.tiles
  rw [hinv.heap_eq, hinv.heapEnd_eq]
  exact ha

theorem OffHeap.outside (hinv : RunInv r ⟨h, live⟩ bs) {a p n : Nat} (ha : OffHeap r a)
    (hp : InBlock bs p n) : a < p ∨ p + n ≤ a := by
  obtain ⟨s, hs, -, hstart, hstop⟩ := hp
  have hbounds := hinv.repr.shape.tiles.bounds s hs
  rw [hinv.heap_eq, hinv.heapEnd_eq] at hbounds
  rcases ha with ha | ha
  · exact .inl (by omega)
  · exact .inr (by omega)

theorem newInfo_offHeap {info name a : Nat} (hinv : RunInv r ⟨h, live⟩ bs)
    (hcall : newInfo fuel h name = some (info, h')) (hnull : info ≠ 0) (ha : OffHeap r a) :
    h'.mem a = h.mem a := by
  obtain ⟨bs', hinv', hblock⟩ := newInfo_spec hinv hcall hnull
  have hout := ha.outside hinv' hblock
  unfold newInfo at hcall
  obtain ⟨⟨p, h₁⟩, hmalloc, hrest⟩ := Option.bind_eq_some_iff.mp hcall
  obtain ⟨rfl, rfl⟩ := Prod.mk.inj (Option.some.inj hrest)
  have hlen : (List.replicate MultiBootInfo.sizeof (0 : UInt8)).length = 128 :=
    List.length_replicate
  simp only [setLoadName, Store.writeLE]
  rw [Store.write_apply_of_not_mem (by rw [length_leBytes]; omega),
    Store.write_apply_of_not_mem (by rw [length_leBytes]; omega),
    Store.write_apply_of_not_mem (by omega), malloc_frame hinv hmalloc a (ha.outsideFree hinv)]

theorem newTable_offHeap {table count a : Nat} (hinv : RunInv r ⟨h, live⟩ bs)
    (hcall : newTable fuel h count = some (table, h')) (hnull : table ≠ 0) (hcount : count ≤ 32)
    (ha : OffHeap r a) : h'.mem a = h.mem a := by
  obtain ⟨bs', hinv', hblock, -⟩ := newTable_spec hinv hcall hnull hcount
  exact newTable_keeps hinv hcall (ha.outsideFree hinv) (ha.outside hinv' hblock)

/-- **MBGenInfo** hands over the name, and writes to the heap only. -/
theorem mbGenInfo_name (read64 : Bytes → Nat) (hinv : RunInv r ⟨h, live⟩ bs) {map : MemoryMap}
    {es : List Bytes} (hentries : map.entries = es.map MemoryMapEntry.mk)
    (hlen : ∀ e ∈ es, e.length = 20) (hmax : es.length ≤ 32) {name info table : Nat}
    (hname : name < 2 ^ 32) (halloc : Allocates fuel h name map.count info table) :
    ∃ h', mbGenInfo read64 fuel h name map = some (info, h') ∧
      bootLoaderName h'.mem info = name ∧ ∀ a, OffHeap r a → h'.mem a = h.mem a := by
  obtain ⟨h₁, h₂, hinfo, hinfo0, htable, htable0⟩ := halloc
  have hcount := count_of_entries hentries
  obtain ⟨bs₁, hinv₁, hblock₁⟩ := newInfo_spec hinv hinfo hinfo0
  obtain ⟨bs₂, hinv₂, hblock₂, hapart⟩ := newTable_spec hinv₁ htable htable0 (by omega)
  have hend := hblock₂.lt hinv₂
  have hinfoApart := hapart info 128 hblock₁
  obtain ⟨-, hframe⟩ := fillLoop_entries hentries hlen h₂.mem hend
  obtain ⟨-, -, hframe'⟩ := setMemoryMap_spec read64
    (fillLoop map table map.count 0 h₂.mem) info hend
  refine ⟨_, mbGenInfo_eq read64 hinfo htable, ?_, ?_⟩
  · -- neither the table nor its entries lie in the structure
    have hkept : ∀ a, info ≤ a → a < info + 128 →
        fillLoop map table map.count 0 h₂.mem a = h₁.mem a := by
      intro a h1 h2
      rw [hframe a (by omega), newTable_frame hinv₁ htable htable0 (by omega) hblock₁ h1 h2]
    rw [bootLoaderName_setMemoryMap, bootLoaderName_congr hkept]
    unfold newInfo at hinfo
    obtain ⟨⟨p, h₀⟩, -, hrest⟩ := Option.bind_eq_some_iff.mp hinfo
    obtain ⟨rfl, rfl⟩ := Prod.mk.inj (Option.some.inj hrest)
    exact bootLoaderName_setLoadName _ _ hname
  · intro a ha
    have hout := ha.outside hinv₂ hblock₂
    have hout' := ha.outside hinv₁ hblock₁
    show MultiBootInfo.setMemoryMap read64 _ info table map.count a = _
    rw [hframe' a hout', hframe a hout, newTable_offHeap hinv₁ htable htable0 (by omega) ha,
      newInfo_offHeap hinv hinfo hinfo0 ha]

end Outside

end Hausboot.Mmap

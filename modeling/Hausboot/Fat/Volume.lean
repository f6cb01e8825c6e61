import Mathlib.Data.Finset.Card
import Mathlib.Logic.Function.Basic
import Hausboot.Fat.Super
import Hausboot.Lib.Chain

/-! # FAT Volumes

    A FAT volume without its encoding: a table of links between clusters, and
    the bytes of each cluster. `Appends` is what a writer at the end of a chain
    may do to a volume: fill up its last cluster, and link a free cluster behind
    it once the last one is full. What a writer keeps, and what it adds, is
    derived from these two steps. -/

open ByteLib ChainLib

namespace Hausboot

structure Vol where
  /-- number of data clusters; they are numbered from 2 on -/
  count : Nat
  clusterSize : Nat
  root : Nat
  /-- FAT entries, 32 bits each -/
  entry : Nat → Nat
  data : Nat → Bytes

namespace Vol

/-! ## Section 1: Volumes -/

section Basic

variable (v : Vol)

/-- The link of a cluster: the low 28 bits of its entry. -/
def next (c : Nat) : Nat := v.entry c % 2 ^ 28

def Valid (c : Nat) : Prop := 2 ≤ c ∧ c < v.count + 2

/-- The cluster chain from `c` on. -/
abbrev Chain : Nat → List Nat → Prop := ChainLib.Chain v.next (endMark ≤ ·) v.Valid

/-- The bytes of a cluster chain. -/
def content (l : List Nat) : Bytes := l.flatMap v.data

/-- A volume that a writer can work on. The entries 0 and 1 belong to no
    cluster and have to be non-zero, or they would count as free. -/
structure Sane : Prop where
  clusterSize_pos : 0 < v.clusterSize
  count_lt : v.count + 2 ≤ endMark
  length_data : ∀ c, 2 ≤ c → (v.data c).length = v.clusterSize
  reserved0 : v.next 0 ≠ 0
  reserved1 : v.next 1 ≠ 0

/-- Free clusters among the indices below `count`, where they are searched. -/
def freeSet : Finset Nat := (Finset.range v.count).filter fun c => v.next c = 0

def setEntry (c x : Nat) : Vol := { v with entry := Function.update v.entry c x }

def setData (c : Nat) (d : Bytes) : Vol := { v with data := Function.update v.data c d }

/-- Take the free cluster `x` and hang it behind `c`. -/
def link (c x : Nat) : Vol := (v.setEntry x endMark).setEntry c x

end Basic

variable {v v' : Vol}

@[simp] theorem content_nil : v.content [] = [] := rfl

theorem content_cons (c : Nat) (l : List Nat) : v.content (c :: l) = v.data c ++ v.content l := rfl

@[simp] theorem content_append (l l' : List Nat) :
    v.content (l ++ l') = v.content l ++ v.content l' := by
  simp [content]

theorem length_content (hv : v.Sane) {l : List Nat} (hl : ∀ x ∈ l, v.Valid x) :
    (v.content l).length = l.length * v.clusterSize := by
  induction l with
  | nil => simp
  | cons c l ih =>
    have hc := hv.length_data c (hl c (by simp)).1
    have hrest := ih fun x hx => hl x (by simp [hx])
    rw [content_cons, List.length_append, hc, hrest, List.length_cons, Nat.succ_mul, Nat.add_comm]

theorem content_congr {l : List Nat} (h : ∀ x ∈ l, v'.data x = v.data x) :
    v'.content l = v.content l :=
  List.flatMap_congr h

theorem Chain.valid {c x : Nat} {l : List Nat} (h : v.Chain c l) (hx : x ∈ l) : v.Valid x :=
  (ChainLib.Chain.ok_of_mem h hx).2

/-- A chain has no more clusters than the volume. -/
theorem Chain.length_le {c : Nat} {l : List Nat} (h : v.Chain c l) : l.length ≤ v.count := by
  have hnodup := ChainLib.Chain.nodup h
  have hsub : l.toFinset ⊆ (Finset.range v.count).image (· + 2) := by
    intro x hx
    obtain ⟨h2, hlt⟩ := h.valid (List.mem_toFinset.mp hx)
    exact Finset.mem_image.mpr ⟨x - 2, Finset.mem_range.mpr (by omega), by omega⟩
  have hcard := (Finset.card_le_card hsub).trans Finset.card_image_le
  rwa [List.toFinset_card_of_nodup hnodup, Finset.card_range] at hcard

/-- Every cluster of a chain has a non-zero link. -/
theorem Chain.used {c x : Nat} {l : List Nat} (h : v.Chain c l) (hx : x ∈ l) : v.next x ≠ 0 := by
  induction h with
  | done _ => cases hx
  | link _ _ h ih =>
    rcases List.mem_cons.mp hx with rfl | hx
    · intro h0
      rw [h0] at h
      cases h with
      | done hend => exact absurd hend (by decide)
      | link _ hok _ => exact absurd hok.1 (by omega)
    · exact ih hx

/-- A chain is not changed by what happens to other clusters. -/
theorem Chain.frame {c : Nat} {l : List Nat} (h : v.Chain c l) (hcount : v'.count = v.count)
    (hentry : ∀ x ∈ l, v'.entry x = v.entry x) : v'.Chain c l := by
  have hnext : ∀ x ∈ l, v'.next x = v.next x := fun x hx => by rw [next, hentry x hx, next]
  have h' := ChainLib.Chain.congr h hnext
  have hvalid : v'.Valid = v.Valid := by
    funext x
    rw [Valid, Valid, hcount]
  rwa [Chain, hvalid]

/-! ## Section 2: Updates -/

section Updates

variable (v) (c x y : Nat) (d : Bytes)

@[simp] theorem count_setEntry : (v.setEntry c x).count = v.count := rfl
@[simp] theorem clusterSize_setEntry : (v.setEntry c x).clusterSize = v.clusterSize := rfl
@[simp] theorem root_setEntry : (v.setEntry c x).root = v.root := rfl
@[simp] theorem data_setEntry : (v.setEntry c x).data = v.data := rfl
@[simp] theorem count_setData : (v.setData c d).count = v.count := rfl
@[simp] theorem clusterSize_setData : (v.setData c d).clusterSize = v.clusterSize := rfl
@[simp] theorem root_setData : (v.setData c d).root = v.root := rfl
@[simp] theorem entry_setData : (v.setData c d).entry = v.entry := rfl
@[simp] theorem next_setData : (v.setData c d).next = v.next := rfl
@[simp] theorem count_link : (v.link c x).count = v.count := rfl
@[simp] theorem clusterSize_link : (v.link c x).clusterSize = v.clusterSize := rfl
@[simp] theorem root_link : (v.link c x).root = v.root := rfl
@[simp] theorem data_link : (v.link c x).data = v.data := rfl

@[simp] theorem entry_setEntry_self : (v.setEntry c x).entry c = x := by simp [setEntry]

@[simp] theorem data_setData_self : (v.setData c d).data c = d := by simp [setData]

variable {c x y}

theorem entry_setEntry_ne (h : y ≠ c) : (v.setEntry c x).entry y = v.entry y := by
  simp [setEntry, h]

theorem data_setData_ne (h : y ≠ c) : (v.setData c d).data y = v.data y := by
  simp [setData, h]

theorem entry_link_last : (v.link c x).entry c = x := by simp [link]

theorem entry_link_new (h : x ≠ c) : (v.link c x).entry x = endMark := by
  rw [link, entry_setEntry_ne _ h, entry_setEntry_self]

theorem entry_link_ne (hc : y ≠ c) (hx : y ≠ x) : (v.link c x).entry y = v.entry y := by
  rw [link, entry_setEntry_ne _ hc, entry_setEntry_ne _ hx]

end Updates

theorem next_endMark {c : Nat} (h : v.entry c = endMark) : v.next c = endMark := by
  rw [next, h]
  rfl

/-- A free cluster in the searched range is a data cluster. -/
theorem Sane.valid_of_free (hv : v.Sane) {x : Nat} (hx : x < v.count) (hfree : v.next x = 0) :
    v.Valid x := by
  have h0 : x ≠ 0 := fun h => hv.reserved0 (h ▸ hfree)
  have h1 : x ≠ 1 := fun h => hv.reserved1 (h ▸ hfree)
  exact ⟨by omega, by omega⟩

theorem Valid.lt_endMark (hv : v.Sane) {x : Nat} (hx : v.Valid x) : x < endMark :=
  Nat.lt_of_lt_of_le hx.2 hv.count_lt

theorem next_eq_of_entry (hv : v.Sane) {c x : Nat} (hx : v.Valid x) (h : v'.entry c = x) :
    v'.next c = x := by
  have hlt := hx.lt_endMark hv
  unfold endMark at hlt
  rw [next, h]
  exact Nat.mod_eq_of_lt (by omega)

/-- Taking a free cluster into use. -/
theorem Sane.setEntry (hv : v.Sane) {c x : Nat} (hc : v.Valid c) : (v.setEntry c x).Sane where
  clusterSize_pos := hv.clusterSize_pos
  count_lt := hv.count_lt
  length_data := hv.length_data
  reserved0 := by
    have h := hv.reserved0
    rwa [next, entry_setEntry_ne _ (by have := hc.1; omega)]
  reserved1 := by
    have h := hv.reserved1
    rwa [next, entry_setEntry_ne _ (by have := hc.1; omega)]

theorem Sane.setData (hv : v.Sane) {c : Nat} {d : Bytes} (hd : d.length = v.clusterSize) :
    (v.setData c d).Sane where
  clusterSize_pos := hv.clusterSize_pos
  count_lt := hv.count_lt
  length_data x hx := by
    by_cases h : x = c
    · rw [h, data_setData_self]
      exact hd
    · rw [data_setData_ne _ _ h]
      exact hv.length_data x hx
  reserved0 := hv.reserved0
  reserved1 := hv.reserved1

theorem Sane.link (hv : v.Sane) {c x : Nat} (hc : v.Valid c) (hx : v.Valid x) :
    (v.link c x).Sane :=
  (hv.setEntry hx).setEntry hc

/-! ## Section 3: Appending -/

/-- The end of a chain, and how much of its last cluster is filled. -/
structure Cursor where
  pre : List Nat
  last : Nat
  offset : Nat

def Cursor.chain (w : Cursor) : List Nat := w.pre ++ [w.last]

/-- Number of bytes in front of the cursor. -/
def Cursor.pos (w : Cursor) (clusterSize : Nat) : Nat := w.pre.length * clusterSize + w.offset

/-- The bytes in front of the cursor. -/
def written (v : Vol) (w : Cursor) : Bytes := v.content w.pre ++ (v.data w.last).take w.offset

/-- `d` is appended at the cursor `w`. -/
inductive Appends : Vol → Cursor → Bytes → Vol → Cursor → Prop where
  | done {v : Vol} {w : Cursor} : Appends v w [] v w
  | write {v v' : Vol} {w w' : Cursor} {d e : Bytes} :
      d ≠ [] → w.offset + d.length ≤ v.clusterSize →
      Appends (v.setData w.last (splice (v.data w.last) w.offset d))
        { w with offset := w.offset + d.length } e v' w' →
      Appends v w (d ++ e) v' w'
  | grow {v v' : Vol} {w w' : Cursor} {d : Bytes} {x : Nat} :
      d ≠ [] → w.offset = v.clusterSize → x < v.count → v.next x = 0 →
      Appends (v.link w.last x) ⟨w.chain, x, 0⟩ d v' w' →
      Appends v w d v' w'

/-- The cursor stands at the end of the chain of `first`. -/
structure AtEnd (v : Vol) (first : Nat) (w : Cursor) : Prop where
  chain : v.Chain first w.chain
  offset_le : w.offset ≤ v.clusterSize

theorem Appends.trans {v v₁ v₂ : Vol} {w w₁ w₂ : Cursor} {d e : Bytes}
    (h : Appends v w d v₁ w₁) (h' : Appends v₁ w₁ e v₂ w₂) : Appends v w (d ++ e) v₂ w₂ := by
  induction h with
  | done => exact h'
  | write hd hoff _ ih =>
    rw [List.append_assoc]
    exact .write hd hoff (ih h')
  | grow hd hoff hx hfree _ ih => exact .grow (by simp [hd]) hoff hx hfree (ih h')

/-! ## Section 4: What appending keeps

    Each fact is an induction over `Appends`: one case for each of the two
    steps of a writer. -/

theorem Appends.geometry {w w' : Cursor} {d : Bytes} (h : Appends v w d v' w') :
    v'.count = v.count ∧ v'.clusterSize = v.clusterSize ∧ v'.root = v.root := by
  induction h with
  | done => exact ⟨rfl, rfl, rfl⟩
  | write _ _ _ ih => exact ih
  | grow _ _ _ _ _ ih => exact ih

theorem AtEnd.valid_last {first : Nat} {w : Cursor} (h : AtEnd v first w) : v.Valid w.last :=
  h.chain.valid (by simp [Cursor.chain])

theorem AtEnd.last_notMem {first : Nat} {w : Cursor} (h : AtEnd v first w) : w.last ∉ w.pre := by
  have hnodup := ChainLib.Chain.nodup h.chain
  simp only [Cursor.chain, List.nodup_append] at hnodup
  intro hmem
  exact hnodup.2.2 _ hmem _ (by simp) rfl

theorem AtEnd.write {first : Nat} {w : Cursor} {d : Bytes} (h : AtEnd v first w)
    (hd : w.offset + d.length ≤ v.clusterSize) :
    AtEnd (v.setData w.last (splice (v.data w.last) w.offset d)) first
      { w with offset := w.offset + d.length } :=
  ⟨h.chain, hd⟩

theorem Sane.write (hv : v.Sane) {first : Nat} {w : Cursor} {d : Bytes} (h : AtEnd v first w)
    (hd : w.offset + d.length ≤ v.clusterSize) :
    (v.setData w.last (splice (v.data w.last) w.offset d)).Sane := by
  have hlen := hv.length_data w.last h.valid_last.1
  exact hv.setData (by rw [length_splice (by omega), hlen])

theorem AtEnd.grow (hv : v.Sane) {first x : Nat} {w : Cursor} (h : AtEnd v first w)
    (hx : x < v.count) (hfree : v.next x = 0) :
    AtEnd (v.link w.last x) first ⟨w.chain, x, 0⟩ := by
  have hvalid := hv.valid_of_free hx hfree
  have hlt := hvalid.lt_endMark hv
  have hnew : x ≠ w.last := fun heq =>
    h.chain.used (x := x) (by simp [Cursor.chain, heq]) hfree
  have hend : (v.link w.last x).next x = endMark := next_endMark (entry_link_new _ hnew)
  refine ⟨?_, Nat.zero_le _⟩
  have htail : (v.link w.last x).Chain x [x] := by
    refine .link (by omega) hvalid (.done ?_)
    rw [hend]
  -- the clusters in front of the last one keep their links
  have hkept : ∀ y ∈ w.pre, (v.link w.last x).next y = v.next y := by
    intro y hy
    have hylast : y ≠ w.last := fun heq => h.last_notMem (heq ▸ hy)
    have hyx : y ≠ x := fun heq =>
      h.chain.used (x := y) (by simp [Cursor.chain, hy]) (heq ▸ hfree)
    rw [next, entry_link_ne _ hylast hyx, next]
  have hchain := ChainLib.Chain.splice h.chain hkept
    (next_eq_of_entry hv hvalid (entry_link_last _)) htail
  show (v.link w.last x).Chain first (w.pre ++ [w.last] ++ [x])
  rw [List.append_assoc]
  exact hchain

/-- Appending keeps the volume in order, and the cursor at the end of its chain. -/
theorem Appends.atEnd {first : Nat} {w w' : Cursor} {d : Bytes} (h : Appends v w d v' w')
    (hv : v.Sane) (hw : AtEnd v first w) : v'.Sane ∧ AtEnd v' first w' := by
  induction h with
  | done => exact ⟨hv, hw⟩
  | write _ hd _ ih => exact ih (hv.write hw hd) (hw.write hd)
  | grow _ _ hx hfree _ ih =>
    exact ih (hv.link hw.valid_last (hv.valid_of_free hx hfree)) (hw.grow hv hx hfree)

/-- The old chain is the front of the new one. -/
theorem Appends.chain_front {w w' : Cursor} {d : Bytes} (h : Appends v w d v' w') :
    w.chain <+: w'.chain := by
  induction h with
  | done => exact List.prefix_rfl
  | write _ _ _ ih => exact ih
  | grow _ _ _ _ _ ih => exact (List.prefix_append _ _).trans ih

/-- Every new cluster of the chain was free. -/
theorem Appends.fresh {first : Nat} {w w' : Cursor} {d : Bytes} (h : Appends v w d v' w')
    (hv : v.Sane) (hw : AtEnd v first w) {x : Nat} (hx : x ∈ w'.chain) :
    x ∈ w.chain ∨ (x < v.count ∧ v.next x = 0) := by
  induction h with
  | done => exact .inl hx
  | write _ hd _ ih => exact ih (hv.write hw hd) (hw.write hd) hx
  | @grow v v' w w' d y _ _ hy hfree _ ih =>
    have hvalid := hv.valid_of_free hy hfree
    rcases ih (hv.link hw.valid_last hvalid) (hw.grow hv hy hfree) hx with hmem | ⟨hlt, hnext⟩
    · rcases List.mem_append.mp hmem with hold | hnew
      · exact .inl hold
      · rw [List.mem_singleton.mp hnew]
        exact .inr ⟨hy, hfree⟩
    · by_cases hlast : x = w.last
      · exact .inl (by simp [Cursor.chain, hlast])
      · by_cases hxy : x = y
        · exact .inr ⟨hxy ▸ hy, hxy ▸ hfree⟩
        · rw [next, entry_link_ne _ hlast hxy] at hnext
          exact .inr ⟨hlt, hnext⟩

/-- A cluster that is in use keeps its entry and its bytes, unless it is the
    last one of the chain. -/
theorem Appends.frame {w w' : Cursor} {d : Bytes} (h : Appends v w d v' w') {x : Nat}
    (hlast : x ≠ w.last) (hused : v.next x ≠ 0) :
    v'.entry x = v.entry x ∧ v'.data x = v.data x := by
  induction h with
  | done => exact ⟨rfl, rfl⟩
  | write _ _ _ ih =>
    obtain ⟨hentry, hdata⟩ := ih hlast hused
    exact ⟨hentry, by rw [hdata, data_setData_ne _ _ hlast]⟩
  | @grow v v' w w' d y _ _ _ hfree _ ih =>
    have hxy : x ≠ y := fun heq => hused (heq ▸ hfree)
    have hkeep : (v.link w.last y).entry x = v.entry x := entry_link_ne _ hlast hxy
    obtain ⟨hentry, hdata⟩ := ih hxy (by rwa [next, hkeep])
    exact ⟨hentry.trans hkeep, hdata⟩

/-- Nothing changes outside of the chain. -/
theorem Appends.frame_outside {w w' : Cursor} {d : Bytes} (h : Appends v w d v' w') {x : Nat}
    (hx : x ∉ w'.chain) : v'.entry x = v.entry x ∧ v'.data x = v.data x := by
  induction h with
  | done => exact ⟨rfl, rfl⟩
  | @write v v' w w' d e _ _ hrest ih =>
    have hlast : x ≠ w.last := fun heq =>
      hx (hrest.chain_front.subset (by simp [Cursor.chain, heq]))
    obtain ⟨hentry, hdata⟩ := ih hx
    exact ⟨hentry, by rw [hdata, data_setData_ne _ _ hlast]⟩
  | @grow v v' w w' d y _ _ _ _ hrest ih =>
    have hmem : ∀ z, z ∈ w.chain ++ [y] → x ≠ z := fun z hz heq =>
      hx (hrest.chain_front.subset (heq ▸ hz))
    obtain ⟨hentry, hdata⟩ := ih hx
    refine ⟨?_, hdata⟩
    rw [hentry, entry_link_ne _ (hmem w.last (by simp [Cursor.chain])) (hmem y (by simp))]

/-- A changed entry has its top nibble cleared. -/
theorem Appends.entry_cases {first : Nat} {w w' : Cursor} {d : Bytes} (h : Appends v w d v' w')
    (hv : v.Sane) (hw : AtEnd v first w) (x : Nat) :
    v'.entry x = v.entry x ∨ v'.entry x < 2 ^ 28 := by
  induction h with
  | done => exact .inl rfl
  | write _ hd _ ih => exact ih (hv.write hw hd) (hw.write hd)
  | @grow v v' w w' d y _ _ hy hfree _ ih =>
    have hvalid := hv.valid_of_free hy hfree
    rcases ih (hv.link hw.valid_last hvalid) (hw.grow hv hy hfree) with heq | hlt
    · have hylt := hvalid.lt_endMark hv
      unfold endMark at hylt
      rw [heq]
      by_cases hlast : x = w.last
      · rw [hlast, entry_link_last]
        exact .inr (by omega)
      · by_cases hxy : x = y
        · rw [hxy, entry_link_new _ (hxy ▸ hlast)]
          exact .inr (by decide)
        · exact .inl (entry_link_ne _ hlast hxy)
    · exact .inr hlt

/-! ## Section 5: What appending adds -/

/-- The written bytes follow the ones in front of the cursor. -/
theorem Appends.written_eq {first : Nat} {w w' : Cursor} {d : Bytes} (h : Appends v w d v' w')
    (hv : v.Sane) (hw : AtEnd v first w) : written v' w' = written v w ++ d := by
  induction h with
  | done => simp
  | @write v v' w w' d e _ hd _ ih =>
    have hlen := hv.length_data w.last hw.valid_last.1
    have hpre : (v.setData w.last (splice (v.data w.last) w.offset d)).content w.pre =
        v.content w.pre :=
      content_congr fun x hx => data_setData_ne _ _ fun heq => hw.last_notMem (heq ▸ hx)
    have htake : (splice (v.data w.last) w.offset d).take (w.offset + d.length) =
        (v.data w.last).take w.offset ++ d := by
      have hoff : ((v.data w.last).take w.offset ++ d).length = w.offset + d.length := by
        simp only [List.length_append, List.length_take]
        omega
      rw [splice, List.take_append_of_le_length (by omega), List.take_of_length_le (by omega)]
    rw [ih (hv.write hw hd) (hw.write hd)]
    simp only [written, data_setData_self, hpre, htake, List.append_assoc]
  | @grow v v' w w' d y _ hoff hy hfree _ ih =>
    have hvalid := hv.valid_of_free hy hfree
    have hlen := hv.length_data w.last hw.valid_last.1
    rw [ih (hv.link hw.valid_last hvalid) (hw.grow hv hy hfree)]
    -- the full last cluster moves to the front
    have hfull : (v.data w.last).take w.offset = v.data w.last :=
      List.take_of_length_le (by omega)
    simp only [written, data_link, List.take_zero, List.append_nil, Cursor.chain, hfull]
    rw [content_append, content_cons, content_nil, List.append_nil]
    rfl

theorem Appends.pos_eq {w w' : Cursor} {d : Bytes} (h : Appends v w d v' w') :
    w'.pos v.clusterSize = w.pos v.clusterSize + d.length := by
  induction h with
  | done => rfl
  | write _ _ _ ih =>
    rw [clusterSize_setData] at ih
    rw [ih]
    simp only [Cursor.pos, List.length_append]
    omega
  | grow _ hoff _ _ _ ih =>
    rw [clusterSize_link] at ih
    rw [ih]
    simp only [Cursor.pos, Cursor.chain, List.length_append, List.length_singleton, hoff]
    rw [Nat.succ_mul]
    omega

theorem Appends.eq_of_nil {w w' : Cursor} {d : Bytes} (h : Appends v w d v' w') (hd : d = []) :
    v' = v ∧ w' = w := by
  cases h with
  | done => exact ⟨rfl, rfl⟩
  | write hne _ _ => exact absurd (List.append_eq_nil_iff.mp hd).1 hne
  | grow hne _ _ _ _ => exact absurd hd hne

/-- Behind appended bytes, the cursor stands in the cluster of the last one. -/
theorem Appends.offset_pos {w w' : Cursor} {d : Bytes} (h : Appends v w d v' w') (hd : d ≠ []) :
    0 < w'.offset := by
  induction h with
  | done => exact absurd rfl hd
  | @write v v' w w' d e hne _ hrest ih =>
    rcases eq_or_ne e [] with rfl | he
    · have hpos := List.length_pos_iff.mpr hne
      rw [(hrest.eq_of_nil rfl).2]
      show 0 < w.offset + d.length
      omega
    · exact ih he
  | grow _ _ _ _ _ ih => exact ih hd

theorem length_written (hv : v.Sane) {first : Nat} {w : Cursor} (hw : AtEnd v first w) :
    (written v w).length = w.pos v.clusterSize := by
  have hpre := length_content hv (l := w.pre) fun x hx => hw.chain.valid (by simp [Cursor.chain, hx])
  have hlen := hv.length_data w.last hw.valid_last.1
  have hoff := hw.offset_le
  simp only [written, List.length_append, hpre, List.length_take, hlen, Cursor.pos]
  omega

/-- What lies in front of the cursor is a prefix of the chain's bytes. -/
theorem written_front (v : Vol) (w : Cursor) : written v w <+: v.content w.chain := by
  rw [Cursor.chain, content_append, content_cons, content_nil, List.append_nil, written]
  exact (List.prefix_append_right_inj _).mpr (List.take_prefix _ _)

theorem content_take_pos (hv : v.Sane) {first : Nat} {w : Cursor} (hw : AtEnd v first w) :
    (v.content w.chain).take (w.pos v.clusterSize) = written v w := by
  obtain ⟨rest, hrest⟩ := written_front v w
  rw [← hrest, ← length_written hv hw, List.take_left]

/-! ## Section 6: Free clusters -/

theorem freeSet_link (hv : v.Sane) {first x : Nat} {w : Cursor} (hw : AtEnd v first w)
    (hx : x < v.count) (hfree : v.next x = 0) :
    (v.link w.last x).freeSet = v.freeSet.erase x := by
  have hvalid := hv.valid_of_free hx hfree
  have hnew : x ≠ w.last := fun heq =>
    hw.chain.used (x := x) (by simp [Cursor.chain, heq]) hfree
  have hlast : v.next w.last ≠ 0 := hw.chain.used (by simp [Cursor.chain])
  ext y
  simp only [freeSet, Finset.mem_filter, Finset.mem_range, Finset.mem_erase, count_link]
  by_cases hyx : y = x
  · rw [hyx, next_endMark (entry_link_new _ hnew)]
    simp [endMark]
  · by_cases hyl : y = w.last
    · rw [hyl, next_eq_of_entry hv hvalid (entry_link_last _)]
      have := hvalid.1
      constructor
      · intro h
        omega
      · intro h
        exact absurd h.2.2 hlast
    · rw [next, entry_link_ne _ hyl hyx, ← next]
      simp [hyx]

/-- Each new cluster of the chain is one free cluster less. -/
theorem Appends.card_freeSet {first : Nat} {w w' : Cursor} {d : Bytes} (h : Appends v w d v' w')
    (hv : v.Sane) (hw : AtEnd v first w) :
    v'.freeSet.card + w'.pre.length = v.freeSet.card + w.pre.length := by
  induction h with
  | done => rfl
  | write _ hd _ ih => exact ih (hv.write hw hd) (hw.write hd)
  | @grow v v' w w' d y _ _ hy hfree _ ih =>
    have hrest := ih (hv.link hw.valid_last (hv.valid_of_free hy hfree)) (hw.grow hv hy hfree)
    have hmem : y ∈ v.freeSet := by simp [freeSet, hy, hfree]
    have hcard := Finset.card_erase_add_one hmem
    rw [freeSet_link hv hw hy hfree] at hrest
    simp only [Cursor.chain, List.length_append, List.length_singleton] at hrest
    omega

/-! ## Section 7: New chains -/

/-- A file with the bytes `d` is written to a new chain from `first` on, which
    ends at the cursor. -/
def NewChain (v : Vol) (first : Nat) (d : Bytes) (v' : Vol) (w : Cursor) : Prop :=
  first < v.count ∧ v.next first = 0 ∧ Appends (v.setEntry first endMark) ⟨[], first, 0⟩ d v' w

theorem next_setEntry_endMark (v : Vol) (c : Nat) : (v.setEntry c endMark).next c = endMark :=
  next_endMark (entry_setEntry_self v c endMark)

theorem atEnd_new (hv : v.Sane) {x : Nat} (hx : x < v.count) (hfree : v.next x = 0) :
    AtEnd (v.setEntry x endMark) x ⟨[], x, 0⟩ := by
  have hvalid := hv.valid_of_free hx hfree
  have hlt := hvalid.lt_endMark hv
  refine ⟨.link (by omega) hvalid (.done ?_), Nat.zero_le _⟩
  rw [next_setEntry_endMark]

theorem freeSet_setEntry {x : Nat} (v : Vol) : (v.setEntry x endMark).freeSet = v.freeSet.erase x := by
  ext y
  simp only [freeSet, Finset.mem_filter, Finset.mem_range, Finset.mem_erase, count_setEntry]
  by_cases hyx : y = x
  · rw [hyx, next_setEntry_endMark]
    simp [endMark]
  · rw [next, entry_setEntry_ne _ hyx, ← next]
    simp [hyx]

namespace NewChain

variable {first : Nat} {d e : Bytes} {w : Cursor}

theorem append {v'' : Vol} {w' : Cursor} (h : NewChain v first d v' w)
    (h' : Appends v' w e v'' w') : NewChain v first (d ++ e) v'' w' :=
  ⟨h.1, h.2.1, h.2.2.trans h'⟩

theorem geometry (h : NewChain v first d v' w) :
    v'.count = v.count ∧ v'.clusterSize = v.clusterSize ∧ v'.root = v.root :=
  h.2.2.geometry

theorem atEnd (h : NewChain v first d v' w) (hv : v.Sane) : v'.Sane ∧ AtEnd v' first w :=
  h.2.2.atEnd (hv.setEntry (hv.valid_of_free h.1 h.2.1)) (atEnd_new hv h.1 h.2.1)

/-- All clusters of the new chain were free. -/
theorem fresh (h : NewChain v first d v' w) (hv : v.Sane) {x : Nat} (hx : x ∈ w.chain) :
    x < v.count ∧ v.next x = 0 := by
  have hnew : ∀ y, y = first → y < v.count ∧ v.next y = 0 := fun y hy => hy ▸ ⟨h.1, h.2.1⟩
  rcases h.2.2.fresh (hv.setEntry (hv.valid_of_free h.1 h.2.1)) (atEnd_new hv h.1 h.2.1) hx with
    hmem | ⟨hlt, hfree⟩
  · exact hnew x (by simpa [Cursor.chain] using hmem)
  · by_cases hxf : x = first
    · exact hnew x hxf
    · rw [next, entry_setEntry_ne _ hxf] at hfree
      exact ⟨hlt, hfree⟩

/-- Nothing changes outside of the new chain. -/
theorem frame (h : NewChain v first d v' w) {x : Nat} (hx : x ∉ w.chain) :
    v'.entry x = v.entry x ∧ v'.data x = v.data x := by
  have hmem : first ∈ w.chain := h.2.2.chain_front.subset (by simp [Cursor.chain])
  have hxf : x ≠ first := fun heq => hx (heq ▸ hmem)
  obtain ⟨hentry, hdata⟩ := h.2.2.frame_outside hx
  exact ⟨hentry.trans (entry_setEntry_ne _ hxf), hdata⟩

theorem frame_used (h : NewChain v first d v' w) (hv : v.Sane) {x : Nat} (hx : v.next x ≠ 0) :
    v'.entry x = v.entry x ∧ v'.data x = v.data x :=
  h.frame fun hmem => hx (h.fresh hv hmem).2

theorem entry_cases (h : NewChain v first d v' w) (hv : v.Sane) (x : Nat) :
    v'.entry x = v.entry x ∨ v'.entry x < 2 ^ 28 := by
  rcases h.2.2.entry_cases (hv.setEntry (hv.valid_of_free h.1 h.2.1)) (atEnd_new hv h.1 h.2.1) x with
    heq | hlt
  · by_cases hxf : x = first
    · rw [heq, hxf, entry_setEntry_self]
      exact .inr (by decide)
    · exact .inl (heq.trans (entry_setEntry_ne _ hxf))
  · exact .inr hlt

theorem written_eq (h : NewChain v first d v' w) (hv : v.Sane) : written v' w = d := by
  rw [h.2.2.written_eq (hv.setEntry (hv.valid_of_free h.1 h.2.1)) (atEnd_new hv h.1 h.2.1)]
  simp [written]

theorem pos_eq (h : NewChain v first d v' w) : w.pos v.clusterSize = d.length := by
  have hpos := h.2.2.pos_eq
  rw [clusterSize_setEntry] at hpos
  rw [hpos]
  simp [Cursor.pos]

/-- The bytes of the new chain begin with the ones of the file. -/
theorem content_take (h : NewChain v first d v' w) (hv : v.Sane) :
    (v'.content w.chain).take d.length = d := by
  obtain ⟨hv', hw⟩ := h.atEnd hv
  have htake := content_take_pos hv' hw
  rw [h.geometry.2.1, h.pos_eq] at htake
  rw [htake, h.written_eq hv]

theorem length_le (h : NewChain v first d v' w) (hv : v.Sane) :
    d.length ≤ w.chain.length * v.clusterSize := by
  have hoff := (h.atEnd hv).2.offset_le
  rw [h.geometry.2.1] at hoff
  rw [← h.pos_eq, Cursor.pos, Cursor.chain, List.length_append, List.length_singleton, Nat.succ_mul]
  omega

theorem card_freeSet (h : NewChain v first d v' w) (hv : v.Sane) :
    v'.freeSet.card + w.chain.length = v.freeSet.card := by
  have hcard := h.2.2.card_freeSet (hv.setEntry (hv.valid_of_free h.1 h.2.1)) (atEnd_new hv h.1 h.2.1)
  have hmem : first ∈ v.freeSet := by simp [freeSet, h.1, h.2.1]
  have herase := Finset.card_erase_add_one hmem
  rw [freeSet_setEntry] at hcard
  simp only [Cursor.chain, List.length_append, List.length_singleton, List.length_nil] at hcard ⊢
  omega

end NewChain

/-! ## Section 8: The number of clusters -/

/-- Number of clusters for so many bytes; a file has one at least. -/
def clustersFor (clusterSize n : Nat) : Nat := max 1 ((n + clusterSize - 1) / clusterSize)

/-- The length of a chain whose last byte is in its last cluster. -/
theorem clustersFor_eq {cs k o : Nat} (hcs : 0 < cs) (ho : o ≤ cs) (hko : k = 0 ∨ 0 < o) :
    clustersFor cs (k * cs + o) = k + 1 := by
  rcases Nat.eq_zero_or_pos o with rfl | hpos
  · obtain rfl := hko.resolve_right (by omega)
    rw [clustersFor, Nat.div_eq_of_lt (by omega)]
    rfl
  · have hdiv : (k * cs + o + cs - 1) / cs = k + 1 := by
      apply Nat.div_eq_of_lt_le
      · rw [Nat.succ_mul]
        omega
      · rw [Nat.succ_mul, Nat.succ_mul]
        omega
    rw [clustersFor, hdiv]
    omega

/-- The last byte of a new file is in the last cluster of its chain. -/
theorem NewChain.pre_or_offset {first : Nat} {d : Bytes} {w : Cursor}
    (h : NewChain v first d v' w) : w.pre = [] ∨ 0 < w.offset := by
  by_cases hd : d = []
  · obtain ⟨-, rfl⟩ := h.2.2.eq_of_nil hd
    exact .inl rfl
  · exact .inr (h.2.2.offset_pos hd)

theorem NewChain.length_chain {first : Nat} {d : Bytes} {w : Cursor} (h : NewChain v first d v' w)
    (hv : v.Sane) : w.chain.length = clustersFor v.clusterSize d.length := by
  have hoff := (h.atEnd hv).2.offset_le
  rw [h.geometry.2.1] at hoff
  rw [← h.pos_eq, Cursor.pos, clustersFor_eq hv.clusterSize_pos hoff]
  · simp [Cursor.chain]
  · exact h.pre_or_offset.imp_left fun hpre => by rw [hpre, List.length_nil]

end Vol

end Hausboot

import Hausboot.Fat.Tree

/-! # Clusters in Use

    The directories and files of a volume are made of clusters whose entries
    are not zero. As long as these keep their bytes, the tree stays the same,
    whatever is written to the free clusters. -/

open ByteLib

namespace Hausboot

namespace Vol

/-- `v'` has the bytes of the clusters that `v` uses, and none of them is free
    in `v'`. -/
structure Keeps (v v' : Vol) : Prop where
  used : ∀ ⦃x⦄, v.next x ≠ 0 → v'.next x ≠ 0
  data : ∀ ⦃x⦄, v.next x ≠ 0 → v'.data x = v.data x

variable {v v' : Vol}

namespace Keeps

theorem refl (v : Vol) : Keeps v v := ⟨fun _ h => h, fun _ _ => rfl⟩

theorem free (h : Keeps v v') {x : Nat} (hx : v'.next x = 0) : v.next x = 0 := by
  by_contra hused
  exact h.used hused hx

theorem setData (h : Keeps v v') {c : Nat} (hc : v.next c = 0) (d : Bytes) :
    Keeps v (v'.setData c d) where
  used := h.used
  data x hx := by
    have hne : x ≠ c := fun heq => hx (heq ▸ hc)
    rw [data_setData_ne _ _ hne]
    exact h.data hx

theorem setEntry (h : Keeps v v') (c : Nat) {x : Nat} (hx : x % 2 ^ 28 ≠ 0) :
    Keeps v (v'.setEntry c x) where
  used y hy := by
    by_cases heq : y = c
    · rw [heq, next, entry_setEntry_self]
      exact hx
    · rw [next, entry_setEntry_ne _ heq]
      exact h.used hy
  data := h.data

theorem link (h : Keeps v v') (c : Nat) {x : Nat} (hx : x % 2 ^ 28 ≠ 0) :
    Keeps v (v'.link c x) :=
  (h.setEntry x (by decide)).setEntry c hx

end Keeps

/-! ## The tree -/

/-- The volume with other bytes in its clusters. -/
def withData (v : Vol) (d : Nat → Bytes) : Vol := { v with data := d }

section WithData

variable {d : Nat → Bytes} (hd : ∀ x, v.next x ≠ 0 → d x = v.data x)
include hd

theorem content_withData {c : Nat} {l : List Nat} (hch : v.Chain c l) :
    (v.withData d).content l = v.content l :=
  content_congr fun x hx => hd x (hch.used hx)

theorem IsDir.withData {c : Nat} {p : Option Nat} (h : v.IsDir c p) : (v.withData d).IsDir c p := by
  induction h with
  | root => exact .root
  | sub _ hch hr hdir hdot ih =>
    rw [← content_withData hd hch] at hr
    exact .sub ih hch hr hdir hdot

theorem IsDir.of_withData {c : Nat} {p : Option Nat} (h : (v.withData d).IsDir c p) :
    v.IsDir c p := by
  have hback := IsDir.withData (v := v.withData d) (d := v.data) (fun x hx => (hd x hx).symm) h
  exact hback

theorem Owns.of_withData {k : Option (Nat × Nat)} {l : List Nat} (h : (v.withData d).Owns k l) :
    v.Owns k l := by
  cases h with
  | root hch => exact .root hch
  | entry hdir hch hr hdot hent =>
    rw [content_withData hd hch] at hr
    exact .entry (hdir.of_withData hd) hch hr hdot hent

/-- **Free clusters do not matter** for the volume to be well formed. -/
theorem WellFormed.withData (h : v.WellFormed)
    (hlen : ∀ c, 2 ≤ c → (d c).length = v.clusterSize) : (v.withData d).WellFormed where
  clusterSize_pos := h.clusterSize_pos
  count_lt := h.count_lt
  length_data := hlen
  reserved0 := h.reserved0
  reserved1 := h.reserved1
  root := h.root
  entries hdir hch hr hdot := by
    rw [content_withData hd hch] at hr
    exact h.entries (hdir.of_withData hd) hch hr hdot
  disjoint hown hown' hne := h.disjoint (hown.of_withData hd) (hown'.of_withData hd) hne
  groups hdir hch := by
    rw [content_withData hd hch]
    exact h.groups (hdir.of_withData hd) hch
  rootDots hch hr := by
    rw [content_withData hd hch] at hr
    exact h.rootDots hch hr
  dots hdir hch hr hdot := by
    rw [content_withData hd hch] at hr
    exact h.dots (hdir.of_withData hd) hch hr hdot

end WithData

end Vol

end Hausboot

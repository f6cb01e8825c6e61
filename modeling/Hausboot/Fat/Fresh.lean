import Hausboot.Fat.Tree

/-! # Freshly Formatted Volumes

    A root directory of one zero-filled cluster, and nothing else. -/

open ByteLib

namespace Hausboot

namespace Vol

/-- A freshly formatted volume: no cluster is in use but the one of the root
    directory, which is empty. -/
structure Fresh (v : Vol) : Prop extends v.Sane where
  root_valid : v.Valid v.root
  root_last : endMark ≤ v.next v.root
  root_empty : v.data v.root = List.replicate v.clusterSize 0
  free : ∀ c, v.Valid c → c ≠ v.root → v.next c = 0

namespace Fresh

variable {v : Vol}

theorem root_chain (h : v.Fresh) : v.Chain v.root [v.root] := by
  have hlt := h.root_valid.lt_endMark h.toSane
  exact .link (by omega) h.root_valid (.done h.root_last)

theorem chain_eq (h : v.Fresh) {l : List Nat} (hch : v.Chain v.root l) : l = [v.root] :=
  ChainLib.Chain.unique hch h.root_chain

theorem ends_replicate (n : Nat) : Ends (List.replicate n (0 : UInt8)) := by
  right
  rw [List.getD_eq_getElem?_getD, List.getElem?_replicate]
  split
  · rfl
  · rfl

theorem root_body (h : v.Fresh) : body (v.content [v.root]) = [] := by
  rw [content_cons, content_nil, List.append_nil, h.root_empty]
  exact body_of_ends (ends_replicate _)

theorem root_live (h : v.Fresh) {l : List Nat} (hch : v.Chain v.root l) :
    live (v.content l) = [] := by
  rw [h.chain_eq hch, live, h.root_body]
  rfl

/-- The root is the only directory. -/
theorem isDir_eq (h : v.Fresh) {c : Nat} {p : Option Nat} (hdir : v.IsDir c p) :
    c = v.root ∧ p = none := by
  induction hdir with
  | root => exact ⟨rfl, rfl⟩
  | sub _ hch hr _ _ ih =>
    obtain ⟨rfl, -⟩ := ih
    rw [h.root_live hch] at hr
    cases hr

/-- No directory has a live record. -/
theorem not_mem_live (h : v.Fresh) {c : Nat} {p : Option Nat} {l : List Nat} {r : FatDirent}
    (hdir : v.IsDir c p) (hch : v.Chain c l) : r ∉ live (v.content l) := by
  obtain ⟨rfl, -⟩ := h.isDir_eq hdir
  rw [h.root_live hch]
  exact List.not_mem_nil

theorem owns_eq (h : v.Fresh) {k : Option (Nat × Nat)} {l : List Nat} (hown : v.Owns k l) :
    k = none ∧ l = [v.root] := by
  cases hown with
  | root hch => exact ⟨rfl, h.chain_eq hch⟩
  | entry hdir hch hr _ _ => exact absurd (List.mem_of_getElem? hr) (h.not_mem_live hdir hch)

theorem wellFormed (h : v.Fresh) : v.WellFormed where
  toSane := h.toSane
  root := ⟨_, h.root_chain, by simp⟩
  entries := by
    intro c p l r hdir hch hr _
    exact absurd hr (h.not_mem_live hdir hch)
  disjoint := by
    intro k k' l l' hown hown' hk
    rw [(h.owns_eq hown).1, (h.owns_eq hown').1] at hk
    exact absurd rfl hk
  groups := by
    intro c p l hdir hch
    obtain ⟨rfl, -⟩ := h.isDir_eq hdir
    rw [h.chain_eq hch, h.root_body]
    exact ⟨[], .nil⟩
  rootDots := by
    intro l r hch hr
    exact absurd hr (h.not_mem_live .root hch)
  dots := by
    intro c p l r hdir hch hr _
    exact absurd hr (h.not_mem_live hdir hch)

theorem tidy (h : v.Fresh) (hnibble : ∀ n, v.entry n < 2 ^ 28) : v.Tidy where
  toWellFormed := h.wellFormed
  nibble := hnibble
  owned := by
    intro x hx hused
    have hroot : x = v.root := by
      by_contra hne
      exact hused (h.free x hx hne)
    exact ⟨none, [v.root], .root h.root_chain, by rw [hroot]; simp⟩
  hasDots := by
    intro c p l hdir _
    have hnone := (h.isDir_eq hdir).2
    cases hnone

end Fresh

end Vol

end Hausboot

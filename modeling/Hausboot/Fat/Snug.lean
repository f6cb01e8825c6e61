import Hausboot.Fat.Fresh
import Hausboot.Fat.Grow

/-! # Directories Without Spare Clusters

    A volume that only `mkdir` and `pack` have worked on is snug: the cluster
    chain of a directory is as long as its records and the terminator behind
    them need, and no longer. -/

open ByteLib

namespace Hausboot

namespace Vol

/-- Every directory has the clusters for its records and a terminator. -/
def Snug (v : Vol) : Prop :=
  ∀ ⦃c p l⦄, v.IsDir c p → v.Chain c l → l.length =
    clustersFor v.clusterSize (FatDirent.sizeof * (body (v.content l)).length + FatDirent.sizeof)

variable {v v₁ v₂ : Vol} {P first : Nat} {lP : List Nat} {w w' w₁ w₂ : Cursor} {r : FatDirent}
  {d : Bytes}

theorem clustersFor_of_le {cs n : Nat} (hcs : 0 < cs) (hn : n ≤ cs) : clustersFor cs n = 1 := by
  have h := clustersFor_eq (k := 0) hcs hn (.inl rfl)
  rwa [Nat.zero_mul, Nat.zero_add] at h

/-- The terminator of an empty directory fits into one cluster. -/
theorem Fresh.snug (h : v.Fresh) (hcs : FatDirent.sizeof ≤ v.clusterSize) : v.Snug := by
  intro c p l hdir hch
  obtain ⟨rfl, -⟩ := h.isDir_eq hdir
  rw [h.chain_eq hch, h.root_body, List.length_nil, Nat.mul_zero, Nat.zero_add,
    clustersFor_of_le h.clusterSize_pos hcs]
  rfl

/-- The length of a chain behind appended bytes. -/
theorem Appends.length_chain (h : Appends v w d v₂ w') (hv : v.Sane) (hw : AtEnd v first w)
    (hd : d ≠ []) :
    w'.chain.length = clustersFor v.clusterSize (w.pos v.clusterSize + d.length) := by
  have hoff := (h.atEnd hv hw).2.offset_le
  rw [h.geometry.2.1] at hoff
  rw [← h.pos_eq, Cursor.pos, clustersFor_eq hv.clusterSize_pos hoff (.inr (h.offset_pos hd)),
    Cursor.chain, List.length_append]
  rfl

namespace Adds

theorem length_new (h : Adds v v₁ v₂ P first lP w w₁ w₂ r d) (hv : v.Sane) :
    w₁.chain.length = clustersFor v.clusterSize d.length :=
  h.new.length_chain hv

theorem length_dir (h : Adds v v₁ v₂ P first lP w w₁ w₂ r d) (hv : v.Sane)
    (hlen : r.raw.length = FatDirent.sizeof) :
    w₂.chain.length = clustersFor v.clusterSize
      (FatDirent.sizeof * (body (v.content lP)).length + 2 * FatDirent.sizeof) := by
  have hlength := length_terminated hlen
  have hne : terminated r ≠ [] := by
    intro hnil
    rw [hnil] at hlength
    cases hlength
  have hchain := h.appends.length_chain (h.sane₁ hv) h.atEnd hne
  rwa [h.new.geometry.2.1, h.pos, hlength] at hchain

/-- Adding a record keeps a volume snug. -/
theorem snug (h : Adds v v₁ v₂ P first lP w w₁ w₂ r d) (hwf : v.WellFormed)
    (hdir : ∃ p, v.IsDir P p) (hr : Fits P first r d)
    (hnew : r.isDirectory = true → d.length = 3 * FatDirent.sizeof) (hsnug : v.Snug) :
    v₂.Snug := by
  have hv := hwf.toSane
  have hg := h.grew hv hdir hr
  have hcs := h.clusterSize
  intro c p l' hd' hch'
  rcases hg.isDir_cases hwf.toSound hd' with hold | ⟨rfl, -, hisDir⟩
  · obtain ⟨l, hch, ⟨rfl, rfl, rfl⟩ | ⟨-, rfl, hcont⟩⟩ := hg.live_cases hwf.toSound hold hch'
    · -- the directory with the new record
      rw [h.length_dir hv hr.length, hg.body, List.length_append, List.length_singleton, hcs,
        Nat.mul_succ, Nat.two_mul, Nat.add_assoc]
    · rw [hcont, hcs]
      exact hsnug hold hch
  · -- the new directory has its two dot records
    obtain ⟨hlr, -⟩ := hg.entry.dir hisDir
    obtain rfl := ChainLib.Chain.unique hch' hlr
    obtain ⟨e, e', hbody, -, -⟩ := hg.newDir hisDir
    rw [h.length_new hv, hnew hisDir, hbody, hcs]
    rfl

end Adds

end Vol

end Hausboot

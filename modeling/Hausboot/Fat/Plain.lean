import Hausboot.Fat.Fresh

/-! # Volumes with Plain Directories

    On a volume that only `mkdir` and `pack` have worked on, every record in
    front of a terminator stands for a file or a directory, and the links that
    lead to a cluster leave the upper four bits of their entry zero. -/

open ByteLib

namespace Hausboot

namespace Vol

structure Plain (v : Vol) : Prop where
  allLive : ∀ ⦃c p l⦄, v.IsDir c p → v.Chain c l → ∀ r ∈ body (v.content l), r.isLive = true
  links : ∀ ⦃x⦄, v.Valid x → v.next x ≠ 0 → v.entry x = v.next x ∨ endMark ≤ v.next x

variable {v v' : Vol}

theorem Fresh.plain (h : v.Fresh) : v.Plain where
  allLive := by
    intro c p l hdir hch r hr
    obtain ⟨rfl, -⟩ := h.isDir_eq hdir
    rw [h.chain_eq hch, h.root_body] at hr
    cases hr
  links := by
    intro x hx hused
    by_cases hroot : x = v.root
    · rw [hroot]
      exact .inr h.root_last
    · exact absurd (h.free x hx hroot) hused

/-- A volume that grows by a record stays plain. -/
theorem Grew.plain {P : Nat} {lP lP' lr : List Nat} {r : FatDirent}
    (hg : Grew v v' P lP lP' r lr) (hs : v.Sound)
    (hentry : ∀ x, v'.entry x = v.entry x ∨ v'.entry x < 2 ^ 28) (hp : v.Plain) : v'.Plain where
  allLive := by
    intro c p l' hdir hch' e he
    rcases hg.isDir_cases hs hdir with hold | ⟨rfl, -, hr⟩
    · obtain ⟨l, hch, ⟨rfl, rfl, rfl⟩ | ⟨-, rfl, hcont⟩⟩ := hg.live_cases hs hold hch'
      · rw [hg.body] at he
        rcases List.mem_append.mp he with he | he
        · exact hp.allLive hold hch e he
        · rw [List.mem_singleton.mp he]
          exact hg.isLive
      · rw [hcont] at he
        exact hp.allLive hold hch e he
    · obtain ⟨hlr, -⟩ := hg.entry.dir hr
      obtain rfl := ChainLib.Chain.unique hch' hlr
      obtain ⟨d, dd, hbody, hd, hdd⟩ := hg.newDir hr
      rw [hbody] at he
      rcases List.mem_cons.mp he with rfl | he
      · exact hd.isLive
      · rw [List.mem_singleton.mp he]
        exact hdd.isLive
  links := by
    intro x hx hused
    rcases hentry x with heq | hlt
    · have hvalid : v.Valid x := by rwa [Valid, ← hg.count]
      have hnext : v'.next x = v.next x := by rw [next, heq, next]
      rw [hnext] at hused ⊢
      rw [heq]
      exact hp.links hvalid hused
    · left
      rw [next, Nat.mod_eq_of_lt hlt]

end Vol

end Hausboot

import Hausboot.Fat.Tree

/-! # How a Directory Grows

    A new chain is written first, then a record of it and a terminator are
    appended behind the body of a directory. Together this is `Vol.Grew`. -/

open ByteLib

namespace Hausboot

namespace Vol

variable {v v₁ v₂ : Vol} {P first : Nat} {p : Option Nat} {lP : List Nat} {w w₁ w₂ : Cursor}
  {r : FatDirent} {d : Bytes}

/-- The directory `P` with the chain `lP`, and the steps that add the record `r`
    of a new chain to it. -/
structure Adds (v v₁ v₂ : Vol) (P first : Nat) (lP : List Nat) (w w₁ w₂ : Cursor) (r : FatDirent)
    (d : Bytes) : Prop where
  chain : v.Chain P lP
  new : NewChain v first d v₁ w₁
  atEnd : AtEnd v₁ P w
  cursor : w.chain = lP
  pos : w.pos v.clusterSize = FatDirent.sizeof * (body (v.content lP)).length
  appends : Appends v₁ w (terminated r) v₂ w₂

/-- A record that can be added for the new chain. -/
structure Fits (P first : Nat) (r : FatDirent) (d : Bytes) : Prop where
  length : r.raw.length = FatDirent.sizeof
  notLast : r.isLastInList = false
  isLive : r.isLive = true
  notDot : r.isDot = false
  clusterIndex : r.clusterIndex = first
  size : r.size ≤ d.length
  newDir : r.isDirectory = true → ∃ e e' : FatDirent, d = e.raw ++ terminated e' ∧
    DotRecord [0x2E] first e ∧ DotRecord [0x2E, 0x2E] P e' ∧
    (∀ x ∈ [e, e'], x.raw.length = FatDirent.sizeof ∧ x.isLastInList = false)

namespace Adds

theorem sane₁ (h : Adds v v₁ v₂ P first lP w w₁ w₂ r d) (hv : v.Sane) : v₁.Sane :=
  (h.new.atEnd hv).1

theorem sane (h : Adds v v₁ v₂ P first lP w w₁ w₂ r d) (hv : v.Sane) : v₂.Sane :=
  (h.appends.atEnd (h.sane₁ hv) h.atEnd).1

theorem clusterSize (h : Adds v v₁ v₂ P first lP w w₁ w₂ r d) : v₂.clusterSize = v.clusterSize :=
  h.appends.geometry.2.1.trans h.new.geometry.2.1

theorem last_used (h : Adds v v₁ v₂ P first lP w w₁ w₂ r d) : v.next w.last ≠ 0 :=
  h.chain.used (h.cursor ▸ by simp [Cursor.chain])

/-- The new chain is not touched while the record is added. -/
theorem new_frame (h : Adds v v₁ v₂ P first lP w w₁ w₂ r d) (hv : v.Sane) {x : Nat}
    (hx : x ∈ w₁.chain) : v₂.entry x = v₁.entry x ∧ v₂.data x = v₁.data x := by
  have hfree := (h.new.fresh hv hx).2
  have hused := (h.new.atEnd hv).2.chain.used hx
  exact h.appends.frame (fun heq => h.last_used (heq ▸ hfree)) hused

theorem new_chain (h : Adds v v₁ v₂ P first lP w w₁ w₂ r d) (hv : v.Sane) :
    v₂.Chain first w₁.chain :=
  (h.new.atEnd hv).2.chain.frame h.appends.geometry.1 fun _ hx => (h.new_frame hv hx).1

theorem new_content (h : Adds v v₁ v₂ P first lP w w₁ w₂ r d) (hv : v.Sane) :
    v₂.content w₁.chain = v₁.content w₁.chain :=
  content_congr fun _ hx => (h.new_frame hv hx).2

/-- The bytes of the file can be read back. -/
theorem new_take (h : Adds v v₁ v₂ P first lP w w₁ w₂ r d) (hv : v.Sane) :
    (v₂.content w₁.chain).take d.length = d := by
  rw [h.new_content hv, h.new.content_take hv]

/-- The body of the directory is longer by the record. -/
theorem body_eq (h : Adds v v₁ v₂ P first lP w w₁ w₂ r d) (hv : v.Sane)
    (hlen : r.raw.length = FatDirent.sizeof) (hlast : r.isLastInList = false) :
    body (v₂.content w₂.chain) = body (v.content lP) ++ [r] := by
  have hv₁ := h.sane₁ hv
  have hcont : v₁.content lP = v.content lP :=
    content_congr fun x hx => (h.new.frame_used hv (h.chain.used hx)).2
  -- what is in front of the record is the old body
  have hfront : written v₁ w = rawBytes (body (v.content lP)) := by
    rw [← content_take_pos hv₁ h.atEnd, h.cursor, hcont, h.new.geometry.2.1, h.pos, take_length_body]
  have hwritten := h.appends.written_eq hv₁ h.atEnd
  obtain ⟨rest, hrest⟩ := written_front v₂ w₂
  have hbytes : v₂.content w₂.chain =
      rawBytes (body (v.content lP) ++ [r]) ++ (FatDirent.zero.raw ++ rest) := by
    rw [← hrest, hwritten, hfront, rawBytes_append, terminated]
    simp [rawBytes]
  rw [hbytes]
  apply body_rawBytes
  · intro x hx
    rcases List.mem_append.mp hx with hx | hx
    · exact length_of_mem_body hx
    · rw [List.mem_singleton.mp hx]
      exact hlen
  · intro x hx
    rcases List.mem_append.mp hx with hx | hx
    · exact not_last_of_mem_body hx
    · rw [List.mem_singleton.mp hx]
      exact hlast
  · exact ends_zero rest

/-- Clusters that are not in use, in use, or touched. -/
theorem next_cases (h : Adds v v₁ v₂ P first lP w w₁ w₂ r d) {x : Nat} (hx : v₂.next x ≠ 0) :
    v.next x ≠ 0 ∨ x ∈ w₂.chain ∨ x ∈ w₁.chain := by
  by_cases h₂ : x ∈ w₂.chain
  · exact .inr (.inl h₂)
  by_cases h₁ : x ∈ w₁.chain
  · exact .inr (.inr h₁)
  rw [next, (h.appends.frame_outside h₂).1, (h.new.frame h₁).1] at hx
  exact .inl hx

theorem free_of_free (h : Adds v v₁ v₂ P first lP w w₁ w₂ r d) (hv : v.Sane) {x : Nat}
    (hx : v₁.next x = 0) : v.next x = 0 := by
  have hmem : x ∉ w₁.chain := fun hmem => (h.new.atEnd hv).2.chain.used hmem hx
  rwa [next, (h.new.frame hmem).1] at hx

/-- **Growing**: the steps amount to one record more in the directory. -/
theorem grew (h : Adds v v₁ v₂ P first lP w w₁ w₂ r d) (hv : v.Sane) (hdir : ∃ p, v.IsDir P p)
    (hr : Fits P first r d) : Grew v v₂ P lP w₂.chain r w₁.chain := by
  have hv₁ := h.sane₁ hv
  -- the clusters that are new in the directory were free
  have hfresh : ∀ x ∈ w₂.chain, x ∈ lP ∨ v.next x = 0 := by
    intro x hx
    rcases h.appends.fresh hv₁ h.atEnd hx with hold | ⟨-, hfree⟩
    · exact .inl (h.cursor ▸ hold)
    · exact .inr (h.free_of_free hv hfree)
  refine {
    count := h.appends.geometry.1.trans h.new.geometry.1
    root := h.appends.geometry.2.2.trans h.new.geometry.2.2
    clusterSize := h.clusterSize
    dir := hdir
    chain := h.chain
    chain' := (h.appends.atEnd hv₁ h.atEnd).2.chain
    chain_front := h.cursor ▸ h.appends.chain_front
    fresh := hfresh
    body := h.body_eq hv hr.length hr.notLast
    isLive := hr.isLive
    notDot := hr.notDot
    entry := ?entry
    freshEntry := fun x hx => (h.new.fresh hv hx).2
    apart := ?apart
    frame := ?frame
    used := fun x hx => h.next_cases hx
    newDir := ?newDir }
  case entry =>
    have hlen := h.new.length_le hv
    refine .inl ⟨hr.clusterIndex ▸ h.new_chain hv, by simp [Cursor.chain], ?_⟩
    rw [h.clusterSize]
    exact hr.size.trans hlen
  case apart =>
    intro x hx₂ hx₁
    rcases h.appends.fresh hv₁ h.atEnd hx₂ with hold | ⟨-, hfree⟩
    · exact h.chain.used (h.cursor ▸ hold) (h.new.fresh hv hx₁).2
    · exact (h.new.atEnd hv).2.chain.used hx₁ hfree
  case frame =>
    intro x hx hused
    obtain ⟨hentry, hdata⟩ := h.new.frame_used hv hused
    have hlast : x ≠ w.last := fun heq => hx (h.cursor ▸ by simp [Cursor.chain, heq])
    obtain ⟨hentry', hdata'⟩ := h.appends.frame hlast (by rwa [next, hentry])
    exact ⟨hentry'.trans hentry, hdata'.trans hdata⟩
  case newDir =>
    intro hisDir
    obtain ⟨e, e', hd, he, he', hall⟩ := hr.newDir hisDir
    refine ⟨e, e', ?_, hr.clusterIndex ▸ he, he'⟩
    -- the two dot records are the front of the new chain
    obtain ⟨rest, hrest⟩ : d <+: v₂.content w₁.chain := by
      rw [← h.new_take hv]
      exact List.take_prefix _ _
    have hbytes : v₂.content w₁.chain = rawBytes [e, e'] ++ (FatDirent.zero.raw ++ rest) := by
      rw [← hrest, hd, terminated]
      simp [rawBytes]
    rw [hbytes]
    exact body_rawBytes (fun x hx => (hall x hx).1) (fun x hx => (hall x hx).2) (ends_zero rest)

/-- Every changed entry has its top nibble cleared. -/
theorem entry_cases (h : Adds v v₁ v₂ P first lP w w₁ w₂ r d) (hv : v.Sane) (x : Nat) :
    v₂.entry x = v.entry x ∨ v₂.entry x < 2 ^ 28 := by
  rcases h.appends.entry_cases (h.sane₁ hv) h.atEnd x with heq | hlt
  · rcases h.new.entry_cases hv x with heq' | hlt'
    · exact .inl (heq.trans heq')
    · exact .inr (heq ▸ hlt')
  · exact .inr hlt

end Adds

end Vol

end Hausboot

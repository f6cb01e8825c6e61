import Mathlib.Data.List.Basic
import Hausboot.Fat.Records
import Hausboot.Fat.Volume

/-! # The Directory Tree of a FAT Volume

    Directories are stored in cluster chains and refer to further chains. A
    volume is sound if every directory and file that can be reached from the
    root has a terminated chain and no cluster belongs to two of them. `Grew`
    describes what a successful `mkdir` or `pack` does to a volume: a chain of
    free clusters for the new file, and one record more in its directory. -/

open ByteLib

namespace Hausboot

namespace Vol

/-! ## Section 1: Soundness -/

section Defs

variable (v : Vol)

/-- The directories that can be reached from the root, by their first cluster,
    with the first cluster of their parent. -/
inductive IsDir : Nat → Option Nat → Prop where
  | root : IsDir v.root none
  | sub {c : Nat} {p : Option Nat} {l : List Nat} {r : FatDirent} :
      IsDir c p → v.Chain c l → r ∈ live (v.content l) → r.isDirectory = true →
      r.isDot = false → IsDir r.clusterIndex (some c)

/-- The cluster chain of a record: terminated, and long enough for the recorded
    size. A file of size 0 without a first cluster has the empty chain. -/
def EntryChain (r : FatDirent) (l : List Nat) : Prop :=
  (v.Chain r.clusterIndex l ∧ l ≠ [] ∧ r.size ≤ l.length * v.clusterSize) ∨
  (r.isDirectory = false ∧ r.size = 0 ∧ r.clusterIndex = 0 ∧ l = [])

/-- Who has a cluster chain: the root directory (`none`), or the live record
    with a given number in a directory. -/
inductive Owns : Option (Nat × Nat) → List Nat → Prop where
  | root {l : List Nat} : v.Chain v.root l → Owns none l
  | entry {c i : Nat} {p : Option Nat} {l lr : List Nat} {r : FatDirent} :
      v.IsDir c p → v.Chain c l → (live (v.content l))[i]? = some r → r.isDot = false →
      v.EntryChain r lr → Owns (some (c, i)) lr

/-- All chains are there, and no cluster belongs to two chains. -/
structure Sound : Prop where
  root : ∃ l, v.Chain v.root l ∧ l ≠ []
  entries : ∀ {c p l r}, v.IsDir c p → v.Chain c l → r ∈ live (v.content l) → r.isDot = false →
    ∃ lr, v.EntryChain r lr
  disjoint : ∀ {k k' l l'}, v.Owns k l → v.Owns k' l' → k ≠ k' → l.Disjoint l'

/-- A record `.` or `..` is a directory that leads to its own directory `c` or
    to the parent of it. -/
def DotOk (c p : Nat) (r : FatDirent) : Prop :=
  r.isDirectory = true ∧ (r.shortName = some [0x2E] → r.clusterIndex = c) ∧
    (r.shortName = some [0x2E, 0x2E] → r.clusterIndex = p)

/-- A well-formed volume. -/
structure WellFormed : Prop extends v.Sane, v.Sound where
  groups : ∀ {c p l}, v.IsDir c p → v.Chain c l → ∃ gs, Groups (body (v.content l)) gs
  rootDots : ∀ {l r}, v.Chain v.root l → r ∈ live (v.content l) → r.isDot = false
  dots : ∀ {c p l r}, v.IsDir c (some p) → v.Chain c l → r ∈ live (v.content l) →
    r.isDot = true → DotOk c p r

/-- A well-formed volume without lost clusters, in which every directory but
    the root has its two dot records. -/
structure Tidy : Prop extends v.WellFormed where
  nibble : ∀ n, v.entry n < 2 ^ 28
  owned : ∀ {x}, v.Valid x → v.next x ≠ 0 → ∃ k l, v.Owns k l ∧ x ∈ l
  hasDots : ∀ {c p l}, v.IsDir c (some p) → v.Chain c l →
    (∃ r ∈ live (v.content l), r.shortName = some [0x2E]) ∧
    ∃ r ∈ live (v.content l), r.shortName = some [0x2E, 0x2E]

end Defs

variable {v v' : Vol}

theorem Chain.head_mem {c : Nat} {l : List Nat} (h : v.Chain c l) (hl : l ≠ []) : c ∈ l := by
  cases h with
  | done _ => exact absurd rfl hl
  | link _ _ _ => exact List.mem_cons_self

/-- Two chains with the same clusters begin at the same one. -/
theorem Chain.start_eq {c c' : Nat} {l : List Nat} (h : v.Chain c l) (h' : v.Chain c' l)
    (hl : l ≠ []) : c = c' := by
  cases h with
  | done _ => exact absurd rfl hl
  | link _ _ _ =>
    cases h' with
    | link _ _ _ => rfl

theorem EntryChain.unique {r : FatDirent} {l l' : List Nat} (h : v.EntryChain r l)
    (h' : v.EntryChain r l') : l = l' := by
  rcases h with ⟨hch, hne, -⟩ | ⟨-, -, h0, rfl⟩
  · rcases h' with ⟨hch', -, -⟩ | ⟨-, -, h0, rfl⟩
    · exact ChainLib.Chain.unique hch hch'
    · -- cluster 0 is not a data cluster
      have hvalid := hch.valid (hch.head_mem hne)
      exact absurd hvalid.1 (by omega)
  · rcases h' with ⟨hch, hne, -⟩ | ⟨-, -, -, rfl⟩
    · have hvalid := hch.valid (hch.head_mem hne)
      exact absurd hvalid.1 (by omega)
    · rfl

theorem EntryChain.dir {r : FatDirent} {l : List Nat} (h : v.EntryChain r l)
    (hdir : r.isDirectory = true) : v.Chain r.clusterIndex l ∧ l ≠ [] := by
  rcases h with ⟨hch, hne, -⟩ | ⟨hfile, -⟩
  · exact ⟨hch, hne⟩
  · rw [hdir] at hfile
    cases hfile

theorem EntryChain.used {r : FatDirent} {l : List Nat} (h : v.EntryChain r l) {x : Nat}
    (hx : x ∈ l) : v.next x ≠ 0 := by
  rcases h with ⟨hch, -⟩ | ⟨-, -, -, rfl⟩
  · exact hch.used hx
  · cases hx

theorem Owns.unique {k : Option (Nat × Nat)} {l l' : List Nat} (h : v.Owns k l)
    (h' : v.Owns k l') : l = l' := by
  cases h with
  | root hch =>
    cases h' with
    | root hch' => exact ChainLib.Chain.unique hch hch'
  | entry _ hch hr _ hent =>
    cases h' with
    | entry _ hch' hr' _ hent' =>
      obtain rfl := ChainLib.Chain.unique hch hch'
      rw [hr] at hr'
      cases hr'
      exact hent.unique hent'

theorem Owns.used {k : Option (Nat × Nat)} {l : List Nat} (h : v.Owns k l) {x : Nat}
    (hx : x ∈ l) : v.next x ≠ 0 := by
  cases h with
  | root hch => exact hch.used hx
  | entry _ _ _ _ hent => exact hent.used hx

/-- A live record other than the dots owns its chain. -/
theorem Owns.of_mem {c : Nat} {p : Option Nat} {l lr : List Nat} {r : FatDirent}
    (hdir : v.IsDir c p) (hch : v.Chain c l) (hr : r ∈ live (v.content l))
    (hdot : r.isDot = false) (hent : v.EntryChain r lr) : ∃ i, v.Owns (some (c, i)) lr := by
  obtain ⟨i, hi⟩ := List.getElem?_of_mem hr
  exact ⟨i, .entry hdir hch hi hdot hent⟩

/-- Every directory has an owner. -/
theorem IsDir.owner (hs : v.Sound) {c : Nat} {p : Option Nat} (h : v.IsDir c p) :
    ∃ k l, v.Owns k l ∧ v.Chain c l ∧ l ≠ [] := by
  cases h with
  | root =>
    obtain ⟨l, hch, hne⟩ := hs.root
    exact ⟨none, l, .root hch, hch, hne⟩
  | sub hdir hch hr hisDir hdot =>
    obtain ⟨lr, hent⟩ := hs.entries hdir hch hr hdot
    obtain ⟨i, hown⟩ := Owns.of_mem hdir hch hr hdot hent
    obtain ⟨hchr, hne⟩ := hent.dir hisDir
    exact ⟨_, lr, hown, hchr, hne⟩

theorem IsDir.valid (hs : v.Sound) {c : Nat} {p : Option Nat} (h : v.IsDir c p) : v.Valid c := by
  obtain ⟨-, l, -, hch, hne⟩ := h.owner hs
  exact hch.valid (hch.head_mem hne)

/-- A chain with an owner is the chain of a directory or has no cluster of it. -/
theorem Owns.eq_or_disjoint (hs : v.Sound) {k : Option (Nat × Nat)} {l lc : List Nat} {c : Nat}
    {p : Option Nat} (h : v.Owns k l) (hdir : v.IsDir c p) (hch : v.Chain c lc) :
    (v.Owns k lc ∧ l = lc) ∨ l.Disjoint lc := by
  obtain ⟨k', l', hown, hch', -⟩ := hdir.owner hs
  obtain rfl := ChainLib.Chain.unique hch hch'
  by_cases hk : k = k'
  · subst hk
    exact .inl ⟨hown, h.unique hown⟩
  · exact .inr (hs.disjoint h hown hk)

/-- Different directories have no cluster in common. -/
theorem Sound.dirs_disjoint (hs : v.Sound) {c c' : Nat} {p p' : Option Nat} {l l' : List Nat}
    (h : v.IsDir c p) (h' : v.IsDir c' p') (hl : v.Chain c l) (hl' : v.Chain c' l')
    (hne : c ≠ c') : l.Disjoint l' := by
  obtain ⟨k, m, hown, hm, hmne⟩ := h.owner hs
  obtain rfl := ChainLib.Chain.unique hl hm
  rcases hown.eq_or_disjoint hs h' hl' with ⟨-, rfl⟩ | hdisj
  · exact absurd (hl.start_eq hl' hmne) hne
  · exact hdisj

/-- A file that is no directory has no cluster of a directory. -/
theorem Sound.file_disjoint (hs : v.Sound) {c c' : Nat} {p p' : Option Nat} {l l' lr : List Nat}
    {r : FatDirent} (h : v.IsDir c p) (h' : v.IsDir c' p') (hl : v.Chain c l)
    (hl' : v.Chain c' l') (hr : r ∈ live (v.content l)) (hdot : r.isDot = false)
    (hfile : r.isDirectory = false) (hent : v.EntryChain r lr) : lr.Disjoint l' := by
  obtain ⟨i, hi⟩ := List.getElem?_of_mem hr
  have hown : v.Owns (some (c, i)) lr := .entry h hl hi hdot hent
  rcases hown.eq_or_disjoint hs h' hl' with ⟨hown', -⟩ | hdisj
  · -- the record of the directory would be that of the file
    exfalso
    cases h' with
    | root =>
      obtain ⟨m, hm, hmne⟩ := hs.root
      obtain rfl := ChainLib.Chain.unique hl' hm
      have hmem := hl'.head_mem hmne
      exact hs.disjoint hown' (.root hl') (by simp) hmem hmem
    | @sub c₁ p₁ l₁ r₁ hdir₁ hl₁ hr₁ hisDir₁ hdot₁ =>
      obtain ⟨m, hentm⟩ := hs.entries hdir₁ hl₁ hr₁ hdot₁
      obtain ⟨hchm, hmne⟩ := hentm.dir hisDir₁
      obtain rfl := ChainLib.Chain.unique hl' hchm
      obtain ⟨j, hj⟩ := List.getElem?_of_mem hr₁
      have hmem := hl'.head_mem hmne
      by_cases hk : (some (c, i) : Option (Nat × Nat)) = some (c₁, j)
      · cases hk
        obtain rfl := ChainLib.Chain.unique hl hl₁
        rw [hi] at hj
        cases hj
        rw [hfile] at hisDir₁
        cases hisDir₁
      · exact hs.disjoint hown' (.entry hdir₁ hl₁ hj hdot₁ hentm) hk hmem hmem
  · exact hdisj

/-! ## Section 2: Growing by one record -/

/-- A dot record with the given name that leads to the directory `c`. -/
structure DotRecord (name : Bytes) (c : Nat) (e : FatDirent) : Prop where
  isLive : e.isLive = true
  isDirectory : e.isDirectory = true
  shortName : e.shortName = some name
  clusterIndex : e.clusterIndex = c

/-- `v'` is `v` with the record `r` at the end of the directory `P`. The chain
    `lr` of the record and the clusters by which the directory is longer were
    free; every other cluster in use is as before. -/
structure Grew (v v' : Vol) (P : Nat) (lP lP' : List Nat) (r : FatDirent) (lr : List Nat) :
    Prop where
  count : v'.count = v.count
  root : v'.root = v.root
  dir : ∃ p, v.IsDir P p
  chain : v.Chain P lP
  chain' : v'.Chain P lP'
  chain_front : lP <+: lP'
  fresh : ∀ x ∈ lP', x ∈ lP ∨ v.next x = 0
  body : body (v'.content lP') = body (v.content lP) ++ [r]
  isLive : r.isLive = true
  notDot : r.isDot = false
  entry : v'.EntryChain r lr
  freshEntry : ∀ x ∈ lr, v.next x = 0
  apart : lP'.Disjoint lr
  clusterSize : v'.clusterSize = v.clusterSize
  frame : ∀ x, x ∉ lP → v.next x ≠ 0 → v'.entry x = v.entry x ∧ v'.data x = v.data x
  used : ∀ x, v'.next x ≠ 0 → v.next x ≠ 0 ∨ x ∈ lP' ∨ x ∈ lr
  newDir : r.isDirectory = true → ∃ d dd, Hausboot.body (v'.content lr) = [d, dd] ∧
    DotRecord [0x2E] r.clusterIndex d ∧ DotRecord [0x2E, 0x2E] P dd

namespace Grew

variable {P : Nat} {lP lP' lr : List Nat} {r : FatDirent}

theorem head_mem (hg : Grew v v' P lP lP' r lr) (hs : v.Sound) : P ∈ lP := by
  obtain ⟨p, hP⟩ := hg.dir
  obtain ⟨-, l, -, hch, hne⟩ := hP.owner hs
  obtain rfl := ChainLib.Chain.unique hch hg.chain
  exact hch.head_mem hne

theorem live_eq (hg : Grew v v' P lP lP' r lr) :
    live (v'.content lP') = live (v.content lP) ++ [r] := by
  rw [live, hg.body, List.filter_append, live, List.filter_cons_of_pos hg.isLive, List.filter_nil]

/-- A chain of clusters in use that the directory does not have is unchanged. -/
theorem chain_of_disjoint (hg : Grew v v' P lP lP' r lr) {c : Nat} {l : List Nat}
    (hch : v.Chain c l) (hdisj : l.Disjoint lP) :
    v'.Chain c l ∧ v'.content l = v.content l := by
  have hframe : ∀ x ∈ l, v'.entry x = v.entry x ∧ v'.data x = v.data x := fun x hx =>
    hg.frame x (hdisj hx) (hch.used hx)
  exact ⟨hch.frame hg.count fun x hx => (hframe x hx).1, content_congr fun x hx => (hframe x hx).2⟩

/-- What becomes of the chain of a directory. -/
theorem dir_chain (hg : Grew v v' P lP lP' r lr) (hs : v.Sound) {c : Nat} {p : Option Nat}
    {l : List Nat} (hdir : v.IsDir c p) (hch : v.Chain c l) :
    (c = P ∧ l = lP) ∨ (c ≠ P ∧ v'.Chain c l ∧ v'.content l = v.content l) := by
  by_cases hc : c = P
  · subst hc
    exact .inl ⟨rfl, ChainLib.Chain.unique hch hg.chain⟩
  · obtain ⟨p', hP⟩ := hg.dir
    exact .inr ⟨hc, hg.chain_of_disjoint hch (hs.dirs_disjoint hdir hP hch hg.chain hc)⟩

/-- The live records of a directory that was there before, read off its chain
    after the step. -/
theorem live_cases (hg : Grew v v' P lP lP' r lr) (hs : v.Sound) {c : Nat} {p : Option Nat}
    {l' : List Nat} (hdir : v.IsDir c p) (hch' : v'.Chain c l') :
    ∃ l, v.Chain c l ∧ ((c = P ∧ l = lP ∧ l' = lP') ∨
      (c ≠ P ∧ l = l' ∧ v'.content l' = v.content l')) := by
  obtain ⟨-, l, -, hch, -⟩ := hdir.owner hs
  rcases hg.dir_chain hs hdir hch with ⟨rfl, rfl⟩ | ⟨hc, hkeep, hcont⟩
  · exact ⟨l, hch, .inl ⟨rfl, rfl, ChainLib.Chain.unique hch' hg.chain'⟩⟩
  · obtain rfl := ChainLib.Chain.unique hch' hkeep
    exact ⟨l', hch, .inr ⟨hc, rfl, hcont⟩⟩

theorem isDir (hg : Grew v v' P lP lP' r lr) (hs : v.Sound) {c : Nat} {p : Option Nat}
    (h : v.IsDir c p) : v'.IsDir c p := by
  induction h with
  | root =>
    rw [← hg.root]
    exact .root
  | @sub c p l e hdir hch he hisDir hdot ih =>
    rcases hg.dir_chain hs hdir hch with ⟨rfl, rfl⟩ | ⟨-, hkeep, hcont⟩
    · exact .sub ih hg.chain' (by rw [hg.live_eq]; exact List.mem_append_left _ he) hisDir hdot
    · exact .sub ih hkeep (hcont ▸ he) hisDir hdot

/-- The new directory contains its dot records only. -/
theorem dots_of_new (hg : Grew v v' P lP lP' r lr) (hisDir : r.isDirectory = true) {l : List Nat}
    (hch : v'.Chain r.clusterIndex l) {e : FatDirent} (he : e ∈ live (v'.content l)) :
    e.isDot = true ∧ DotOk r.clusterIndex P e := by
  obtain ⟨hlr, -⟩ := hg.entry.dir hisDir
  obtain rfl := ChainLib.Chain.unique hch hlr
  obtain ⟨d, dd, hbody, hd, hdd⟩ := hg.newDir hisDir
  have hmem := (mem_live.mp he).1
  rw [hbody] at hmem
  rcases List.mem_cons.mp hmem with rfl | hmem
  · refine ⟨by simp [FatDirent.isDot, hd.shortName], hd.isDirectory, fun _ => hd.clusterIndex, ?_⟩
    rw [hd.shortName]
    simp
  · obtain rfl := List.mem_singleton.mp hmem
    refine ⟨by simp [FatDirent.isDot, hdd.shortName], hdd.isDirectory, ?_, fun _ => hdd.clusterIndex⟩
    rw [hdd.shortName]
    simp

theorem isDir_cases (hg : Grew v v' P lP lP' r lr) (hs : v.Sound) {c : Nat} {p : Option Nat}
    (h : v'.IsDir c p) :
    v.IsDir c p ∨ (c = r.clusterIndex ∧ p = some P ∧ r.isDirectory = true) := by
  induction h with
  | root =>
    rw [hg.root]
    exact .inl .root
  | @sub c p l' e hdir hch' he hisDir hdot ih =>
    rcases ih with hold | ⟨rfl, rfl, hr⟩
    · obtain ⟨l, hch, ⟨rfl, rfl, rfl⟩ | ⟨-, rfl, hcont⟩⟩ := hg.live_cases hs hold hch'
      · rw [hg.live_eq] at he
        rcases List.mem_append.mp he with he | he
        · exact .inl (.sub hold hch he hisDir hdot)
        · obtain rfl := List.mem_singleton.mp he
          exact .inr ⟨rfl, rfl, hisDir⟩
      · rw [hcont] at he
        exact .inl (.sub hold hch he hisDir hdot)
    · have hnew := (hg.dots_of_new hr hch' he).1
      rw [hdot] at hnew
      cases hnew

/-- What becomes of the chain of a live record. -/
theorem entryChain (hg : Grew v v' P lP lP' r lr) (hs : v.Sound) {k : Option (Nat × Nat)}
    {e : FatDirent} {l : List Nat} (hown : v.Owns k l) (hent : v.EntryChain e l) :
    ∃ l', v'.EntryChain e l' ∧ ((l = lP ∧ l' = lP') ∨ (l.Disjoint lP ∧ l' = l)) := by
  obtain ⟨p, hP⟩ := hg.dir
  rcases hent with ⟨hch, hne, hsize⟩ | ⟨hfile, hzero, hc, rfl⟩
  · rcases hown.eq_or_disjoint hs hP hg.chain with ⟨-, rfl⟩ | hdisj
    · have hstart := hch.start_eq hg.chain hne
      have hlen := hg.chain_front.length_le
      have hsize' : e.size ≤ lP'.length * v'.clusterSize := by
        rw [hg.clusterSize]
        exact hsize.trans (Nat.mul_le_mul_right _ hlen)
      have hne' : lP' ≠ [] := fun hnil => hne (List.prefix_nil.mp (hnil ▸ hg.chain_front))
      exact ⟨lP', .inl ⟨hstart ▸ hg.chain', hne', hsize'⟩, .inl ⟨rfl, rfl⟩⟩
    · obtain ⟨hkeep, -⟩ := hg.chain_of_disjoint hch hdisj
      exact ⟨l, .inl ⟨hkeep, hne, hg.clusterSize.symm ▸ hsize⟩, .inr ⟨hdisj, rfl⟩⟩
  · exact ⟨[], .inr ⟨hfile, hzero, hc, rfl⟩, .inr ⟨List.disjoint_nil_left _, rfl⟩⟩

theorem root_chain (hg : Grew v v' P lP lP' r lr) (hs : v.Sound) :
    ∃ l l', v.Chain v.root l ∧ v'.Chain v'.root l' ∧ l' ≠ [] ∧
      ((l = lP ∧ l' = lP') ∨ (l.Disjoint lP ∧ l' = l)) := by
  obtain ⟨p, hP⟩ := hg.dir
  obtain ⟨l, hch, hne⟩ := hs.root
  rcases (Owns.root hch).eq_or_disjoint hs hP hg.chain with ⟨-, rfl⟩ | hdisj
  · have hstart := hch.start_eq hg.chain hne
    have hne' : lP' ≠ [] := fun hnil => hne (List.prefix_nil.mp (hnil ▸ hg.chain_front))
    exact ⟨l, lP', hch, by rw [hg.root, hstart]; exact hg.chain', hne', .inl ⟨rfl, rfl⟩⟩
  · obtain ⟨hkeep, -⟩ := hg.chain_of_disjoint hch hdisj
    exact ⟨l, l, hch, by rwa [hg.root], hne, .inr ⟨hdisj, rfl⟩⟩

/-- An owner after the step is the new record, or was an owner before. -/
theorem owns_cases (hg : Grew v v' P lP lP' r lr) (hs : v.Sound) {k : Option (Nat × Nat)}
    {l' : List Nat} (h : v'.Owns k l') :
    (k = some (P, (live (v.content lP)).length) ∧ l' = lr) ∨
    ∃ l, v.Owns k l ∧ ((l = lP ∧ l' = lP') ∨ (l.Disjoint lP ∧ l' = l)) := by
  cases h with
  | root hch' =>
    obtain ⟨l, m, hch, hm, -, hcases⟩ := hg.root_chain hs
    obtain rfl := ChainLib.Chain.unique hch' hm
    exact .inr ⟨l, .root hch, hcases⟩
  | @entry c i p m lr' e hdir hm he hdot hent =>
    -- a record that was there before
    have hold : ∀ {l : List Nat}, v.IsDir c p → v.Chain c l → (live (v.content l))[i]? = some e →
        ∃ l, v.Owns (some (c, i)) l ∧ ((l = lP ∧ l' = lP') ∨ (l.Disjoint lP ∧ l' = l)) := by
      intro l hd hch hi
      obtain ⟨n, hn⟩ := hs.entries hd hch (List.mem_of_getElem? hi) hdot
      have hown : v.Owns (some (c, i)) n := .entry hd hch hi hdot hn
      obtain ⟨n', hn', hcases⟩ := hg.entryChain hs hown hn
      obtain rfl := hent.unique hn'
      exact ⟨n, hown, hcases⟩
    rcases hg.isDir_cases hs hdir with hd | ⟨rfl, rfl, hr⟩
    · obtain ⟨l, hch, ⟨rfl, rfl, rfl⟩ | ⟨-, rfl, hcont⟩⟩ := hg.live_cases hs hd hm
      · rw [hg.live_eq] at he
        by_cases hi : i < (live (v.content l)).length
        · rw [List.getElem?_append_left hi] at he
          exact .inr (hold hd hch he)
        · rw [List.getElem?_append_right (by omega)] at he
          obtain ⟨hlt, heq⟩ := List.getElem?_eq_some_iff.mp he
          rw [List.length_singleton] at hlt
          have hi : i = (live (v.content l)).length := by omega
          have her : e = r := by simpa using heq.symm
          subst her hi
          exact .inl ⟨rfl, hent.unique hg.entry⟩
      · rw [hcont] at he
        exact .inr (hold hd hch he)
    · have hnew := (hg.dots_of_new hr hm (List.mem_of_getElem? he)).1
      rw [hdot] at hnew
      cases hnew

/-- The chain of the record did not belong to anyone. -/
theorem lr_disjoint (hg : Grew v v' P lP lP' r lr) {k : Option (Nat × Nat)} {l l' : List Nat}
    (hown : v.Owns k l) (hl' : (l = lP ∧ l' = lP') ∨ (l.Disjoint lP ∧ l' = l)) :
    l'.Disjoint lr := by
  rcases hl' with ⟨-, rfl⟩ | ⟨-, rfl⟩
  · exact hg.apart
  · exact fun x hx hxr => hown.used hx (hg.freshEntry x hxr)

/-- Growing keeps the chains apart. -/
theorem disjoint (hg : Grew v v' P lP lP' r lr) (hs : v.Sound) {k k' : Option (Nat × Nat)}
    {l l' : List Nat} (h : v'.Owns k l) (h' : v'.Owns k' l') (hk : k ≠ k') : l.Disjoint l' := by
  rcases hg.owns_cases hs h with ⟨rfl, rfl⟩ | ⟨m, hm, hl⟩
  · rcases hg.owns_cases hs h' with ⟨rfl, rfl⟩ | ⟨m', hm', hl'⟩
    · exact absurd rfl hk
    · exact (hg.lr_disjoint hm' hl').symm
  · rcases hg.owns_cases hs h' with ⟨rfl, rfl⟩ | ⟨m', hm', hl'⟩
    · exact hg.lr_disjoint hm hl
    · have hmm := hs.disjoint hm hm' hk
      -- the directory's new clusters were free, so only one of the chains has them
      have hgrown : ∀ {k k' : Option (Nat × Nat)} {m : List Nat}, v.Owns k lP → v.Owns k' m →
          k ≠ k' → lP'.Disjoint m := by
        intro k k' m hP hm hk x hx hxm
        rcases hg.fresh x hx with hxP | hfree
        · exact hs.disjoint hP hm hk hxP hxm
        · exact hm.used hxm hfree
      rcases hl with ⟨rfl, rfl⟩ | ⟨-, rfl⟩
      · rcases hl' with ⟨rfl, rfl⟩ | ⟨-, rfl⟩
        · -- two owners of the chain of the directory
          exact absurd (hg.head_mem hs) fun hP => hmm hP hP
        · exact hgrown hm hm' hk
      · rcases hl' with ⟨rfl, rfl⟩ | ⟨-, rfl⟩
        · exact (hgrown hm' hm hk.symm).symm
        · exact hmm

theorem sound (hg : Grew v v' P lP lP' r lr) (hs : v.Sound) : v'.Sound where
  root := by
    obtain ⟨-, l, -, hch, hne, -⟩ := hg.root_chain hs
    exact ⟨l, hch, hne⟩
  entries := by
    intro c p l' e hdir hch' he hdot
    have hold : ∀ {l : List Nat}, v.IsDir c p → v.Chain c l → e ∈ live (v.content l) →
        ∃ l', v'.EntryChain e l' := by
      intro l hd hch he
      obtain ⟨n, hn⟩ := hs.entries hd hch he hdot
      obtain ⟨i, hown⟩ := Owns.of_mem hd hch he hdot hn
      obtain ⟨n', hn', -⟩ := hg.entryChain hs hown hn
      exact ⟨n', hn'⟩
    rcases hg.isDir_cases hs hdir with hd | ⟨rfl, rfl, hr⟩
    · obtain ⟨l, hch, ⟨rfl, rfl, rfl⟩ | ⟨-, rfl, hcont⟩⟩ := hg.live_cases hs hd hch'
      · rw [hg.live_eq] at he
        rcases List.mem_append.mp he with he | he
        · exact hold hd hch he
        · rw [List.mem_singleton.mp he]
          exact ⟨lr, hg.entry⟩
      · rw [hcont] at he
        exact hold hd hch he
    · have hnew := (hg.dots_of_new hr hch' he).1
      rw [hdot] at hnew
      cases hnew
  disjoint h h' hk := hg.disjoint hs h h' hk

/-- The volume stays well formed. -/
theorem wellFormed (hg : Grew v v' P lP lP' r lr) (hwf : v.WellFormed) (hsane : v'.Sane) :
    v'.WellFormed where
  toSane := hsane
  toSound := hg.sound hwf.toSound
  groups := by
    intro c p l' hdir hch'
    rcases hg.isDir_cases hwf.toSound hdir with hd | ⟨rfl, rfl, hr⟩
    · obtain ⟨l, hch, ⟨rfl, rfl, rfl⟩ | ⟨-, rfl, hcont⟩⟩ := hg.live_cases hwf.toSound hd hch'
      · obtain ⟨gs, hgs⟩ := hwf.groups hd hch
        rw [hg.body]
        exact ⟨_, hgs.append (.plain hg.isLive .nil)⟩
      · rw [hcont]
        exact hwf.groups hd hch
    · obtain ⟨hlr, -⟩ := hg.entry.dir hr
      obtain rfl := ChainLib.Chain.unique hch' hlr
      obtain ⟨d, dd, hbody, hd, hdd⟩ := hg.newDir hr
      rw [hbody]
      exact ⟨_, .plain hd.isLive (.plain hdd.isLive .nil)⟩
  rootDots := by
    intro l' e hch' he
    rw [hg.root] at hch'
    obtain ⟨l, hch, ⟨-, rfl, rfl⟩ | ⟨-, rfl, hcont⟩⟩ := hg.live_cases hwf.toSound .root hch'
    · rw [hg.live_eq] at he
      rcases List.mem_append.mp he with he | he
      · exact hwf.rootDots hch he
      · rw [List.mem_singleton.mp he]
        exact hg.notDot
    · rw [hcont] at he
      exact hwf.rootDots hch he
  dots := by
    intro c p l' e hdir hch' he hdot
    rcases hg.isDir_cases hwf.toSound hdir with hd | ⟨rfl, hp, hr⟩
    · obtain ⟨l, hch, ⟨rfl, rfl, rfl⟩ | ⟨-, rfl, hcont⟩⟩ := hg.live_cases hwf.toSound hd hch'
      · rw [hg.live_eq] at he
        rcases List.mem_append.mp he with he | he
        · exact hwf.dots hd hch he hdot
        · rw [List.mem_singleton.mp he, hg.notDot] at hdot
          cases hdot
      · rw [hcont] at he
        exact hwf.dots hd hch he hdot
    · cases hp
      exact (hg.dots_of_new hr hch' he).2

/-- An owner keeps its chain, and possibly gets more. -/
theorem owns (hg : Grew v v' P lP lP' r lr) (hs : v.Sound) {k : Option (Nat × Nat)} {l : List Nat}
    (h : v.Owns k l) : ∃ l', v'.Owns k l' ∧ ((l = lP ∧ l' = lP') ∨ (l.Disjoint lP ∧ l' = l)) := by
  cases h with
  | root hch =>
    obtain ⟨m, m', hm, hm', -, hcases⟩ := hg.root_chain hs
    obtain rfl := ChainLib.Chain.unique hch hm
    exact ⟨m', .root hm', hcases⟩
  | @entry c i p m _ e hdir hch he hdot hent =>
    obtain ⟨l', hl', hcases⟩ := hg.entryChain hs (.entry hdir hch he hdot hent) hent
    have hdir' := hg.isDir hs hdir
    refine ⟨l', ?_, hcases⟩
    rcases hg.dir_chain hs hdir hch with ⟨rfl, rfl⟩ | ⟨-, hkeep, hcont⟩
    · have hlt := (List.getElem?_eq_some_iff.mp he).1
      exact .entry hdir' hg.chain' (by rw [hg.live_eq, List.getElem?_append_left hlt]; exact he)
        hdot hl'
    · exact .entry hdir' hkeep (hcont ▸ he) hdot hl'

theorem owns_new (hg : Grew v v' P lP lP' r lr) (hs : v.Sound) :
    v'.Owns (some (P, (live (v.content lP)).length)) lr := by
  obtain ⟨p, hP⟩ := hg.dir
  refine .entry (hg.isDir hs hP) hg.chain' ?_ hg.notDot hg.entry
  rw [hg.live_eq, List.getElem?_append_right (Nat.le_refl _)]
  simp

/-- The volume stays tidy. -/
theorem tidy (hg : Grew v v' P lP lP' r lr) (ht : v.Tidy) (hsane : v'.Sane)
    (hnibble : ∀ n, v'.entry n < 2 ^ 28) : v'.Tidy where
  toWellFormed := hg.wellFormed ht.toWellFormed hsane
  nibble := hnibble
  owned := by
    intro x hx hused
    have hs := ht.toSound
    have hlP : x ∈ lP' → ∃ k l, v'.Owns k l ∧ x ∈ l := by
      intro hmem
      obtain ⟨p, hP⟩ := hg.dir
      obtain ⟨k, l, hown, hch, -⟩ := hP.owner hs
      obtain rfl := ChainLib.Chain.unique hch hg.chain
      obtain ⟨l', hown', ⟨-, rfl⟩ | ⟨hdisj, -⟩⟩ := hg.owns hs hown
      · exact ⟨k, l', hown', hmem⟩
      · exact absurd (hg.head_mem hs) fun h => hdisj h h
    rcases hg.used x hused with hold | hmem | hmem
    · have hvalid : v.Valid x := by
        rw [Valid, ← hg.count]
        exact hx
      obtain ⟨k, l, hown, hxl⟩ := ht.owned hvalid hold
      obtain ⟨l', hown', ⟨rfl, rfl⟩ | ⟨-, rfl⟩⟩ := hg.owns hs hown
      · exact hlP (hg.chain_front.subset hxl)
      · exact ⟨k, l', hown', hxl⟩
    · exact hlP hmem
    · exact ⟨_, lr, hg.owns_new hs, hmem⟩
  hasDots := by
    intro c p l' hdir hch'
    rcases hg.isDir_cases ht.toSound hdir with hd | ⟨rfl, hp, hr⟩
    · obtain ⟨l, hch, ⟨rfl, rfl, rfl⟩ | ⟨-, rfl, hcont⟩⟩ := hg.live_cases ht.toSound hd hch'
      · obtain ⟨⟨d, hd, hname⟩, dd, hdd, hname'⟩ := ht.hasDots hd hch
        rw [hg.live_eq]
        exact ⟨⟨d, List.mem_append_left _ hd, hname⟩, dd, List.mem_append_left _ hdd, hname'⟩
      · rw [hcont]
        exact ht.hasDots hd hch
    · cases hp
      obtain ⟨hlr, -⟩ := hg.entry.dir hr
      obtain rfl := ChainLib.Chain.unique hch' hlr
      obtain ⟨d, dd, hbody, hd, hdd⟩ := hg.newDir hr
      have hmem : ∀ {e : FatDirent}, e ∈ [d, dd] → e.isLive = true → e ∈ live (v'.content l') :=
        fun he hlive => mem_live.mpr ⟨hbody ▸ he, hlive⟩
      exact ⟨⟨d, hmem (by simp) hd.isLive, hd.shortName⟩,
        dd, hmem (by simp) hdd.isLive, hdd.shortName⟩

end Grew

end Vol

end Hausboot

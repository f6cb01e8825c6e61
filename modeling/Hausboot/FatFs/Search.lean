import Hausboot.FatFs.Coherence

/-! # The stage2 FAT Driver: Searching a Directory

    On a device that never fails, `FindInDirectory` is a search over the
    clusters of the disk (`findLoop_reliable`). It follows the links of the
    FAT without counting, so it never ends on a chain that runs in a circle
    and has neither the name nor a terminator on the way; otherwise it ends,
    as there are fewer than 2 ^ 28 cluster numbers that do not end a chain. -/

open ByteLib ChainLib

namespace Hausboot

/-! ## Section 1: The search on the disk -/

namespace Volume

/-- The directory records of a cluster. -/
def records (v : Volume) (c : Nat) : List FatDirent := FatFs.recordsIn v (v.cluster c)

instance (v : Volume) (c : Nat) : Decidable (v.Usable c) :=
  inferInstanceAs (Decidable (2 ≤ c ∧ v.InTable c))

/-- `FindInDirectory` can read the cluster and goes on behind it. -/
def Follows (v : Volume) (c : Nat) : Prop := c < FatFs.endOfChain ∧ v.Usable c

/-- The loop of `FindInDirectory` without windows. -/
def find (v : Volume) (name : Bytes) : Nat → Nat → Bytes → Option FatFs.FindResult
  | 0, _, _ => none
  | fuel + 1, index, buffer =>
    if index ≥ FatFs.endOfChain then some .noEntry
    else if ¬ v.Usable index then some .ioError
    else
      match FatFs.findEntry name buffer (v.records index) with
      | .found e =>
        some (.ok { cluster := e.clusterIndex, size := e.size, flags := e.entryFlags })
      | .last => some .noEntry
      | .more buffer => v.find name fuel (v.fatEntry index) buffer

end Volume

namespace FatFs

variable {w : World} {v : Volume} {fs : FatFs}

theorem recordsIn_of_front {c : Nat} {window : Bytes} (h : v.cluster c <+: window) :
    recordsIn v window = v.records c := by
  apply List.map_congr_left
  intro i hi
  have hlen := v.length_cluster c
  have hle : (i + 1) * FatDirent.sizeof ≤ v.bytesPerCluster :=
    (Nat.mul_le_mul_right _ (List.mem_range.mp hi)).trans (Nat.div_mul_le_self _ _)
  rw [Nat.succ_mul] at hle
  rw [slice_of_front h (by omega)]

theorem harmless_reliable (hw : ¬ w.Faulty) (fs : FatFs) (i : Request) : Harmless w v fs i := by
  have hnone : ∀ loads lba junk, w.fault loads lba ≠ some junk := by
    intro loads lba junk h
    exact hw ⟨loads, lba, by rw [h]; exact Option.some_ne_none _⟩
  cases i with
  | cluster c => exact fun _ _ _ j junk hfail => absurd hfail.fault (hnone _ _ _)
  | entry c => exact fun _ _ _ junk hjunk => absurd hjunk (hnone _ _ _)
  | nameBuffer => trivial

/-- A search that ends here leaves the windows as they are. -/
theorem coherent_of_ends {r : FindResult} (hco : Coherent v fs) :
    ∀ r' fs', some (r, fs) = some (r', fs') → Coherent v fs' := by
  intro r' fs' h
  obtain ⟨-, rfl⟩ := Prod.mk.inj (Option.some.inj h)
  exact hco

/-- **FindInDirectory without windows.** -/
theorem findLoop_reliable (hw : ¬ w.Faulty) (name : Bytes) (fuel : Nat) {fs : FatFs}
    (hco : Coherent v fs) (index : Nat) (buffer : Bytes) :
    (findLoop w v name fuel fs index buffer).map Prod.fst = v.find name fuel index buffer ∧
    ∀ r fs', findLoop w v name fuel fs index buffer = some (r, fs') → Coherent v fs' := by
  induction fuel generalizing fs index buffer with
  | zero => exact ⟨rfl, fun _ _ h => nomatch h⟩
  | succ fuel ih =>
    unfold findLoop Volume.find
    by_cases hend : index ≥ endOfChain
    · rw [if_pos hend, if_pos hend]
      exact ⟨rfl, coherent_of_ends hco⟩
    rw [if_neg hend, if_neg hend]
    by_cases h2 : index < 2
    · have hload : loadDataCluster w v fs index = (false, fs) := by
        unfold loadDataCluster
        rw [if_pos h2]
      rw [hload, if_pos (fun h => absurd h.1 (by omega))]
      exact ⟨rfl, coherent_of_ends hco⟩
    rcases loadDataCluster_spec (w := w) hco (Nat.le_of_not_lt h2) (Nat.lt_of_not_le hend) with
      ⟨fs₁, hload, hco₁, hpre⟩ | ⟨hbad, -⟩
    swap
    · exact absurd hbad hw
    -- reading the FAT leaves the window of the data alone
    have hread := readFatIndex_reliable hw hco₁ index
    have hwin := dataWindow_readFatIndex (w := w) (v := v) fs₁ index
    have hco₂ : Coherent v (readFatIndex w v fs₁ index).2 :=
      (coherent_serve_iff hco₁ (.entry index)).1.mpr (harmless_reliable hw fs₁ _)
    rw [hload]
    dsimp only
    generalize readFatIndex w v fs₁ index = answer at hread hwin hco₂ ⊢
    obtain ⟨entry, fs₂⟩ := answer
    dsimp only at hread hwin hco₂
    by_cases hin : v.InTable index
    · rw [if_pos hin] at hread
      obtain rfl := hread
      rw [if_neg (not_not.mpr ⟨Nat.le_of_not_lt h2, hin⟩)]
      -- the window holds the records of the cluster
      have hrecords : windowEntries v fs₂ = v.records index := by
        rw [← recordsIn_of_front hpre, ← hwin]
        rfl
      dsimp only
      rw [hrecords]
      cases findEntry name buffer (v.records index) with
      | found e =>
        exact ⟨rfl, coherent_of_ends hco₂⟩
      | last =>
        exact ⟨rfl, coherent_of_ends hco₂⟩
      | more buffer' => exact ih hco₂ (v.fatEntry index) buffer'
    · rw [if_neg hin] at hread
      obtain rfl := hread
      rw [if_pos (fun h => hin h.2)]
      exact ⟨rfl, coherent_of_ends hco₂⟩

/-! ## Section 2: Records that do not end the search -/

/-- The inner loop looks at the name of the record. -/
def Compared (e : FatDirent) : Prop := (e.isLongName || e.isDummiedOut) = false

/-- What `FindInDirectory` returns if the records end the search. -/
def ScanResult.answer : ScanResult → Option FindResult
  | .found e => some (.ok { cluster := e.clusterIndex, size := e.size, flags := e.entryFlags })
  | .last => some .noEntry
  | .more _ => none

theorem findEntry_append (name buffer : Bytes) (es es' : List FatDirent) :
    findEntry name buffer (es ++ es') =
      match findEntry name buffer es with
      | .more buffer => findEntry name buffer es'
      | r => r := by
  induction es generalizing buffer with
  | nil => rfl
  | cons e es ih =>
    simp only [List.cons_append, findEntry]
    by_cases hlast : e.isLastInList = true
    · simp only [if_pos hlast]
    simp only [if_neg hlast]
    by_cases hskip : (e.isLongName || e.isDummiedOut) = true
    · simp only [if_pos hskip]
      exact ih buffer
    simp only [if_neg hskip]
    by_cases hname : strEqual (e.nameToString.getD buffer) name = true
    · simp only [if_pos hname]
    · simp only [if_neg hname]
      exact ih _

/-- Going over the records again, in any selection, does not end the search
    either: no record is a terminator or has the name, and the buffer does not
    have it unless no record is compared at all. -/
structure Quiet (name : Bytes) (es : List FatDirent) (buffer : Bytes) : Prop where
  notLast : ∀ e ∈ es, e.isLastInList = false
  notFound : ∀ e ∈ es, Compared e → ∀ n, e.nameToString = some n → strEqual n name = false
  buffer : strEqual buffer name = false ∨ ∀ e ∈ es, ¬ Compared e

/-- A buffer without the name stays one. -/
theorem buffer_of_more {name buffer buffer' : Bytes} {es : List FatDirent}
    (h : findEntry name buffer es = .more buffer') (hb : strEqual buffer name = false) :
    strEqual buffer' name = false := by
  induction es generalizing buffer with
  | nil =>
    obtain rfl := ScanResult.more.inj h
    exact hb
  | cons e es ih =>
    simp only [findEntry] at h
    split at h
    · cases h
    · split at h
      · exact ih h hb
      · split at h
        · cases h
        · next hname => exact ih h (by simpa using hname)

theorem quiet_of_more {name buffer buffer' : Bytes} {es : List FatDirent}
    (h : findEntry name buffer es = .more buffer') : Quiet name es buffer' := by
  induction es generalizing buffer with
  | nil => exact ⟨by simp, by simp, .inr (by simp)⟩
  | cons e es ih =>
    simp only [findEntry] at h
    by_cases hlast : e.isLastInList = true
    · rw [if_pos hlast] at h
      cases h
    rw [if_neg hlast] at h
    have hlast' : e.isLastInList = false := by simpa using hlast
    by_cases hskip : (e.isLongName || e.isDummiedOut) = true
    · rw [if_pos hskip] at h
      have hq := ih h
      -- a skipped record is not compared
      have hcmp : ¬ Compared e := by simp [Compared, hskip]
      refine ⟨List.forall_mem_cons.mpr ⟨hlast', hq.notLast⟩,
        List.forall_mem_cons.mpr ⟨fun hc => absurd hc hcmp, hq.notFound⟩, ?_⟩
      exact hq.buffer.imp_right fun hnone => List.forall_mem_cons.mpr ⟨hcmp, hnone⟩
    · rw [if_neg hskip] at h
      by_cases hname : strEqual (e.nameToString.getD buffer) name = true
      · rw [if_pos hname] at h
        cases h
      rw [if_neg hname] at h
      have hname' : strEqual (e.nameToString.getD buffer) name = false := by simpa using hname
      have hq := ih h
      refine ⟨List.forall_mem_cons.mpr ⟨hlast', hq.notLast⟩,
        List.forall_mem_cons.mpr ⟨fun _ n hn => ?_, hq.notFound⟩, .inl (buffer_of_more h hname')⟩
      rwa [hn] at hname'

theorem Quiet.more {name buffer : Bytes} {es es' : List FatDirent} (h : Quiet name es buffer)
    (hsub : ∀ e ∈ es', e ∈ es) :
    ∃ buffer', findEntry name buffer es' = .more buffer' ∧ Quiet name es buffer' := by
  induction es' generalizing buffer with
  | nil => exact ⟨buffer, rfl, h⟩
  | cons e es' ih =>
    have he := hsub e (by simp)
    have hrest : ∀ x ∈ es', x ∈ es := fun x hx => hsub x (List.mem_cons_of_mem _ hx)
    have hlast := h.notLast e he
    simp only [findEntry, hlast, Bool.false_eq_true, if_false]
    by_cases hskip : (e.isLongName || e.isDummiedOut) = true
    · rw [if_pos hskip]
      exact ih h hrest
    · rw [if_neg hskip]
      have hcmp : Compared e := by simpa [Compared] using hskip
      have hbuffer : strEqual (e.nameToString.getD buffer) name = false := by
        rcases hn : e.nameToString with _ | n
        · rcases h.buffer with hb | hnone
          · exact hb
          · exact absurd hcmp (hnone e he)
        · exact h.notFound e he hcmp n hn
      rw [if_neg (by simp [hbuffer])]
      exact ih ⟨h.notLast, h.notFound, .inl hbuffer⟩ hrest

end FatFs

/-! ## Section 3: When the search ends -/

namespace Volume

variable {v : Volume} {name : Bytes}

theorem find_mono {n m : Nat} {c : Nat} {b : Bytes} {r : FatFs.FindResult}
    (h : v.find name n c b = some r) (hnm : n ≤ m) : v.find name m c b = some r := by
  induction n generalizing m c b with
  | zero => cases h
  | succ n ih =>
    obtain ⟨m, rfl⟩ : ∃ k, m = k + 1 := ⟨m - 1, by omega⟩
    unfold find at h ⊢
    by_cases hend : c ≥ FatFs.endOfChain
    · rwa [if_pos hend] at h ⊢
    rw [if_neg hend] at h ⊢
    by_cases huse : ¬ v.Usable c
    · rwa [if_pos huse] at h ⊢
    rw [if_neg huse] at h ⊢
    cases hscan : FatFs.findEntry name b (v.records c) with
    | found e => rwa [hscan] at h
    | last => rwa [hscan] at h
    | more b' =>
      rw [hscan] at h
      exact ih h (by omega)

theorem find_more {n c : Nat} {b b' : Bytes} (hc : v.Follows c)
    (hmore : FatFs.findEntry name b (v.records c) = .more b') :
    v.find name (n + 1) c b = v.find name n (v.fatEntry c) b' := by
  rw [find, if_neg (Nat.not_le_of_lt hc.1), if_neg (not_not.mpr hc.2), hmore]

/-- The search goes through a part of a walk that does not end it. -/
theorem find_segment {c d : Nat} {l : List Nat} (h : Segment v.fatEntry v.Follows c l d)
    {b b' : Bytes} (hmore : FatFs.findEntry name b (l.flatMap v.records) = .more b') (n : Nat) :
    v.find name (l.length + n) c b = v.find name n d b' := by
  induction h generalizing b with
  | nil c =>
    obtain rfl := FatFs.ScanResult.more.inj hmore
    rw [List.length_nil, Nat.zero_add]
  | @cons c d l hok h ih =>
    rw [List.flatMap_cons, FatFs.findEntry_append] at hmore
    rw [List.length_cons, show l.length + 1 + n = l.length + n + 1 by omega]
    cases hscan : FatFs.findEntry name b (v.records c) with
    | found e =>
      rw [hscan] at hmore
      cases hmore
    | last =>
      rw [hscan] at hmore
      cases hmore
    | more b₁ =>
      rw [hscan] at hmore
      rw [find_more hok hscan]
      exact ih hmore

/-- The search stops in a part of a walk that has an answer. -/
theorem find_answer {c d : Nat} {l : List Nat} (h : Segment v.fatEntry v.Follows c l d)
    {b : Bytes} {r : FatFs.FindResult}
    (hr : (FatFs.findEntry name b (l.flatMap v.records)).answer = some r) :
    v.find name l.length c b = some r := by
  induction h generalizing b with
  | nil c => cases hr
  | @cons c d l hok h ih =>
    rw [List.flatMap_cons, FatFs.findEntry_append] at hr
    rw [List.length_cons]
    cases hscan : FatFs.findEntry name b (v.records c) with
    | found e =>
      rw [hscan] at hr
      rw [find, if_neg (Nat.not_le_of_lt hok.1), if_neg (not_not.mpr hok.2), hscan]
      exact hr
    | last =>
      rw [hscan] at hr
      rw [find, if_neg (Nat.not_le_of_lt hok.1), if_neg (not_not.mpr hok.2), hscan]
      exact hr
    | more b₁ =>
      rw [hscan] at hr
      rw [find_more hok hscan]
      exact ih hr

/-- A search that runs out of fuel has walked on. -/
theorem exists_segment {n c : Nat} {b : Bytes} (h : v.find name n c b = none) :
    ∃ l d b', Segment v.fatEntry v.Follows c l d ∧ l.length = n ∧
      FatFs.findEntry name b (l.flatMap v.records) = .more b' := by
  induction n generalizing c b with
  | zero => exact ⟨[], c, b, .nil c, rfl, rfl⟩
  | succ n ih =>
    unfold find at h
    by_cases hend : c ≥ FatFs.endOfChain
    · rw [if_pos hend] at h
      cases h
    rw [if_neg hend] at h
    by_cases huse : ¬ v.Usable c
    · rw [if_pos huse] at h
      cases h
    rw [if_neg huse] at h
    -- only a cluster without the name and a terminator leads on
    cases hscan : FatFs.findEntry name b (v.records c) with
    | found e =>
      rw [hscan] at h
      cases h
    | last =>
      rw [hscan] at h
      cases h
    | more b₁ =>
      rw [hscan] at h
      obtain ⟨l, d, b', hseg, hlen, hmore⟩ := ih h
      refine ⟨c :: l, d, b', .cons ⟨Nat.lt_of_not_le hend, not_not.mp huse⟩ hseg, ?_, ?_⟩
      · rw [List.length_cons, hlen]
      · rw [List.flatMap_cons, FatFs.findEntry_append, hscan]
        exact hmore

/-- The chain from `c` runs in a circle, and there is neither the name nor a
    terminator in the directory records on the way. -/
def Endless (v : Volume) (name buffer : Bytes) (c : Nat) : Prop :=
  ∃ l d buffer', Segment v.fatEntry v.Follows c l d ∧ d ∈ l ∧
    FatFs.findEntry name buffer (l.flatMap v.records) = .more buffer'

/-- Once in the circle, the search stays there. -/
theorem find_circle {l : List Nat} (hl : ∀ c ∈ l, v.Follows c ∧ v.fatEntry c ∈ l) {b : Bytes}
    (hq : FatFs.Quiet name (l.flatMap v.records) b) {d : Nat} (hd : d ∈ l) (n : Nat) :
    v.find name n d b = none := by
  induction n generalizing d b with
  | zero => rfl
  | succ n ih =>
    obtain ⟨hfollows, hnext⟩ := hl d hd
    obtain ⟨b', hmore, hq'⟩ := hq.more (fun e he => List.mem_flatMap.mpr ⟨d, hd, he⟩)
    rw [find_more hfollows hmore]
    exact ih hq' hnext

/-- **The search ends** exactly if it is not endless. -/
theorem find_ends_iff (v : Volume) (name b : Bytes) (c : Nat) :
    (∃ n r, v.find name n c b = some r) ↔ ¬ v.Endless name b c := by
  constructor
  · rintro ⟨n, r, hfind⟩ ⟨l, d, b', hseg, hd, hmore⟩
    have hcircle : ∀ x ∈ l, v.Follows x ∧ v.fatEntry x ∈ l := by
      intro x hx
      refine ⟨hseg.ok_of_mem hx, ?_⟩
      rcases hseg.next_mem hx with hmem | heq
      · exact hmem
      · rwa [heq]
    have hnone := find_circle hcircle (FatFs.quiet_of_more hmore) hd n
    rw [← find_segment hseg hmore n, find_mono hfind (Nat.le_add_left _ _)] at hnone
    cases hnone
  · intro hend
    by_contra hno
    have hnone : v.find name (FatFs.endOfChain + 1) c b = none := by
      cases hfind : v.find name (FatFs.endOfChain + 1) c b with
      | none => rfl
      | some r => exact absurd ⟨_, r, hfind⟩ hno
    obtain ⟨l, d, b', hseg, hlen, hmore⟩ := exists_segment hnone
    -- more clusters than there are numbers below the end marks
    have hdup : ¬ l.Nodup := by
      intro hnodup
      have hsub : l ⊆ List.range FatFs.endOfChain := by
        intro x hx
        exact List.mem_range.mpr (hseg.ok_of_mem hx).1
      have hle := hnodup.length_le_of_subset hsub
      rw [List.length_range] at hle
      omega
    obtain ⟨p, x, hp, hx, ⟨q, rfl⟩, -⟩ := hseg.circle hdup
    rw [List.flatMap_append, FatFs.findEntry_append] at hmore
    cases hscan : FatFs.findEntry name b (p.flatMap v.records) with
    | found e =>
      rw [hscan] at hmore
      cases hmore
    | last =>
      rw [hscan] at hmore
      cases hmore
    | more b₁ => exact hend ⟨p, x, b₁, hp, hx, hscan⟩

end Volume

end Hausboot

import Hausboot.Fat.Grow
import Hausboot.FatEdit.Lookup
import Hausboot.FatEdit.Writer

/-! # The fatedit Tool: mkdir and pack

    A successful `mkdir` or `pack` is a step `Vol.Adds` of the volume in memory:
    a new chain for the directory or the file, and a record of it behind the
    body of the parent. -/

open ByteLib Prog

namespace Hausboot.FatEdit

open FatDirent Session

variable {super : FatSuper} {s s₁ s' : Session}

/-! ## Section 1: The checks -/

theorem checkEntryNotInDir_ok {cluster size : Nat} {name : Bytes} :
    checkEntryNotInDir super s cluster name = .ok size ↔
      ∃ es, scanDirectory super s (dirReader cluster) = .ok (es, size) ∧
        es.any (fun it => it.shortName == name || it.longName == name) = false := by
  unfold checkEntryNotInDir
  cases hscan : scanDirectory super s (dirReader cluster) with
  | error f => simp [bind, Except.bind]
  | ok r =>
    obtain ⟨es, t⟩ := r
    show (if (es.any fun it => it.shortName == name || it.longName == name) = true then
      Except.error _ else Except.ok t) = Except.ok size ↔ _
    by_cases hany : (es.any fun it => it.shortName == name || it.longName == name) = true
    · rw [if_pos hany]
      constructor
      · intro h
        cases h
      · rintro ⟨es', heq, hno⟩
        cases heq
        rw [hany] at hno
        cases hno
    · rw [if_neg hany]
      constructor
      · intro h
        cases h
        exact ⟨es, rfl, Bool.eq_false_iff.mpr hany⟩
      · rintro ⟨es', heq, -⟩
        cases heq
        rfl

theorem locate_ok {path : List Bytes} {name : Bytes} {parent : DirEntry} {size : Nat} :
    locate super s path name = .ok (parent, size) ↔
      findParent super s path = .ok parent ∧
        ∃ es, scanDirectory super s (dirReader parent.firstCluster) = .ok (es, size) ∧
          es.any (fun it => it.shortName == name || it.longName == name) = false := by
  rw [← checkEntryNotInDir_ok]
  unfold locate
  cases hparent : findParent super s path with
  | error f => simp [bind, Except.bind]
  | ok p =>
    cases hcheck : checkEntryNotInDir super s p.firstCluster name with
    | error f =>
      simp only [bind, Except.bind, hcheck, reduceCtorEq, Except.ok.injEq, false_iff, not_and]
      rintro rfl
      rw [hcheck]
      simp
    | ok n =>
      simp only [bind, Except.bind, hcheck, Except.ok.injEq, Prod.mk.injEq]
      constructor
      · rintro ⟨rfl, rfl⟩
        exact ⟨rfl, hcheck⟩
      · rintro ⟨rfl, h⟩
        rw [hcheck] at h
        exact ⟨rfl, Except.ok.inj h⟩

/-- The directory that a new record goes to, and where its body ends. -/
structure Target (super : FatSuper) (s : Session) (P size : Nat) (lP : List Nat) : Prop where
  dir : ∃ p, (memView super s).IsDir P p
  chain : (memView super s).Chain P lP
  ne_nil : lP ≠ []
  size_eq : size = sizeof * (body ((memView super s).content lP)).length
  size_le : size ≤ lP.length * bytesPerCluster super

theorem target_of_locate (hs : s.Ok super) (hwf : (memView super s).WellFormed)
    {path : List Bytes} (hpath : ∀ x ∈ path, Component x) {name : Bytes} {parent : DirEntry}
    {size : Nat} (h : locate super s path name = .ok (parent, size)) :
    ∃ lP, Target super s parent.firstCluster size lP := by
  obtain ⟨hparent, es, hscan, -⟩ := locate_ok.mp h
  obtain ⟨p, hdir⟩ := findParent_isDir hs hwf hpath hparent
  obtain ⟨l, gs, hch, hne, hgs, heq⟩ := dir_scan hs hwf hdir
  rw [heq] at hscan
  obtain ⟨-, -, -, rfl⟩ := scanned_ok.mp hscan
  have hlen : ((memView super s).content l).length = l.length * bytesPerCluster super :=
    Vol.length_content hwf.toSane fun x hx => hch.valid hx
  exact ⟨l, ⟨p, hdir⟩, hch, hne, rfl, hlen ▸ length_body_le _⟩

/-! ## Section 2: Adding the record -/

/-- Too few clusters are free for a file of `m` bytes, a record and a
    terminator at the end of a directory. -/
def Crowded (super : FatSuper) (s : Session) (m size : Nat) (lP : List Nat) : Prop :=
  (memView super s).freeSet.card < Vol.clustersFor (bytesPerCluster super) m ∨
  ((memView super s).freeSet.card - Vol.clustersFor (bytesPerCluster super) m + lP.length) *
    bytesPerCluster super < size + 2 * sizeof

/-- The body of a directory ends in front of its last cluster. -/
def EndsEarly (super : FatSuper) (size : Nat) (lP : List Nat) : Prop :=
  1 < lP.length ∧ size ≤ (lP.length - 1) * bytesPerCluster super

/-- How the end of `mkdir` or `pack` can fail. -/
def AddFails (super : FatSuper) (s : Session) (m size : Nat) (lP : List Nat) (e : Fail) : Prop :=
  (e = .throw .noFreeCluster ∧ Crowded super s m size lP) ∨
  (e = .throw .chainNotTerminated ∧ EndsEarly super size lP)

/-- What the end of `mkdir` or `pack` does: the record `r first` of a new chain
    with the bytes `d first` is added. -/
def Added (super : FatSuper) (s : Session) (P : Nat) (lP : List Nat) (r : Nat → FatDirent)
    (d : Nat → Bytes) (s' : Session) : Prop :=
  Kept super s s' ∧ ∃ first v₁ w w₁ w₂,
    Vol.Adds (memView super s) v₁ (memView super s') P first lP w w₁ w₂ (r first) (d first) ∧
    Vol.Fits P first (r first) (d first) ∧ (w.pre = [] ∨ 0 < w.offset)

theorem addEntry_spec (hs : s.Ok super) (hv : (memView super s).Sane) {P size : Nat}
    {lP : List Nat} (ht : Target super s P size lP) (hkept : Kept super s s₁) {first : Nat}
    {d : Bytes} {w₁ : Vol.Cursor}
    (hnew : (memView super s).NewChain first d (memView super s₁) w₁) {isDir : Bool}
    {name : Bytes} {fileSize : Nat} :
    Holds (appendDirectoryEntry super P size isDir name first fileSize) s₁
      (fun _ s' => Kept super s s' ∧ ∃ w w₂,
        Vol.Adds (memView super s) (memView super s₁) (memView super s') P first lP w w₁ w₂
          (entryRecord isDir name first fileSize) d ∧ (w.pre = [] ∨ 0 < w.offset))
      (fun e _ => AddFails super s d.length size lP e) := by
  have hs₁ := hs.kept hkept
  obtain ⟨hv₁, hw₁⟩ := hnew.atEnd hv
  have hch₁ : (memView super s₁).Chain P lP := ht.chain.frame hnew.geometry.1 fun x hx =>
    (hnew.frame_used hv (ht.chain.used hx)).1
  have hlt := chain_bytes_lt hs ht.chain
  have hsize32 : size < 2 ^ 32 := Nat.lt_of_le_of_lt ht.size_le hlt
  apply (appendDirectoryEntry_spec hs₁ hv₁ hch₁ ht.ne_nil ht.size_le hsize32 isDir name first
    fileSize).mono
  · intro _ s' h
    obtain ⟨hkept', w, w₂, hcursor, hat, hpos, hpre, happ⟩ := h
    exact ⟨hkept.trans hkept', w, w₂, ⟨ht.chain, hnew, hat, hcursor, hpos.trans ht.size_eq, happ⟩,
      hpre⟩
  · intro e s' h
    rcases h with ⟨he, hlen, hle⟩ | ⟨he, hlt⟩
    · exact .inr ⟨he, hlen, hle⟩
    · refine .inl ⟨he, .inr ?_⟩
      have hcard := hnew.card_freeSet hv
      rw [hnew.length_chain hv] at hcard
      -- the clusters of the new file are gone by now
      have hclusters : (memView super s).freeSet.card -
          Vol.clustersFor (bytesPerCluster super) d.length = (memView super s₁).freeSet.card :=
        Nat.sub_eq_of_eq_add hcard.symm
      rw [length_terminated (length_entryRecord _ _ _ _)] at hlt
      rwa [hclusters]

theorem first_lt (hs : s.Ok super) {first : Nat} {d : Bytes} {v' : Vol} {w : Vol.Cursor}
    (hnew : (memView super s).NewChain first d v' w) : first < 2 ^ 32 := by
  have hlt : first < dataClusters super := hnew.1
  have hcount := hs.layout.dataClusters_lt
  unfold endMark at hcount
  omega

/-! ## Section 3: mkdir -/

/-- The bytes that a new directory begins with. -/
def dotBytes (parent first : Nat) : Bytes :=
  (dotRecord (lit ".") first).raw ++ terminated (dotRecord (lit "..") parent)

theorem length_dotBytes (parent first : Nat) : (dotBytes parent first).length = 96 := by
  rw [dotBytes, List.length_append, length_dotRecord, length_terminated (length_dotRecord _ _)]
  rfl

theorem lit_dot : lit "." = [0x2E] ∧ lit ".." = [0x2E, 0x2E] := by decide

/-- The part of `CreateDirectory` behind its checks. -/
def makeDirectory (super : FatSuper) (P size : Nat) (name : Bytes) : M Unit := do
  let index ← initializeEmptyDirectory super P
  appendDirectoryEntry super P size true name index 0

theorem dir_fits (hwf : (memView super s).WellFormed) {P : Nat}
    (hdir : ∃ p, (memView super s).IsDir P p) {name : Bytes} (hname : isShortName name = true)
    {first : Nat} (hfirst : first < 2 ^ 32) :
    Vol.Fits P first (entryRecord true name first 0) (dotBytes P first) where
  length := length_entryRecord _ _ _ _
  notLast := isLastInList_entryRecord _ hname
  isLive := isLive_entryRecord _ hname
  notDot := isDot_entryRecord _ hname
  clusterIndex := clusterIndex_entryRecord _ _ hfirst
  size := by
    rw [size_entryRecord _ _ (by omega)]
    exact Nat.zero_le _
  -- the contents are the two dot records
  newDir _ := by
    obtain ⟨p, hdir⟩ := hdir
    have hP : P < 2 ^ 32 := by
      have hlt := (hdir.valid hwf.toSound).lt_endMark hwf.toSane
      unfold endMark at hlt
      omega
    refine ⟨dotRecord (lit ".") first, dotRecord (lit "..") P, rfl, ?_, ?_, ?_⟩
    · rw [lit_dot.1]
      exact dotRecord_spec hfirst (.inl rfl)
    · rw [lit_dot.2]
      exact dotRecord_spec hP (.inr rfl)
    · intro x hx
      rcases List.mem_cons.mp hx with rfl | hx
      · exact ⟨length_dotRecord _ _, by rw [lit_dot.1]; exact isLastInList_dotRecord _ (.inl rfl)⟩
      · rw [List.mem_singleton.mp hx]
        exact ⟨length_dotRecord _ _, by rw [lit_dot.2]; exact isLastInList_dotRecord _ (.inr rfl)⟩

theorem makeDirectory_spec (hs : s.Ok super) (hwf : (memView super s).WellFormed) {P size : Nat}
    {lP : List Nat} (ht : Target super s P size lP) {name : Bytes}
    (hname : isShortName name = true) :
    Holds (makeDirectory super P size name) s
      (fun _ s' => Added super s P lP (fun x => entryRecord true name x 0) (dotBytes P) s')
      (fun e _ => AddFails super s 96 size lP e) := by
  unfold makeDirectory
  apply holds_bind
  apply (initializeEmptyDirectory_spec hs hwf.toSane P).mono
  · intro x s₁ h
    obtain ⟨hkept, w₁, hnew⟩ := h
    have hfits := dir_fits hwf ht.dir hname (first_lt hs hnew)
    apply (addEntry_spec hs hwf.toSane ht hkept hnew).mono
    · intro _ s' h'
      obtain ⟨hkept', w, w₂, hadds, hpre⟩ := h'
      exact ⟨hkept', x, _, w, w₁, w₂, hadds, hfits, hpre⟩
    · intro e _ he
      have hlen := length_dotBytes P x
      unfold dotBytes at hlen
      rwa [hlen] at he
  · intro e s₁ h
    -- not even the first cluster was left
    refine .inl ⟨h.1, .inl ?_⟩
    rw [h.2, Finset.card_empty]
    exact Nat.lt_of_lt_of_le Nat.zero_lt_one (Nat.le_max_left _ _)

theorem AddFails.throws {m size : Nat} {lP : List Nat} {e : Fail}
    (h : AddFails super s m size lP e) : ∃ x, e = .throw x := by
  rcases h with ⟨he, -⟩ | ⟨he, -⟩
  · exact ⟨_, he⟩
  · exact ⟨_, he⟩

/-- `mkdir` makes the directory `name` in the directory with the entry `parent`. -/
def MakesDir (super : FatSuper) (s : Session) (args name : Bytes) (parent : DirEntry) (size : Nat)
    (lP : List Nat) (s' : Session) : Prop :=
  (splitPath args).getLast? = some name ∧ isShortName name = true ∧
    locate super s (splitPath args) name = .ok (parent, size) ∧
    Target super s parent.firstCluster size lP ∧
    Added super s parent.firstCluster lP (fun x => entryRecord true name x 0)
      (dotBytes parent.firstCluster) s'

/-- `CreateDirectory` adds a directory, or changes nothing, or throws. Only an
    empty path leaves nothing to do. -/
theorem createDirectory_spec (hs : s.Ok super) (hwf : (memView super s).WellFormed)
    (args : Bytes) :
    Holds (createDirectory super args) s
      (fun _ s' => (splitPath args = [] ∧ s' = s) ∨
        ∃ name parent size lP, MakesDir super s args name parent size lP s')
      (fun e s' => s' = s ∨ ∃ x, e = .throw x) := by
  unfold createDirectory
  dsimp only
  cases hlast : (splitPath args).getLast? with
  | none => exact holds_pure (.inl ⟨List.getLast?_eq_none_iff.mp hlast, rfl⟩)
  | some name =>
    dsimp only
    by_cases hname : isShortName name = true
    · rw [if_neg (by simp [hname])]
      split
      · exact holds_throw (.inl rfl)
      · apply holds_bind
        apply holds_reading
        · intro it hloc
          obtain ⟨parent, size⟩ := it
          -- the parent has been found, and no entry of that name in it
          obtain ⟨lP, ht⟩ := target_of_locate hs hwf (splitPath_component args) hloc
          apply (makeDirectory_spec hs hwf ht hname).mono
          · intro _ s' hadded
            exact .inr ⟨name, parent, size, lP, hlast, hname, hloc, ht, hadded⟩
          · intro e s' he
            exact .inr he.throws
        · intro e _
          exact .inl rfl
    · rw [if_pos (by simpa using hname)]
      exact holds_throw (.inl rfl)

/-! ## Section 4: pack -/

/-- The part of `PackDirectory` behind its checks. -/
def packFile (super : FatSuper) (P size : Nat) (name input contents : Bytes) (fails : Bool) :
    M Unit := do
  let wr ← FileWriter.create super
  let wr ← packLoop super fails (contents.length + 1) wr contents
  print (lit "Packed `" ++ input ++ lit "`\n")
  appendDirectoryEntry super P size false name wr.firstCluster wr.totalSize

theorem file_fits {name : Bytes} (hname : isShortName name = true) {P first : Nat}
    (hfirst : first < 2 ^ 32) {contents : Bytes} (hlen : contents.length < 2 ^ 32) :
    Vol.Fits P first (entryRecord false name first contents.length) contents where
  length := length_entryRecord _ _ _ _
  notLast := isLastInList_entryRecord _ hname
  isLive := isLive_entryRecord _ hname
  notDot := isDot_entryRecord _ hname
  clusterIndex := clusterIndex_entryRecord _ _ hfirst
  size := by
    rw [size_entryRecord _ _ hlen]
    exact Nat.le_refl _
  newDir hdir := by
    rw [isDirectory_entryRecord] at hdir
    cases hdir

theorem packFile_spec (hs : s.Ok super) (hwf : (memView super s).WellFormed) {P size : Nat}
    {lP : List Nat} (ht : Target super s P size lP) {name : Bytes}
    (hname : isShortName name = true) (input contents : Bytes) (fails : Bool) :
    Holds (packFile super P size name input contents fails) s
      (fun _ s' => fails = false ∧ contents.length < 2 ^ 32 ∧
        Added super s P lP (fun x => entryRecord false name x contents.length) (fun _ => contents) s')
      (fun e _ => (fails = true ∧ e = .throw .readError) ∨
        AddFails super s contents.length size lP e) := by
  have hv := hwf.toSane
  have hone : ∀ m, 0 < Vol.clustersFor (bytesPerCluster super) m := fun m =>
    Nat.lt_of_lt_of_le Nat.zero_lt_one (Nat.le_max_left _ _)
  unfold packFile
  apply holds_bind
  apply (create_spec hs).mono
  · intro wr s₀ h₀
    obtain ⟨hkept₀, htotal₀, hat₀, hnew₀⟩ := h₀
    obtain ⟨hv₀, hw₀⟩ := hnew₀.atEnd hv
    apply holds_bind
    apply (packLoop_spec (hs.kept hkept₀) hv₀ hw₀ hat₀ (by omega) fails _ contents
      (Nat.lt_succ_self _)).mono
    · intro wr₁ s₁ h₁
      obtain ⟨hfails, hkept₁, hfirst, htotal, w₁, -, happ⟩ := h₁
      have hnew : (memView super s).NewChain wr.firstCluster contents (memView super s₁) w₁ := by
        have h := hnew₀.append happ
        rwa [List.nil_append] at h
      have hlen : contents.length < 2 ^ 32 := by
        have hle : contents.length ≤ w₁.chain.length * bytesPerCluster super := hnew.length_le hv
        have hcard := hnew.card_freeSet hv
        have hcount : (memView super s).freeSet.card ≤ dataClusters super := by
          have h := Finset.card_filter_le (Finset.range (memView super s).count)
            fun c => (memView super s).next c = 0
          rwa [Finset.card_range] at h
        have hmul : w₁.chain.length * bytesPerCluster super ≤
            dataClusters super * bytesPerCluster super := Nat.mul_le_mul_right _ (by omega)
        have hall := hs.layout.clusters_le
        have hsmall := hs.layout.small
        omega
      have hsize : wr₁.totalSize = contents.length := by
        rw [htotal, htotal₀, Nat.zero_add, u32_of_lt hlen]
      have hfits := file_fits hname (P := P) (first_lt hs hnew) hlen
      apply holds_bind
      apply holds_modify
      rw [hfirst, hsize]
      -- printing changes neither the FAT nor the image
      have hkept₂ : Kept super s { s₁ with cout := s₁.cout ++ (lit "Packed `" ++ input ++ lit "`\n") } :=
        (hkept₀.trans hkept₁).trans ⟨fun _ _ => rfl, rfl, rfl, rfl⟩
      apply (addEntry_spec hs hv ht hkept₂ hnew).mono
      · intro _ s' h'
        obtain ⟨hkept', w, w₂, hadds, hpre⟩ := h'
        exact ⟨hfails, hlen, hkept', wr.firstCluster, _, w, w₁, w₂, hadds, hfits, hpre⟩
      · intro e _ he
        exact .inr he
    · intro e s₁ h₁
      rcases h₁ with hfails | hout
      · exact .inl hfails
      · exact .inr (.inl ⟨hout.1, .inl (hout.new hs hv hnew₀ (by simp))⟩)
  · intro e s₀ h₀
    refine .inr (.inl ⟨h₀.1, .inl ?_⟩)
    rw [h₀.2.2, Finset.card_empty]
    exact hone _

/-- `pack` copies `contents` to the file `name` in the directory with the entry
    `parent`. -/
def PacksFile (super : FatSuper) (s : Session) (host : Host) (args target name : Bytes)
    (parent : DirEntry) (size : Nat) (lP : List Nat) (contents : Bytes) (s' : Session) : Prop :=
  (∃ input, splitPackArgs args = some (input, target) ∧
    host (cstr input) = some (contents, false)) ∧
  (splitPath target).getLast? = some name ∧ isShortName name = true ∧
  locate super s (splitPath target) name = .ok (parent, size) ∧ contents.length < 2 ^ 32 ∧
  Target super s parent.firstCluster size lP ∧
  Added super s parent.firstCluster lP (fun x => entryRecord false name x contents.length)
    (fun _ => contents) s'

/-- `PackDirectory` adds a file, or changes nothing, or throws. Without a
    target path there is nothing to do. -/
theorem packDirectory_spec (hs : s.Ok super) (hwf : (memView super s).WellFormed) (host : Host)
    (args : Bytes) :
    Holds (packDirectory super host args) s
      (fun _ s' => ((∀ input target, splitPackArgs args = some (input, target) →
          splitPath target = []) ∧ s' = s) ∨
        ∃ target name parent size lP contents,
          PacksFile super s host args target name parent size lP contents s')
      (fun e s' => s' = s ∨ ∃ x, e = .throw x) := by
  unfold packDirectory
  -- the checks of the arguments come first, the input is opened last
  cases hargs : splitPackArgs args with
  | none =>
    apply holds_pure
    left
    refine ⟨?_, rfl⟩
    intro input target h
    cases h
  | some it =>
    obtain ⟨input, target⟩ := it
    dsimp only
    split
    · exact holds_throw (.inl rfl)
    · cases hlast : (splitPath target).getLast? with
      | none =>
        apply holds_pure
        left
        refine ⟨?_, rfl⟩
        intro input' target' h
        obtain ⟨-, rfl⟩ := Prod.mk.inj (Option.some.inj h)
        exact List.getLast?_eq_none_iff.mp hlast
      | some name =>
        dsimp only
        by_cases hname : isShortName name = true
        · rw [if_neg (by simp [hname])]
          apply holds_bind
          apply holds_reading
          · intro it hloc
            obtain ⟨parent, size⟩ := it
            obtain ⟨lP, ht⟩ := target_of_locate hs hwf (splitPath_component target) hloc
            cases hhost : host (cstr input) with
            | none => exact holds_throw (.inl rfl)
            | some it =>
              obtain ⟨contents, fails⟩ := it
              apply (packFile_spec hs hwf ht hname input contents fails).mono
              · intro _ s' h
                obtain ⟨rfl, hlen, hadded⟩ := h
                exact .inr ⟨target, name, parent, size, lP, contents, ⟨input, hargs, hhost⟩, hlast,
                  hname, hloc, hlen, ht, hadded⟩
              · intro e s' he
                rcases he with ⟨-, rfl⟩ | he
                · exact .inr ⟨_, rfl⟩
                · exact .inr he.throws
          · intro e _
            exact .inl rfl
        · rw [if_pos (by simpa using hname)]
          exact holds_throw (.inl rfl)

/-! ## Section 5: What is added -/

variable {P : Nat} {lP : List Nat} {r : Nat → FatDirent} {d : Nat → Bytes}

/-- The volume grows by one record. -/
theorem Added.grew (hs : s.Ok super) (hwf : (memView super s).WellFormed) {size : Nat}
    (ht : Target super s P size lP) (h : Added super s P lP r d s') :
    ∃ first lP' lr, first < 2 ^ 32 ∧ (memView super s').Sane ∧
      Vol.Grew (memView super s) (memView super s') P lP lP' (r first) lr ∧
      ((memView super s').content lr).take (d first).length = d first ∧
      (∀ x, (memView super s').entry x = (memView super s).entry x ∨
        (memView super s').entry x < 2 ^ 28) := by
  obtain ⟨-, first, v₁, w, w₁, w₂, hadds, hfits, -⟩ := h
  have hv := hwf.toSane
  exact ⟨first, w₂.chain, w₁.chain, first_lt hs hadds.new, hadds.sane hv, hadds.grew hv ht.dir hfits, hadds.new_take hv,
    hadds.entry_cases hv⟩

end Hausboot.FatEdit

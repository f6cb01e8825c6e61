import Hausboot.Fat.Keeps
import Hausboot.FatEdit.ShortNames

/-! # The fatedit Tool: Aborted Runs

    Data and directory records go to the image at once, the FAT only at the end
    of `main`. A command that throws ends the program in front of that, and the
    image keeps the FAT from the start. It is well formed then as long as only
    clusters were written to that this FAT calls free. -/

open ByteLib Prog

namespace Hausboot.FatEdit

open FatDirent Session

variable {super : FatSuper} {image : ByteVec} {s s' s₁ : Session}

/-! ## Section 1: What the disk still holds -/

/-- Since the start on `image`, only clusters that are free on disk have been
    written to, and no other cluster has become free in memory. -/
structure Session.Sheltered (super : FatSuper) (image : ByteVec) (s : Session) : Prop
    extends s.Ok super where
  front : ∀ i, i < dataStart super → s.file.bytes i = image.bytes i
  keeps : (diskView super image).Keeps (memView super s)

namespace Session.Sheltered

theorem step (hs : s.Sheltered super image) (hkept : Kept super s s')
    (hkeeps : (diskView super image).Keeps (memView super s')) : s'.Sheltered super image where
  toOk := hs.toOk.kept hkept
  front i hi := (hkept.front i hi).trans (hs.front i hi)
  keeps := hkeeps

theorem quiet (hs : s.Sheltered super image) (h : Quiet s s') : s'.Sheltered super image := by
  apply hs.step h.kept
  rw [h.view]
  exact hs.keeps

theorem sane (hs : s.Sheltered super image) (hv : (diskView super image).Sane) :
    (memView super s).Sane :=
  hs.toOk.sane (hs.keeps.used hv.reserved0) (hs.keeps.used hv.reserved1)

/-- The volume on disk has other bytes in its free clusters at most. -/
theorem diskView_eq (hs : s.Sheltered super image) :
    diskView super s.file = (diskView super image).withData (clusterData super s.file) := by
  have hfat := hs.layout.fat_le
  have hmul := Layout.entries_mul_le super
  have hentry : (diskView super s.file).entry = (diskView super image).entry := by
    funext n
    show (if n < fatEntries super then s.file.bytes.readLE (fatStart super + 4 * n) 4 else 0) =
      if n < fatEntries super then image.bytes.readLE (fatStart super + 4 * n) 4 else 0
    by_cases hn : n < fatEntries super
    · rw [if_pos hn, if_pos hn, Store.readLE, Store.readLE]
      congr 1
      apply Store.read_congr
      intro i _ hi
      exact hs.front i (by omega)
    · rw [if_neg hn, if_neg hn]
  exact congrArg (fun entry => { diskView super s.file with entry := entry }) hentry

/-- The image that an exception leaves behind. -/
theorem wellFormed (hs : s.Sheltered super image) (hwf : (diskView super image).WellFormed) :
    (diskView super s.file).WellFormed := by
  rw [hs.diskView_eq]
  apply Vol.WellFormed.withData _ hwf
  · intro c hc
    exact length_clusterData hc s.file
  · intro x hx
    exact hs.keeps.data hx

end Session.Sheltered

theorem sheltered_start (hl : Layout (imageSuper image) image.size)
    (h : start image = .ok (super, s)) : s.Sheltered super image := by
  obtain ⟨rfl, hstarted, hfile, hview⟩ := start_ok hl h
  refine ⟨hstarted.toOk, ?_, ?_⟩
  · intro i _
    rw [hfile]
  · rw [hview]
    exact Vol.Keeps.refl _

/-- A program after which, return or exception, the disk is still sheltered. -/
def Shelters {α : Type} (super : FatSuper) (image : ByteVec) (x : M α) (s : Session)
    (Q : α → Prop) : Prop :=
  Holds x s (fun a s' => s'.Sheltered super image ∧ Q a) fun _ s' => s'.Sheltered super image

theorem Shelters.bind {α β : Type} {x : M α} {f : α → M β} {Q : α → Prop} {R : β → Prop}
    (hx : Shelters super image x s Q)
    (hf : ∀ a s₁, s₁.Sheltered super image → Q a → Shelters super image (f a) s₁ R) :
    Shelters super image (x >>= f) s R := by
  apply holds_bind
  apply hx.mono
  · intro a s₁ h
    exact hf a s₁ h.1 h.2
  · intro e s₁ h
    exact h

theorem shelters_pure {α : Type} {a : α} {Q : α → Prop} (hs : s.Sheltered super image) (h : Q a) :
    Shelters super image (pure a) s Q :=
  holds_pure ⟨hs, h⟩

theorem shelters_throw {α : Type} {e : Fail} {Q : α → Prop} (hs : s.Sheltered super image) :
    Shelters super image (throw e) s Q :=
  holds_throw hs

theorem ReadsOnly.shelters {α : Type} {x : M α} (h : ReadsOnly x) (hs : s.Sheltered super image) :
    Shelters super image x s fun _ => True := by
  apply (h s).mono
  · intro _ s' hquiet
    exact ⟨hs.quiet hquiet, trivial⟩
  · intro _ s' hquiet
    exact hs.quiet hquiet

/-! ## Section 2: Writers -/

/-- The next byte of the writer does not go to a cluster that is used on disk. -/
structure FileWriter.Apart (super : FatSuper) (image : ByteVec) (wr : FileWriter) : Prop where
  valid : (diskView super image).Valid wr.cluster
  offset_le : wr.offset ≤ bytesPerCluster super
  free : (diskView super image).next wr.cluster = 0 ∨ wr.offset = bytesPerCluster super

section Writers

variable (hv : (diskView super image).Sane)
include hv

/-- What is free in memory is free on disk. -/
theorem apart_of_free (hs : s.Sheltered super image) {x : Nat} (hx : x < dataClusters super)
    (hfree : (memView super s).next x = 0) (first total : Nat) :
    FileWriter.Apart super image ⟨x, 0, first, total⟩ where
  valid := (hs.sane hv).valid_of_free hx hfree
  offset_le := Nat.zero_le _
  free := .inl (hs.keeps.free hfree)

theorem create_shelters (hs : s.Sheltered super image) :
    Shelters super image (FileWriter.create super) s fun wr => wr.Apart super image := by
  unfold FileWriter.create
  apply holds_bind
  apply (allocateCluster_spec hs.toOk).mono
  · intro x s₁ h
    obtain ⟨hx, hfree, -, hkept, hview⟩ := h
    apply holds_pure
    refine ⟨hs.step hkept ?_, apart_of_free hv hs hx hfree x 0⟩
    rw [hview]
    exact hs.keeps.setEntry x (by decide)
  · intro e s₁ h
    rw [h.2.1]
    exact hs

theorem appendLoop_shelters (hs : s.Sheltered super image) {wr : FileWriter}
    (hwr : wr.Apart super image) (n : Nat) (data : Bytes) :
    Shelters super image (wr.appendLoop super n data) s fun wr' => wr'.Apart super image := by
  have hlt := bytesPerCluster_lt super
  have hcs := hs.layout.bytesPerCluster_pos
  induction n generalizing s wr data with
  | zero => exact shelters_pure hs hwr
  | succ n ih =>
    unfold FileWriter.appendLoop
    by_cases hd : data = []
    · rw [if_pos hd]
      exact shelters_pure hs hwr
    rw [if_neg hd]
    have hpos := List.length_pos_iff.mpr hd
    rw [spaceAvailable_eq (by omega) hwr.offset_le]
    by_cases hfull : wr.offset = bytesPerCluster super
    · -- the new cluster is free on disk
      rw [if_pos (by omega)]
      apply holds_bind
      apply (allocateClusterAfter_spec hs.toOk hwr.valid).mono
      · intro x s₁ h
        obtain ⟨hx, hfree, -, hkept, hview⟩ := h
        have hnew := apart_of_free hv hs hx hfree wr.firstCluster wr.totalSize
        have hmod : x % 2 ^ 28 ≠ 0 := by
          have h2 : 2 ≤ x := hnew.valid.1
          have hend := hs.layout.dataClusters_lt
          unfold endMark at hend
          rw [Nat.mod_eq_of_lt (by omega)]
          omega
        have hs₁ : s₁.Sheltered super image := by
          apply hs.step hkept
          rw [hview]
          exact hs.keeps.link wr.cluster hmod
        exact ih hs₁ hnew data
      · intro e s₁ h
        rw [h.2.1]
        exact hs
    · have hfree := hwr.free.resolve_right hfull
      have hle := hwr.offset_le
      rw [if_neg (by omega)]
      generalize hdiff : min (bytesPerCluster super - wr.offset) data.length = diff
      have htake : (data.take diff).length = diff := List.length_take_of_le (by omega)
      have hne : data.take diff ≠ [] := by
        intro hnil
        rw [hnil] at htake
        simp only [List.length_nil] at htake
        omega
      obtain ⟨s₁, hwrite, -, hkept, hview⟩ :=
        writeCluster_spec hs.toOk (c := wr.cluster) hwr.valid (o := wr.offset) (by omega) hne
      apply holds_bind
      apply holds_of_ok hwrite
      have hs₁ : s₁.Sheltered super image := by
        apply hs.step hkept
        rw [hview]
        exact hs.keeps.setData hfree _
      have hoffset : u32 (wr.offset + diff) = wr.offset + diff := u32_of_lt (by omega)
      apply ih hs₁
      exact ⟨hwr.valid, by dsimp only; omega, .inl hfree⟩

theorem append_shelters (hs : s.Sheltered super image) {wr : FileWriter}
    (hwr : wr.Apart super image) (data : Bytes) :
    Shelters super image (wr.append super data) s fun wr' => wr'.Apart super image :=
  appendLoop_shelters hv hs hwr _ data

theorem packLoop_shelters (hs : s.Sheltered super image) {wr : FileWriter}
    (hwr : wr.Apart super image) (fails : Bool) (n : Nat) (rest : Bytes) :
    Shelters super image (packLoop super fails n wr rest) s fun wr' => wr'.Apart super image := by
  induction n generalizing s wr rest with
  | zero => exact shelters_throw hs
  | succ n ih =>
    unfold packLoop
    split
    · exact shelters_throw hs
    · split
      · exact shelters_pure hs hwr
      · exact (append_shelters hv hs hwr _).bind fun wr' s₁ hs₁ hwr' => ih hs₁ hwr' _

theorem initializeEmptyDirectory_shelters (hs : s.Sheltered super image) (parentIdx : Nat) :
    Shelters super image (initializeEmptyDirectory super parentIdx) s fun _ => True := by
  unfold initializeEmptyDirectory
  apply (create_shelters hv hs).bind
  intro wr s₁ hs₁ hwr
  apply (append_shelters hv hs₁ hwr _).bind
  intro wr₁ s₂ hs₂ hwr₁
  apply (append_shelters hv hs₂ hwr₁ _).bind
  intro wr₂ s₃ hs₃ hwr₂
  apply (append_shelters hv hs₃ hwr₂ _).bind
  intro wr₃ s₄ hs₄ _
  exact shelters_pure hs₄ trivial

end Writers

/-! ## Section 3: Where the record goes -/

/-- Behind a new file of `m` bytes, the record would go to the last cluster of
    the directory, and this cluster is used on disk. -/
def Harms (super : FatSuper) (image : ByteVec) (s : Session) (m size : Nat) (lP : List Nat) :
    Prop :=
  Vol.clustersFor (bytesPerCluster super) m ≤ (memView super s).freeSet.card ∧
  ¬ EndsEarly super size lP ∧ size < lP.length * bytesPerCluster super ∧
  ∃ c, lP.getLast? = some c ∧ (diskView super image).next c ≠ 0

section Record

variable (hv : (diskView super image).Sane)
include hv

/-- A record that does not go to a cluster that is used on disk. -/
theorem appendDirectoryEntry_shelters (hs : s.Sheltered super image) {P size : Nat}
    {lP : List Nat} (ht : Target super s P size lP) (hs₁ : s₁.Sheltered super image) {first : Nat}
    {d : Bytes} {w₁ : Vol.Cursor} (hnew : (memView super s).NewChain first d (memView super s₁) w₁)
    (hharm : ¬ Harms super image s d.length size lP) (isDir : Bool) (name : Bytes)
    (fileSize : Nat) :
    Shelters super image (appendDirectoryEntry super P size isDir name first fileSize) s₁
      fun _ => True := by
  have hsane := hs.sane hv
  have hch₁ : (memView super s₁).Chain P lP := ht.chain.frame hnew.geometry.1 fun x hx =>
    (hnew.frame_used hsane (ht.chain.used hx)).1
  have hlt := chain_bytes_lt hs.toOk ht.chain
  have hsize32 : size < 2 ^ 32 := Nat.lt_of_le_of_lt ht.size_le hlt
  unfold appendDirectoryEntry
  rw [u32_of_lt hsize32]
  -- the writer starts in a cluster that the disk does not use
  have hreopen : Shelters super image (reading (FileWriter.reopen super · P size)) s₁
      fun wr => wr.Apart super image := by
    apply holds_reading
    · intro wr hwr
      refine ⟨hs₁, ?_⟩
      rcases reopen_spec hs₁.toOk hch₁ ht.ne_nil ht.size_le with
        ⟨w, heq, hchain, hw, hpos, hpre⟩ | ⟨heq, -⟩
      · rw [heq] at hwr
        obtain rfl := Except.ok.inj hwr
        have hle : w.offset ≤ bytesPerCluster super := hw.offset_le
        refine ⟨hw.valid_last, hle, ?_⟩
        -- else there is space left in it, and the command is harmful
        by_contra hused
        obtain ⟨hused, hoffset⟩ := not_or.mp hused
        have hlen : lP.length = w.pre.length + 1 := by
          rw [← hchain, Vol.Cursor.chain, List.length_append, List.length_singleton]
        have hpos : w.pre.length * bytesPerCluster super + w.offset = size := hpos
        apply hharm
        refine ⟨?_, ?_, ?_, w.last, ?_, hused⟩
        · have hcard := hnew.card_freeSet hsane
          rw [hnew.length_chain hsane] at hcard
          exact Nat.le_of_add_left_le (Nat.le_of_eq hcard)
        · rintro ⟨hmore, hearly⟩
          rw [hlen, Nat.add_sub_cancel] at hearly
          rcases hpre with hnil | hsome
          · rw [hlen, hnil] at hmore
            exact absurd hmore (by decide)
          · omega
        · rw [hlen, Nat.succ_mul]
          dsimp only at hoffset
          omega
        · rw [← hchain, Vol.Cursor.chain, List.getLast?_concat]
      · rw [heq] at hwr
        cases hwr
    · intro e _
      exact hs₁
  apply hreopen.bind
  intro wr s₂ hs₂ hwr
  apply (append_shelters hv hs₂ hwr _).bind
  intro wr₁ s₃ hs₃ hwr₁
  apply (append_shelters hv hs₃ hwr₁ _).bind
  intro wr₂ s₄ hs₄ _
  exact shelters_pure hs₄ trivial

theorem makeDirectory_shelters (hs : s.Sheltered super image) {P size : Nat} {lP : List Nat}
    (ht : Target super s P size lP) (hharm : ¬ Harms super image s 96 size lP) (name : Bytes) :
    Shelters super image (makeDirectory super P size name) s fun _ => True := by
  unfold makeDirectory
  apply holds_bind
  have hspec := initializeEmptyDirectory_spec hs.toOk (hs.sane hv) P
  apply (hspec.and (initializeEmptyDirectory_shelters hv hs P)).mono
  · intro x s₁ h
    obtain ⟨⟨-, w₁, hnew⟩, hs₁, -⟩ := h
    have hlen : (dotBytes P x).length = 96 := length_dotBytes P x
    exact appendDirectoryEntry_shelters hv hs ht hs₁ (d := dotBytes P x) hnew (by rwa [hlen]) _ _ _
  · intro e s₁ h
    exact h.2

theorem packFile_shelters (hs : s.Sheltered super image) {P size : Nat} {lP : List Nat}
    (ht : Target super s P size lP) (name input contents : Bytes) (fails : Bool)
    (hharm : fails = false → ¬ Harms super image s contents.length size lP) :
    Shelters super image (packFile super P size name input contents fails) s fun _ => True := by
  have hsane := hs.sane hv
  unfold packFile
  apply holds_bind
  apply ((create_spec hs.toOk).and (create_shelters hv hs)).mono
  · intro wr s₀ h
    obtain ⟨⟨hkept₀, htotal₀, hat₀, hnew₀⟩, hs₀, hwr⟩ := h
    obtain ⟨hv₀, hw₀⟩ := hnew₀.atEnd hsane
    have hspec := packLoop_spec hs₀.toOk hv₀ hw₀ hat₀ (by omega) fails _ contents
      (Nat.lt_succ_self _)
    apply holds_bind
    apply (hspec.and (packLoop_shelters hv hs₀ hwr fails _ contents)).mono
    · intro wr₁ s₁ h
      obtain ⟨⟨hfails, -, hfirst, -, w₁, -, happ⟩, hs₁, -⟩ := h
      have hnew : (memView super s).NewChain wr.firstCluster contents (memView super s₁) w₁ := by
        have h := hnew₀.append happ
        rwa [List.nil_append] at h
      apply holds_bind
      apply holds_modify
      rw [hfirst]
      -- printing changes neither the FAT nor the image
      have hs₂ : Session.Sheltered super image
          { s₁ with cout := s₁.cout ++ (lit "Packed `" ++ input ++ lit "`\n") } :=
        hs₁.quiet ⟨rfl, rfl, rfl⟩
      exact appendDirectoryEntry_shelters hv hs ht hs₂ hnew (hharm hfails) _ _ _
    · intro e s₁ h
      exact h.2
  · intro e s₀ h
    exact h.2

end Record

/-! ## Section 4: Lines and runs -/

/-- The number of bytes in the new chain when the record is stored: the three
    records of a directory, or a file that can be read to its end. -/
def chainBytes : Command → Host → Bytes → Option Nat
  | .mkdir, _, _ => some (3 * sizeof)
  | .pack, host, args =>
    match (splitPackArgs args).bind fun it => host (cstr it.1) with
    | some (contents, false) => some contents.length
    | _ => none
  | .dir, _, _ => none
  | .type, _, _ => none

/-- The line stores a record in a cluster that is used on disk. -/
def Exposes (super : FatSuper) (image : ByteVec) (s : Session) (host : Host) (line : Bytes) :
    Prop :=
  ∃ c args name m parent size lP, parseLine line = .command c args ∧
    (typedPath c args).getLast? = some name ∧ acceptsName c name = true ∧
    chainBytes c host args = some m ∧
    locate super s (typedPath c args) name = .ok (parent, size) ∧
    (memView super s).Chain parent.firstCluster lP ∧ Harms super image s m size lP

/-- No line that is executed does so. -/
def NeverExposes (super : FatSuper) (image : ByteVec) (s : Session) (input : List (Bytes × Host)) :
    Prop :=
  ∀ pre line host post s₁, input = pre ++ (line, host) :: post →
    runLines super pre s = .ok () s₁ → ¬ Exposes super image s₁ host line

section Lines

variable (hwf : (diskView super image).WellFormed)
include hwf

theorem callback_shelters (hsound : s.Sound super) (hs : s.Sheltered super image) {host : Host}
    {line : Bytes} {c : Command} {args : Bytes} (hline : parseLine line = .command c args)
    (hsafe : ¬ Exposes super image s host line) :
    Shelters super image (c.callback super host args) s fun _ => True := by
  have hv := hwf.toSane
  cases c with
  | dir => exact (readsOnly_listDirectory super args).shelters hs
  | type => exact (readsOnly_dumpFile super args).shelters hs
  | mkdir =>
    show Shelters super image (createDirectory super args) s _
    unfold createDirectory
    dsimp only
    cases hlast : (splitPath args).getLast? with
    | none => exact shelters_pure hs trivial
    | some name =>
      dsimp only
      split
      · exact shelters_throw hs
      next hname =>
      split
      · exact shelters_throw hs
      next hdot =>
      apply holds_bind
      apply holds_reading
      · intro it hloc
        obtain ⟨parent, size⟩ := it
        obtain ⟨lP, ht⟩ :=
          target_of_locate hsound.toOk hsound.wellFormed (splitPath_component args) hloc
        -- the line is harmful exactly if the command is
        apply makeDirectory_shelters hv hs ht
        intro hharm
        apply hsafe
        refine ⟨.mkdir, args, name, _, parent, size, lP, hline, hlast, ?_, rfl, hloc, ht.chain,
          hharm⟩
        simpa [acceptsName] using ⟨by simpa using hname, by simpa using hdot⟩
      · intro e _
        exact hs
  | pack =>
    show Shelters super image (packDirectory super host args) s _
    unfold packDirectory
    cases hargs : splitPackArgs args with
    | none => exact shelters_pure hs trivial
    | some it =>
      obtain ⟨input, target⟩ := it
      dsimp only
      split
      · exact shelters_throw hs
      cases hlast : (splitPath target).getLast? with
      | none => exact shelters_pure hs trivial
      | some name =>
        dsimp only
        split
        · exact shelters_throw hs
        next hname =>
        apply holds_bind
        apply holds_reading
        · intro it hloc
          obtain ⟨parent, size⟩ := it
          obtain ⟨lP, ht⟩ :=
            target_of_locate hsound.toOk hsound.wellFormed (splitPath_component target) hloc
          dsimp only
          cases hhost : host (cstr input) with
          | none => exact shelters_throw hs
          | some it =>
            obtain ⟨contents, fails⟩ := it
            apply packFile_shelters hv hs ht name input contents fails
            rintro rfl hharm
            -- the same path and the same number of bytes, read off the line
            have hpath := typedPath_pack hargs
            have hbytes : chainBytes .pack host args = some contents.length := by
              rw [chainBytes, hargs, Option.bind_some, hhost]
            apply hsafe
            exact ⟨.pack, args, name, _, parent, size, lP, hline, by rwa [hpath],
              by simpa [acceptsName] using hname, hbytes, by rwa [hpath], ht.chain, hharm⟩
        · intro e _
          exact hs

/-- One line: whether it returns or throws, the disk is still sheltered. -/
theorem runLine_shelters (hsound : s.Sound super) (hs : s.Sheltered super image) {host : Host}
    {line : Bytes} (hsafe : ¬ Exposes super image s host line) :
    Holds (runLine super host line) s (fun _ s' => s'.Sheltered super image)
      (fun _ s' => s'.Sheltered super image) := by
  unfold runLine
  cases hline : parseLine line with
  | ignored => exact holds_pure hs
  | unknown text =>
    apply holds_modify
    exact hs.quiet ⟨rfl, rfl, rfl⟩
  | command c args =>
    have hspec := callback_shelters hwf hsound hs hline hsafe
    unfold handled Holds
    dsimp only
    cases hrun : c.callback super host args s with
    | ok _ s₁ => exact (hspec.of_ok hrun).1
    | error e s₁ =>
      have hs₁ := hspec.of_error hrun
      cases e with
      | throw x => exact hs₁
      | refuse msg => exact hs₁.quiet ⟨rfl, rfl, rfl⟩

theorem runLines_shelters {input : List (Bytes × Host)} (hsound : s.Sound super)
    (hs : s.Sheltered super image) (hsafe : NeverExposes super image s input) :
    Holds (runLines super input) s (fun _ s' => s'.Sheltered super image)
      (fun _ s' => s'.Sheltered super image) := by
  induction input generalizing s with
  | nil => exact holds_pure hs
  | cons it input ih =>
    obtain ⟨line, host⟩ := it
    have hfirst := hsafe [] line host input s rfl rfl
    unfold runLines
    apply holds_bind
    have hspec := runLine_shelters hwf hsound hs hfirst
    cases hline : runLine super host line s with
    | error e s₁ => exact holds_of_error hline (hspec.of_error hline)
    | ok _ s₁ =>
      apply holds_of_ok hline
      have hsound₁ := hsound.step (runLine_step hsound.toOk hsound.wellFormed hline)
      apply ih hsound₁ (hspec.of_ok hline)
      -- a run of the rest is a run behind this line
      intro pre line' host' post s₂ hinput hpre
      apply hsafe ((line, host) :: pre) line' host' post s₂
      · rw [hinput, List.cons_append]
      · unfold runLines
        exact bind_eq_ok.mpr ⟨_, s₁, hline, hpre⟩

end Lines

/-- A command that throws ends the program as it is. -/
theorem main_of_throw {input : List (Bytes × Host)} {e : Exn} (hstart : start image = .ok (super, s))
    (h : runLines super input s = .error e s') : main image input = .error e s'.file := by
  have hrun : (do runLines super input; handled (finish super)) s = .error e s' := by
    show EStateM.bind (runLines super input) _ s = .error e s'
    rw [EStateM.bind, h]
  unfold main
  rw [hstart]
  dsimp only
  rw [hrun]

/-- The super block lies in front of what the commands write. -/
theorem Session.Sheltered.imageSuper_eq (hs : s.Sheltered super image)
    (h : super.fsInfoIndex < super.reservedSectors) : imageSuper s.file = imageSuper image := by
  have hfirst := reserved_le hs.layout (Nat.zero_lt_of_lt h)
  have hfat := hs.layout.fat_le
  have hread : s.file.bytes.read 0 512 = image.bytes.read 0 512 := by
    apply Store.read_congr
    intro i _ hi
    exact hs.front i (by omega)
  rw [imageSuper, hread, imageSuper]

/-- A `pack` of a file that is not there, in front of everything else. -/
def missingInput : List (Bytes × Host) := [(lit "pack input B", fun _ => none)]

theorem missingInput_neverExposes (super : FatSuper) (image : ByteVec) (s : Session) :
    NeverExposes super image s missingInput := by
  rintro pre line host post s₁ hinput - ⟨c, args, name, m, parent, size, lP, hline, -, -, hm, -⟩
  have hmem : (line, host) ∈ missingInput := by simp [hinput]
  obtain ⟨rfl, rfl⟩ := Prod.mk.inj (List.mem_singleton.mp hmem)
  cases hline
  cases hm

set_option maxRecDepth 3000

/-- The same behind a `mkdir`. -/
def mkdirThenMissing : List (Bytes × Host) := (lit "mkdir A", fun _ => none) :: missingInput

/-- A record in a root directory in cluster 2 leads to a free cluster. -/
def danglingAtRoot (image : ByteVec) : Bool :=
  let v := diskView (imageSuper image) image
  v.root = 2 && 0 < v.count && endMark ≤ v.next 2 &&
    (live (v.content [2])).any fun r => !r.isDot && r.clusterIndex ≠ 0 && v.next r.clusterIndex = 0

theorem not_wellFormed_of_dangling (h : danglingAtRoot image = true) :
    ¬ (diskView (imageSuper image) image).WellFormed := by
  unfold danglingAtRoot at h
  simp only [Bool.and_eq_true, decide_eq_true_eq, List.any_eq_true, Bool.not_eq_true'] at h
  obtain ⟨⟨⟨hroot, hcount⟩, hmark⟩, r, hr, ⟨hdot, hzero⟩, hfree⟩ := h
  intro hwf
  have hdir := Vol.IsDir.root (v := diskView (imageSuper image) image)
  rw [hroot] at hdir
  have hvalid : (diskView (imageSuper image) image).Valid 2 := ⟨by omega, by omega⟩
  obtain ⟨lr, hent⟩ := hwf.entries hdir (.link (by decide) hvalid (.done hmark)) hr hdot
  rcases hent with ⟨hch, hne, -⟩ | ⟨-, -, hnone, -⟩
  · exact hch.used (hch.head_mem hne) hfree
  · exact hzero hnone

end Hausboot.FatEdit

import Hausboot.Agree.Device

/-! # Loader and Tool: Packed Files

    A session of `fatedit` on a freshly formatted image makes directories and
    packs files into them. On the image that it leaves behind, stage2 finds
    each of these files and reads the bytes that were packed. -/

open ByteLib Prog

namespace Hausboot

open FatEdit (ByteVec Session Host Command Layout Types Creates parseLine splitPath typedPath start
  runLine runLines packDirectory splitPackArgs diskView memView)

variable {super : FatSuper} {s s' : Session}

/-! ## Section 1: What a line keeps -/

/-- All components of the path that is typed are short names without blanks. -/
def ShortPath (line : Bytes) : Prop :=
  ∀ c args, parseLine line = .command c args →
    ∀ x ∈ typedPath c args, isShortName x = true ∧ 0x20 ∉ x

/-- The record of a short name without blanks can be listed. -/
theorem makeEntry_shown (isDir : Bool) {name : Bytes} (first size : Nat)
    (hname : isShortName name = true) (hblank : 0x20 ∉ name) :
    ∃ e, FatEdit.makeEntry (FatEdit.entryRecord isDir name first size) [] = .ok e := by
  have hhead : (FatEdit.namedRecord name).raw.getD 0 0 ≠ 0x20 := by
    rw [FatDirent.getD_raw_name, FatEdit.name_namedRecord, FatEdit.getD_fixedLength_baseName hname]
    obtain ⟨c, cs, rfl, -⟩ := isShortName_head hname
    rintro rfl
    exact hblank List.mem_cons_self
  have hshown : ∃ str, (FatEdit.namedRecord name).nameToString = some str := by
    unfold FatDirent.nameToString
    rw [if_neg hhead]
    dsimp only
    split
    · exact ⟨_, rfl⟩
    · exact ⟨_, rfl⟩
  obtain ⟨str, hstr⟩ := hshown
  rw [← FatDirent.nameToString_congr (FatEdit.nameField_entryRecord isDir name first size)] at hstr
  exact ⟨_, FatEdit.makeEntry_plain hstr⟩

/-- The volume stays plain, and every file is printed as before. -/
structure Preserves (super : FatSuper) (s s' : Session) : Prop where
  plain : (memView super s').Plain
  types : ∀ path d, Types super s path d → Types super s' path d

theorem Preserves.trans {s'' : Session} (h : Preserves super s s') (h' : Preserves super s' s'') :
    Preserves super s s'' where
  plain := h'.plain
  types path d htypes := h'.types path d (h.types path d htypes)

theorem preserves_quiet (hs : s.Sound super) (hp : (memView super s).Plain) (h : s.Quiet s') :
    Preserves super s s' where
  plain := by rwa [h.view]
  types _ _ htypes := htypes.view hs.toOk (hs.toOk.kept h.kept) hs.wellFormed h.view

theorem callback_preserves (hs : s.Sound super) (hp : (memView super s).Plain) {host : Host}
    {c : Command} {args : Bytes}
    (hgood : ∀ x ∈ typedPath c args, isShortName x = true ∧ 0x20 ∉ x)
    (h : c.callback super host args s = .ok () s') : Preserves super s s' := by
  rcases FatEdit.callback_creates hs h with hquiet | ⟨name, hlast, -, hcreates⟩
  · exact preserves_quiet hs hp hquiet
  · obtain ⟨parent, size, lP, isDir, fileSize, d, -, ht, hadded⟩ := hcreates
    obtain ⟨first, lP', lr, -, hsane, hg, -, hentry⟩ := hadded.grew hs.toOk hs.wellFormed ht
    obtain ⟨hshort, hblank⟩ := hgood name (List.mem_of_getLast? hlast)
    obtain ⟨e, hnew⟩ := makeEntry_shown isDir first fileSize hshort hblank
    refine ⟨hg.plain hs.wellFormed.toSound hentry hp, ?_⟩
    intro path d htypes
    exact htypes.grew hs.toOk (hs.toOk.kept hadded.1) hs.wellFormed hsane hg hnew

theorem runLine_preserves (hs : s.Sound super) (hp : (memView super s).Plain) {host : Host}
    {line : Bytes} (hline : ShortPath line) (h : runLine super host line s = .ok () s') :
    Preserves super s s' := by
  rcases FatEdit.runLine_ok hs.toOk hs.wellFormed h with hquiet | ⟨c, args, hparse, hrun⟩
  · exact preserves_quiet hs hp hquiet
  · exact callback_preserves hs hp (hline c args hparse) hrun

theorem runLines_preserves (hs : s.Sound super) (hp : (memView super s).Plain)
    {input : List (Bytes × Host)} (hinput : ∀ it ∈ input, ShortPath it.1)
    (h : runLines super input s = .ok () s') : Preserves super s s' := by
  induction input generalizing s with
  | nil =>
    obtain ⟨-, rfl⟩ := pure_eq_ok.mp h
    exact ⟨hp, fun _ _ htypes => htypes⟩
  | cons it input ih =>
    obtain ⟨line, host⟩ := it
    obtain ⟨hfirst, hrest⟩ := List.forall_mem_cons.mp hinput
    unfold runLines at h
    obtain ⟨_, s₁, hline, hlines⟩ := bind_eq_ok.mp h
    have hone := runLine_preserves hs hp hfirst hline
    have hs₁ := hs.step (FatEdit.runLine_step hs.toOk hs.wellFormed hline)
    exact hone.trans (ih hs₁ hone.plain hrest hlines)

/-! ## Section 2: Packing -/

theorem runLines_append {pre post : List (Bytes × Host)} :
    runLines super (pre ++ post) s = .ok () s' ↔
      ∃ s₁, runLines super pre s = .ok () s₁ ∧ runLines super post s₁ = .ok () s' := by
  induction pre generalizing s with
  | nil =>
    constructor
    · intro h
      exact ⟨s, rfl, h⟩
    · rintro ⟨s₁, hpre, h⟩
      obtain ⟨-, rfl⟩ := pure_eq_ok.mp hpre
      exact h
  | cons it pre ih =>
    obtain ⟨line, host⟩ := it
    rw [List.cons_append, runLines, runLines, bind_eq_ok]
    constructor
    · rintro ⟨_, s₁, hline, h⟩
      obtain ⟨s₂, hpre, hpost⟩ := ih.mp h
      exact ⟨s₂, bind_eq_ok.mpr ⟨_, s₁, hline, hpre⟩, hpost⟩
    · rintro ⟨s₂, h, hpost⟩
      obtain ⟨_, s₁, hline, hpre⟩ := bind_eq_ok.mp h
      exact ⟨_, s₁, hline, ih.mpr ⟨s₂, hpre, hpost⟩⟩

/-- `main` on the image and the input comes to a line that packs `contents` to
    the path `target`. -/
inductive Packed (image : ByteVec) : List (Bytes × Host) → Bytes → Bytes → Prop where
  | pack {pre post : List (Bytes × Host)} {line args file target contents : Bytes} {host : Host}
      {super : FatSuper} {s₀ s s' : Session} :
      start image = .ok (super, s₀) → runLines super pre s₀ = .ok () s →
      parseLine line = .command .pack args → splitPackArgs args = some (file, target) →
      splitPath target ≠ [] → host (cstr file) = some (contents, false) →
      packDirectory super host args s = .ok () s' →
      Packed image (pre ++ (line, host) :: post) target contents

theorem mem_of_mem_splitLoop {n : Nat} {p x : Bytes} (hx : x ∈ FatEdit.splitLoop n p) : x ⊆ p := by
  induction n generalizing p with
  | zero => cases p <;> cases hx
  | succ n ih =>
    cases p with
    | nil => cases hx
    | cons c cs =>
      have hdrop : ∀ f : UInt8 → Bool, cs.dropWhile f ⊆ c :: cs :=
        fun f => List.Subset.trans (List.dropWhile_subset f) (List.subset_cons_self c cs)
      rw [FatEdit.splitLoop] at hx
      split at hx
      · exact List.Subset.trans (ih hx) (hdrop _)
      · rcases List.mem_cons.mp hx with rfl | hx
        · exact List.cons_subset_cons c (List.takeWhile_subset _)
        · exact List.Subset.trans (ih hx) (List.Subset.trans (List.drop_subset _ _) (hdrop _))

/-- The components of a C string. -/
theorem goodName_of_mem {path x : Bytes} (h0 : 0 ∉ path)
    (hgood : ∀ x ∈ splitPath path, isShortName x = true ∧ 0x20 ∉ x) (hx : x ∈ splitPath path) :
    GoodName x where
  short := (hgood x hx).1
  notZero hmem := h0 (mem_of_mem_splitLoop hx hmem)
  noBlank := (hgood x hx).2

/-- The packed file is printed at the end of the session. -/
theorem types_of_packed {image : ByteVec} {s₀ : Session} {input : List (Bytes × Host)}
    {target contents : Bytes} (hpacked : Packed image input target contents)
    (hstart : start image = .ok (super, s₀)) (hs : s₀.Sound super)
    (hp : (memView super s₀).Plain) (hinput : ∀ it ∈ input, ShortPath it.1) (h0 : 0 ∉ target)
    (hlines : runLines super input s₀ = .ok () s') :
    Types super s' target contents ∧ (∀ x ∈ splitPath target, GoodName x) ∧
      (memView super s').Plain := by
  have hall := runLines_preserves hs hp hinput hlines
  cases hpacked with
  | @pack pre post line args file target contents host _ _ s s₁ hstart' hpre hparse hargs hne hhost
      hpack =>
    rw [hstart] at hstart'
    obtain ⟨rfl, rfl⟩ := Prod.mk.inj (Except.ok.inj hstart')
    have hline : ShortPath line := hinput (line, host) (by simp)
    have hpreShort : ∀ it ∈ pre, ShortPath it.1 := fun it hit => hinput it (by simp [hit])
    have hpostShort : ∀ it ∈ post, ShortPath it.1 := fun it hit => hinput it (by simp [hit])
    have hgood := hline .pack args hparse
    rw [FatEdit.typedPath_pack hargs] at hgood
    have hnames : ∀ x ∈ splitPath target, GoodName x := fun x hx => goodName_of_mem h0 hgood hx
    -- the session in front of the line, and behind it
    have hsound := FatEdit.runLines_sound hs hpre
    have hplain := (runLines_preserves hs hp hpreShort hpre).plain
    obtain ⟨s₂, hpre', hrest⟩ := runLines_append.mp hlines
    rw [hpre] at hpre'
    obtain ⟨-, rfl⟩ := EStateM.Result.ok.inj hpre'
    unfold runLines at hrest
    obtain ⟨_, s₃, hone, hpost⟩ := bind_eq_ok.mp hrest
    have hcallback : (Command.pack).callback super host args s = .ok () s₁ := hpack
    have hthis : runLine super host line s = .ok () s₁ := by
      unfold runLine
      rw [hparse]
      unfold FatEdit.handled
      dsimp only
      rw [hcallback]
    rw [hthis] at hone
    obtain ⟨-, rfl⟩ := EStateM.Result.ok.inj hone
    have hsound₁ := hsound.step (FatEdit.runLine_step hsound.toOk hsound.wellFormed hthis)
    have hplain₁ := (runLine_preserves hsound hplain hline hthis).plain
    -- the file is there behind the line, and stays there
    have hlast := List.getLast?_eq_some_getLast hne
    have hname := hnames _ (List.getLast_mem hne)
    obtain ⟨contents', parent, new, hhost', -, -, -, -, -, honly⟩ :=
      FatEdit.packedOnly hsound hargs hlast hname.notZero hname.noBlank hpack
    rw [hhost] at hhost'
    obtain ⟨rfl, -⟩ := Prod.mk.inj (Option.some.inj hhost')
    exact ⟨(runLines_preserves hsound₁ hplain₁ hpostShort hpost).types _ _ honly.types, hnames,
      hall.plain⟩

/-! ## Section 3: The device -/

/-- **stage2 reads what was packed**: on the image that a session with short
    paths leaves of a freshly formatted one, and in any state of the driver,
    `FindByPath` finds every packed file with its size, and `ReadAt` delivers
    any range of the bytes that were packed. -/
theorem packed_canRead {image image' : ByteVec} {input : List (Bytes × Host)}
    (hl : Layout (imageSuper image) image.size) (h512 : (imageSuper image).bytesPerSector = 512)
    (hfresh : (diskView (imageSuper image) image).Fresh)
    (hinput : ∀ it ∈ input, ShortPath it.1) (h : FatEdit.main image input = .ok () image')
    {target contents : Bytes} (hpacked : Packed image input target contents) (h0 : 0 ∉ target)
    (hne : contents ≠ []) (hlen : contents.length < 2 ^ 31) {w : World} (hw : ¬ w.Faulty)
    {fs : FatFs} (hreach : FatFs.Reached w (imageVolume image') (fun _ _ _ => True) fs) :
    FatFs.CanRead w (imageVolume image') fs target contents := by
  obtain ⟨hsuper, hsize, s, s', hstart, hsound, hview, hlines, hview'⟩ :=
    FatEdit.main_view hl hfresh.wellFormed h
  have hp : (memView (imageSuper image) s).Plain := by
    rw [hview]
    exact hfresh.plain
  obtain ⟨htypes, hgood, hp'⟩ := types_of_packed hpacked hstart hsound hp hinput h0 hlines
  have hs' := FatEdit.runLines_sound hsound hlines
  rw [← hsuper] at hs' hp' htypes hview' hl h512
  rw [← hsize] at hl
  exact canRead_of_types hs'.toOk hs'.wellFormed hp' hview'.symm hl h512 htypes hgood h0 hne hlen hw
    (hreach.coherent hw)

/-- A session that makes a directory and packs a file of two bytes into it. -/
def packSession : List (Bytes × Host) :=
  [(FatEdit.lit "mkdir BOOT", fun _ => none),
    (FatEdit.lit "pack input BOOT/FILE.TXT", FatEdit.twoBytes)]

theorem packSession_shortPath : ∀ it ∈ packSession, ShortPath it.1 := by
  intro it hit c args hline
  simp only [packSession, List.mem_cons, List.not_mem_nil, or_false] at hit
  rcases hit with rfl | rfl
  · cases hline
    decide
  · cases hline
    decide

set_option maxRecDepth 3000

theorem packed_canRead_fresh :
    ∃ image', FatEdit.main FatEdit.freshImage packSession = .ok () image' ∧
      FatFs.CanRead reliable (imageVolume image') FatFs.freshWindows
        (FatEdit.lit "BOOT/FILE.TXT") [0x41, 0x42] := by
  -- the whole session runs through, and so does each of its steps
  have hend : (result (FatEdit.main FatEdit.freshImage packSession)).isSome = true := by
    decide +kernel
  have hsteps : ((start FatEdit.freshImage).toOption.any fun it =>
      (result (runLines it.1 (packSession.take 1) it.2)).any fun pre =>
        (result (packDirectory it.1 FatEdit.twoBytes (FatEdit.lit "input BOOT/FILE.TXT")
          pre.2)).isSome) = true := by
    decide +kernel
  obtain ⟨⟨_, image'⟩, hended⟩ := Option.isSome_iff_exists.mp hend
  have hrun := result_eq_some.mp hended
  obtain ⟨⟨super, s₀⟩, hopened, hsteps⟩ := (Option.any_eq_true _ _).mp hsteps
  have hstart := toOption_eq_some.mp hopened
  obtain ⟨⟨_, s⟩, hread, hsteps⟩ := (Option.any_eq_true _ _).mp hsteps
  have hpre := result_eq_some.mp hread
  obtain ⟨⟨_, s'⟩, hadded⟩ := Option.isSome_iff_exists.mp hsteps
  have hpack := result_eq_some.mp hadded
  -- the second line is the one that packs the file
  have hparse : parseLine (FatEdit.lit "pack input BOOT/FILE.TXT") =
      .command .pack (FatEdit.lit "input BOOT/FILE.TXT") := rfl
  have hargs : splitPackArgs (FatEdit.lit "input BOOT/FILE.TXT") =
      some (FatEdit.lit "input", FatEdit.lit "BOOT/FILE.TXT") := by decide
  have hpacked : Packed FatEdit.freshImage (packSession.take 1 ++ (_, FatEdit.twoBytes) :: [])
      (FatEdit.lit "BOOT/FILE.TXT") [0x41, 0x42] :=
    .pack hstart hpre hparse hargs (by decide) rfl hpack
  exact ⟨image', hrun, packed_canRead FatEdit.freshImage_layout (by decide)
    FatEdit.freshImage_fresh packSession_shortPath hrun hpacked (by decide) (by decide) (by decide)
    not_faulty_reliable (.new _ _)⟩

end Hausboot

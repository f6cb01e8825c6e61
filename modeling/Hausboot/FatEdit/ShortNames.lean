import Hausboot.Fat.Unique
import Hausboot.FatEdit.Disk

/-! # The fatedit Tool: Are Short Names Unique?

    `CheckEntryNotInDir` compares the name that was typed with the names that
    the directory shows, but the record stores the name padded with blanks. A
    name that its own record shows in another way is not found again, and can
    be made twice. All other names stay unique. A name that starts with a blank
    is worse: its record cannot be listed at all. -/

open ByteLib Prog

namespace Hausboot.FatEdit

open FatDirent Session

variable {super : FatSuper} {s s' s₁ s₂ : Session}

/-! ## Section 1: Names that are found again -/

/-- The record of a name shows the name itself, or no name at all. -/
def Recognised (name : Bytes) : Prop :=
  ∀ shown, (namedRecord name).shortName = some shown → shown = name

theorem nameField_entryRecord (isDir : Bool) (name : Bytes) (first size : Nat) :
    (entryRecord isDir name first size).nameField = (namedRecord name).nameField :=
  window_entryRecord isDir name first size (by decide)

theorem name_namedRecord (name : Bytes) :
    (namedRecord name).name = fixedLength 8 (baseName name) := by
  rw [← name_entryRecord false name 0 0]
  exact (window_entryRecord false name 0 0 (by decide)).symm

theorem extension_namedRecord (name : Bytes) :
    (namedRecord name).extension =
      if name.contains 0x2E then fixedLength 3 (extName name) else List.replicate 3 0x20 := by
  rw [← extension_entryRecord false name 0 0]
  exact (window_entryRecord false name 0 0 (by decide)).symm

/-- Up to a character that is not a blank, nothing is taken off. -/
theorem stripBlanks_append_cons {c : UInt8} (as cs : Bytes) (h : c ≠ 0x20) :
    stripBlanks (as ++ c :: cs) = as ++ c :: stripBlanks cs := by
  induction cs using List.reverseRecOn with
  | nil => exact List.rdropWhile_concat_neg _ _ _ (by simpa using h)
  | append_singleton cs x ih =>
    have hsplit : as ++ c :: (cs ++ [x]) = (as ++ c :: cs) ++ [x] := by simp
    rw [hsplit]
    unfold stripBlanks at ih ⊢
    rw [List.rdropWhile_concat, List.rdropWhile_concat]
    split
    · exact ih
    · exact hsplit.symm

theorem mem_of_mem_stripBlanks {x : UInt8} {bs : Bytes} (h : x ∈ stripBlanks bs) : x ∈ bs :=
  (List.rdropWhile_prefix _ _).subset h

/-- No terminator comes out of a padded string. -/
theorem zero_notMem_fixedLength (count : Nat) (value : Bytes) : 0 ∉ fixedLength count value := by
  intro hmem
  rw [fixedLength, List.mem_append, List.mem_replicate] at hmem
  rcases hmem with hmem | ⟨-, hzero⟩
  · have h := List.mem_takeWhile_imp (List.mem_of_mem_take hmem)
    simp at h
  · cases hzero

/-- What the record of a name shows. -/
theorem shortName_namedRecord (name : Bytes) :
    (namedRecord name).shortName =
      if (fixedLength 8 (baseName name)).getD 0 0 = 0x20 then none
      else if (namedRecord name).extension.getD 0 0 = 0x20 then
        some (stripBlanks (fixedLength 8 (baseName name)))
      else some (stripBlanks
        (stripBlanks (fixedLength 8 (baseName name)) ++ 0x2E :: (namedRecord name).extension)) := by
  have hext : 0 ∉ (namedRecord name).extension := by
    rw [extension_namedRecord]
    split
    · exact zero_notMem_fixedLength _ _
    · decide
  have hbase : 0 ∉ stripBlanks (fixedLength 8 (baseName name)) := fun h =>
    zero_notMem_fixedLength _ _ (mem_of_mem_stripBlanks h)
  rw [shortName, nameToString, getD_raw_name, getD_raw_extension, name_namedRecord]
  by_cases hblank : (fixedLength 8 (baseName name)).getD 0 0 = 0x20
  · rw [if_pos hblank, if_pos hblank]
    rfl
  rw [if_neg hblank, if_neg hblank]
  dsimp only
  by_cases hplain : (namedRecord name).extension.getD 0 0 = 0x20
  · rw [if_neg (by simpa using hplain), if_pos hplain, Option.map_some, cstr_of_notMem hbase]
  · rw [if_pos hplain, if_neg hplain, Option.map_some, cstr_of_notMem]
    intro hmem
    rcases List.mem_append.mp (mem_of_mem_stripBlanks hmem) with hmem | hmem
    · exact hbase hmem
    · rcases List.mem_cons.mp hmem with heq | hmem
      · cases heq
      · exact hext hmem

theorem getD_fixedLength_baseName {name : Bytes} (h : isShortName name = true) :
    (fixedLength 8 (baseName name)).getD 0 0 = name.getD 0 0 := by
  obtain ⟨c, cs, rfl, hdot, hlo, -⟩ := isShortName_head h
  have h0 : c ≠ 0 := by
    rintro rfl
    exact absurd hlo (by decide)
  rw [baseName, List.takeWhile_cons_of_pos (by simpa using hdot), fixedLength, cstr_cons_ne h0]
  rfl

/-- A terminator in a name is not shown. -/
theorem zero_notMem_of_recognised {name shown : Bytes}
    (h : (namedRecord name).shortName = some shown) : 0 ∉ shown := by
  rw [shortName] at h
  obtain ⟨str, -, rfl⟩ := Option.map_eq_some_iff.mp h
  intro hmem
  have hne := List.mem_takeWhile_imp hmem
  simp at hne

section Shown

variable {name pre post : Bytes}

theorem shown_of_base (hmem : 0x2E ∉ name) (h0 : 0 ∉ name) (hlen : name.length ≤ 8)
    (hhead : (fixedLength 8 (baseName name)).getD 0 0 ≠ 0x20) :
    (namedRecord name).shortName = some (stripBlanks name) := by
  have hext : (namedRecord name).extension = List.replicate 3 0x20 := by
    rw [extension_namedRecord]
    exact if_neg (by simpa using hmem)
  rw [shortName_namedRecord, if_neg hhead, hext, if_pos (by decide), baseName_of_notMem hmem,
    fixedLength_eq h0 hlen, stripBlanks_append_blanks]

/-- An extension with a blank in front is not shown at all. -/
theorem shown_of_extension (hpre : 0x2E ∉ pre) (h0 : 0 ∉ pre ++ 0x2E :: post)
    (hlen : pre.length ≤ 8) (hlen' : post.length ≤ 3)
    (hhead : (fixedLength 8 (baseName (pre ++ 0x2E :: post))).getD 0 0 ≠ 0x20) :
    (namedRecord (pre ++ 0x2E :: post)).shortName =
      if (fixedLength 3 post).getD 0 0 = 0x20 then some (stripBlanks pre)
      else some (stripBlanks pre ++ 0x2E :: stripBlanks post) := by
  obtain ⟨hbase, hext⟩ := split_name post hpre
  have h0pre : 0 ∉ pre := fun hx => h0 (by simp [hx])
  have h0post : 0 ∉ post := fun hx => h0 (by simp [hx])
  have hfield : (namedRecord (pre ++ 0x2E :: post)).extension = fixedLength 3 post := by
    rw [extension_namedRecord, if_pos (by simp), hext]
  rw [shortName_namedRecord, if_neg hhead, hfield, hbase, fixedLength_eq h0pre hlen,
    stripBlanks_append_blanks]
  split
  · rfl
  · rw [fixedLength_eq h0post hlen', stripBlanks_append_cons _ _ (by decide),
      stripBlanks_append_blanks]

end Shown

/-- Blanks and terminators stand where the record keeps them apart from its
    padding: none at the end of the base, none at either end of the extension,
    and no terminator at all. -/
structure Plain (name : Bytes) : Prop where
  notZero : 0 ∉ name
  base : stripBlanks (baseName name) = baseName name
  extension : stripBlanks (extName name) = extName name
  front : (extName name).getD 0 0 ≠ 0x20

theorem recognised_of_shown {name shown : Bytes} (h : (namedRecord name).shortName = some shown) :
    Recognised name ↔ shown = name := by
  constructor
  · intro hrec
    exact hrec shown h
  · intro heq shown' h'
    rw [h] at h'
    exact (Option.some.inj h').symm.trans heq

/-- **Which names are found again.** A name with a blank in front cannot be
    shown, and no directory with such a record can be read. -/
theorem recognised_iff {name : Bytes} (h : isShortName name = true) :
    Recognised name ↔ name.getD 0 0 = 0x20 ∨ Plain name := by
  have hhead := getD_fixedLength_baseName h
  by_cases hblank : name.getD 0 0 = 0x20
  · have hnone : (namedRecord name).shortName = none := by
      rw [shortName_namedRecord, if_pos (hhead.trans hblank)]
    constructor
    · intro _
      exact .inl hblank
    · intro _ shown hshown
      rw [hnone] at hshown
      cases hshown
  rw [or_iff_right hblank]
  rw [← hhead] at hblank
  by_cases h0 : 0 ∈ name
  · -- the terminator is lost
    have hsome : ∃ shown, (namedRecord name).shortName = some shown := by
      rw [shortName_namedRecord, if_neg hblank]
      split
      · exact ⟨_, rfl⟩
      · exact ⟨_, rfl⟩
    obtain ⟨shown, hshown⟩ := hsome
    rw [recognised_of_shown hshown]
    constructor
    · rintro rfl
      exact absurd h0 (zero_notMem_of_recognised hshown)
    · intro hplain
      exact absurd h0 hplain.notZero
  have hcases := isShortName_cases h
  rw [cstr_of_notMem h0] at hcases
  rcases hcases with ⟨hmem, -, hlen⟩ | ⟨pre, post, rfl, hpre, hpost, -, hlen, hpos, hlen'⟩
  · have hbase := baseName_of_notMem hmem
    have hext : extName name = [] := by
      rw [extName, List.dropWhile_eq_nil_iff.mpr]
      · rfl
      · intro x hx
        have hne : x ≠ 0x2E := fun heq => hmem (heq ▸ hx)
        simpa using hne
    rw [recognised_of_shown (shown_of_base hmem h0 hlen hblank)]
    constructor
    · intro heq
      exact ⟨h0, by rw [hbase, heq], by rw [hext]; rfl, by rw [hext]; decide⟩
    · intro hplain
      have hstrip := hplain.base
      rwa [hbase] at hstrip
  · obtain ⟨hbase, hext⟩ := split_name post hpre
    have hshown := shown_of_extension hpre h0 hlen hlen' hblank
    have hfront : (fixedLength 3 post).getD 0 0 = post.getD 0 0 := by
      rw [fixedLength_eq (fun hx => h0 (by simp [hx])) hlen']
      cases post with
      | nil => exact absurd hpos (by simp)
      | cons c post => rfl
    rw [hfront] at hshown
    by_cases hgap : post.getD 0 0 = 0x20
    · -- what is shown has no dot
      rw [if_pos hgap] at hshown
      rw [recognised_of_shown hshown]
      constructor
      · intro heq
        have hdot : (0x2E : UInt8) ∈ stripBlanks pre := by
          rw [heq]
          simp
        exact absurd (mem_of_mem_stripBlanks hdot) hpre
      · intro hplain
        have hne := hplain.front
        rw [hext] at hne
        exact absurd hgap hne
    · rw [if_neg hgap] at hshown
      rw [recognised_of_shown hshown]
      have hdot : 0x2E ∉ stripBlanks pre := fun hx => hpre (mem_of_mem_stripBlanks hx)
      obtain ⟨hbase', hext'⟩ := split_name (stripBlanks post) hdot
      constructor
      · intro heq
        rw [heq] at hbase' hext'
        exact ⟨h0, by rw [hbase, ← hbase', hbase], by rw [hext, ← hext', hext], by rwa [hext]⟩
      · intro hplain
        have hb := hplain.base
        have he := hplain.extension
        rw [hbase] at hb
        rw [hext] at he
        rw [hb, he]

/-! ## Section 2: Names that survive storage -/

theorem isDummiedOut_entryRecord {name : Bytes} (h : isShortName name = true) (isDir : Bool)
    (first size : Nat) : (entryRecord isDir name first size).isDummiedOut = false := by
  have hlive : (entryRecord isDir name first size).isLive = true :=
    isLive_entryRecord isDir h
  rw [isLive, Bool.and_eq_true, Bool.not_eq_true'] at hlive
  exact hlive.1

theorem shortName_entryRecord (isDir : Bool) (name : Bytes) (first size : Nat) :
    (entryRecord isDir name first size).shortName = (namedRecord name).shortName :=
  shortName_congr (nameField_entryRecord isDir name first size)

/-- The record that is stored for a name can be listed, and shows the name. -/
def SurvivesStorage (name : Bytes) : Prop :=
  ∀ isDir first size,
    (entryRecord isDir name first size).isLastInList = false ∧
    (entryRecord isDir name first size).isDummiedOut = false ∧
    (entryRecord isDir name first size).isLongName = false ∧
    (entryRecord isDir name first size).shortName = some name ∧
    ∃ e, makeEntry (entryRecord isDir name first size) [] = .ok e ∧ e.shortName = name

/-- **Which accepted names survive storage**: those that do not start with a
    blank and have their other blanks inside of the base or the extension. -/
theorem survivesStorage_iff {name : Bytes} (h : isShortName name = true) :
    SurvivesStorage name ↔ name.getD 0 0 ≠ 0x20 ∧ Plain name := by
  have hhead := getD_fixedLength_baseName h
  constructor
  · intro hsurvives
    obtain ⟨-, -, -, hshown, -⟩ := hsurvives false 0 0
    rw [shortName_entryRecord] at hshown
    have hblank : name.getD 0 0 ≠ 0x20 := by
      intro heq
      rw [shortName_namedRecord, if_pos (hhead.trans heq)] at hshown
      cases hshown
    have hrec := (recognised_of_shown hshown).mpr rfl
    exact ⟨hblank, ((recognised_iff h).mp hrec).resolve_left hblank⟩
  · rintro ⟨hblank, hplain⟩ isDir first size
    have hrec := (recognised_iff h).mpr (.inr hplain)
    obtain ⟨shown, hshown⟩ : ∃ shown, (namedRecord name).shortName = some shown := by
      rw [shortName_namedRecord, if_neg (hhead ▸ hblank)]
      split
      · exact ⟨_, rfl⟩
      · exact ⟨_, rfl⟩
    obtain rfl := hrec shown hshown
    rw [← shortName_entryRecord isDir shown first size] at hshown
    obtain ⟨text, htext, hcut⟩ := Option.map_eq_some_iff.mp hshown
    exact ⟨isLastInList_entryRecord isDir h, isDummiedOut_entryRecord h isDir first size,
      isLongName_entryRecord isDir shown first size, hshown, _, makeEntry_plain htext, hcut⟩

theorem survivesStorage_config : SurvivesStorage (lit "BOOT.CFG") :=
  (survivesStorage_iff (by decide)).mpr ⟨by decide, by decide, by decide, by decide, by decide⟩

/-- `A` with a blank behind it comes back without the blank, and a record for
    `A` with a blank in front of it is not shown. -/
theorem blanks_lost :
    isShortName (lit "A ") = true ∧ isShortName (lit " A") = true ∧
    (entryRecord false (lit "A ") 5 0).shortName = some (lit "A") ∧
    (entryRecord false (lit " A") 5 0).shortName = none ∧
    ¬ SurvivesStorage (lit "A ") ∧ ¬ SurvivesStorage (lit " A") := by
  have hbehind : (entryRecord false (lit "A ") 5 0).shortName = some (lit "A") := by decide
  have hfront : (entryRecord false (lit " A") 5 0).shortName = none := by decide
  refine ⟨by decide, by decide, hbehind, hfront, fun h => ?_, fun h => ?_⟩
  · have hshown := (h false 5 0).2.2.2.1
    rw [hbehind] at hshown
    exact absurd hshown (by decide)
  · have hshown := (h false 5 0).2.2.2.1
    rw [hfront] at hshown
    cases hshown

/-! ## Section 3: Lines that make a record -/

/-- The path that a command makes something at. -/
def typedPath : Command → Bytes → List Bytes
  | .mkdir, args => splitPath args
  | .pack, args => (splitPackArgs args).elim [] fun it => splitPath it.2
  | .dir, _ => []
  | .type, _ => []

theorem typedPath_pack {args input target : Bytes}
    (h : splitPackArgs args = some (input, target)) : typedPath .pack args = splitPath target := by
  rw [typedPath, h]
  rfl

theorem typedPath_component (c : Command) (args : Bytes) :
    ∀ x ∈ typedPath c args, Component x := by
  intro x hx
  cases c with
  | mkdir => exact splitPath_component _ x hx
  | pack =>
    cases hargs : splitPackArgs args with
    | none =>
      rw [typedPath, hargs] at hx
      cases hx
    | some it =>
      rw [typedPath_pack hargs] at hx
      exact splitPath_component _ x hx
  | dir => cases hx
  | type => cases hx

/-- The names that a command accepts for a new record. -/
def acceptsName : Command → Bytes → Bool
  | .mkdir, name => isShortName name && !name.contains 0x2E
  | .pack, name => isShortName name
  | .dir, _ => false
  | .type, _ => false

/-- If the line makes a record, then under a name that is found again. -/
def Recognisable (line : Bytes) : Prop :=
  ∀ c args name, parseLine line = .command c args → (typedPath c args).getLast? = some name →
    acceptsName c name = true → Recognised name

/-- The command has made a record under `name`. -/
def Creates (super : FatSuper) (s : Session) (c : Command) (args name : Bytes) (s' : Session) :
    Prop :=
  (typedPath c args).getLast? = some name ∧ acceptsName c name = true ∧
    ∃ parent size lP isDir fileSize d,
      locate super s (typedPath c args) name = .ok (parent, size) ∧
      Target super s parent.firstCluster size lP ∧
      Added super s parent.firstCluster lP (fun x => entryRecord isDir name x fileSize) d s'

theorem createDirectory_noDot {args name : Bytes} (hlast : (splitPath args).getLast? = some name)
    (h : createDirectory super args s = .ok () s') : name.contains 0x2E = false := by
  unfold createDirectory at h
  rw [hlast] at h
  dsimp only at h
  split at h
  · cases h
  · split at h
    · cases h
    · next hdot => exact Bool.eq_false_iff.mpr hdot

/-- A command that comes to its end changes no directory, or makes one record. -/
theorem callback_creates (hs : s.Sound super) {host : Host} {c : Command} {args : Bytes}
    (h : c.callback super host args s = .ok () s') :
    Quiet s s' ∨ ∃ name, Creates super s c args name s' := by
  cases c with
  | dir => exact .inl ((readsOnly_listDirectory super args s).of_ok h)
  | type => exact .inl ((readsOnly_dumpFile super args s).of_ok h)
  | mkdir =>
    rcases (createDirectory_spec hs.toOk hs.wellFormed args).of_ok h with ⟨-, rfl⟩ | hmakes
    · exact .inl (Quiet.refl s')
    · obtain ⟨name, parent, size, lP, hlast, hname, hloc, ht, hadded⟩ := hmakes
      have hdot := createDirectory_noDot hlast h
      have haccepts : acceptsName .mkdir name = true := by
        rw [acceptsName, hname, hdot]
        rfl
      exact .inr ⟨name, hlast, haccepts, parent, size, lP, true, 0, _, hloc, ht, hadded⟩
  | pack =>
    rcases (packDirectory_spec hs.toOk hs.wellFormed host args).of_ok h with ⟨-, rfl⟩ | hpacks
    · exact .inl (Quiet.refl s')
    · obtain ⟨target, name, parent, size, lP, contents, ⟨input, hargs, -⟩, hlast, hname, hloc, -,
        ht, hadded⟩ := hpacks
      have hpath := typedPath_pack hargs
      exact .inr ⟨name, by rwa [hpath], hname, parent, size, lP, false, contents.length, _,
        by rwa [hpath], ht, hadded⟩

theorem runLine_creates (hs : s.Sound super) {host : Host} {line : Bytes}
    (h : runLine super host line s = .ok () s') :
    Quiet s s' ∨ ∃ c args name, parseLine line = .command c args ∧
      Creates super s c args name s' := by
  rcases runLine_ok hs.toOk hs.wellFormed h with hquiet | ⟨c, args, hline, hrun⟩
  · exact .inl hquiet
  · rcases callback_creates hs hrun with hquiet | ⟨name, hcreates⟩
    · exact .inl hquiet
    · exact .inr ⟨c, args, name, hline, hcreates⟩

/-! ## Section 4: What the check finds -/

/-- A record that is made has a name that no live record of the directory shows. -/
theorem nameField_notMem (hs : s.Sound super) {path : List Bytes} {name : Bytes}
    {parent : DirEntry} {size : Nat} {lP : List Nat}
    (hloc : locate super s path name = .ok (parent, size))
    (ht : Target super s parent.firstCluster size lP) (hrec : Recognised name) :
    (namedRecord name).nameField ∉
      (live ((memView super s).content lP)).map FatDirent.nameField := by
  intro hmem
  obtain ⟨e, he, hfield⟩ := List.mem_map.mp hmem
  obtain ⟨-, es, hscan, hnone⟩ := locate_ok.mp hloc
  obtain ⟨p, hdir⟩ := ht.dir
  obtain ⟨l, gs, hch, -, hgs, heq⟩ := dir_scan hs.toOk hs.wellFormed hdir
  obtain rfl := ChainLib.Chain.unique hch ht.chain
  rw [heq] at hscan
  obtain ⟨es', hmake, rfl, -⟩ := scanned_ok.mp hscan
  -- the record with the same bytes has an entry, which shows the same name
  rw [live, ← hgs.map_snd] at he
  obtain ⟨g, hg, rfl⟩ := List.mem_map.mp he
  obtain ⟨it, hit, hentry⟩ := makeEntries_mem_of hmake hg
  have hshown := (makeEntry_fields hentry).1
  rw [shortName_congr hfield] at hshown
  have hsame : it.shortName = name := hrec _ hshown
  have hno := List.any_eq_false.mp hnone it hit
  simp [hsame] at hno

/-- A record under a name that is found again leaves the names unique. -/
theorem Creates.uniqueNames (hs : s.Sound super) (hu : (memView super s).UniqueNames) {c : Command}
    {args name : Bytes} (h : Creates super s c args name s') (hrec : Recognised name) :
    (memView super s').UniqueNames := by
  obtain ⟨-, -, parent, size, lP, isDir, fileSize, d, hloc, ht, hadded⟩ := h
  obtain ⟨first, lP', lr, -, -, hg, -⟩ := hadded.grew hs.toOk hs.wellFormed ht
  apply (hg.uniqueNames_iff hs.wellFormed.toSound hu).mpr
  rw [nameField_entryRecord]
  exact nameField_notMem hs hloc ht hrec

/-- A name that is not found again can be given twice. -/
theorem Creates.twice (hs : s.Sound super) {c : Command} {args name : Bytes}
    (h : Creates super s c args name s₁) (h' : Creates super s₁ c args name s₂)
    (hrec : ¬ Recognised name) : ¬ (memView super s₂).UniqueNames := by
  intro hu
  obtain ⟨-, -, parent, size, lP, isDir, fileSize, d, hloc, ht, hadded⟩ := h
  obtain ⟨-, -, parent', size', lP', isDir', fileSize', d', hloc', ht', hadded'⟩ := h'
  have hs₁ : s₁.Sound super := hs.step (.inr ⟨_, _, _, _, _, ht, hadded⟩)
  obtain ⟨first, lQ, lr, -, hsane, hg, -⟩ := hadded.grew hs.toOk hs.wellFormed ht
  obtain ⟨first', lQ', lr', -, -, hg', -⟩ := hadded'.grew hs₁.toOk hs₁.wellFormed ht'
  -- the record is shown, so the path still leads to the same directory
  have hshown : ∃ str, (namedRecord name).nameToString = some str := by
    cases hstr : (namedRecord name).nameToString with
    | some str => exact ⟨str, rfl⟩
    | none =>
      refine absurd ?_ hrec
      intro shown hshown
      rw [shortName, hstr] at hshown
      cases hshown
  obtain ⟨str, hstr⟩ := hshown
  rw [← nameToString_congr (nameField_entryRecord isDir name first fileSize)] at hstr
  have hpath := typedPath_component c args
  obtain ⟨-, hfind⟩ := findParent_ok hpath (locate_ok.mp hloc).1
  obtain ⟨-, hfind'⟩ := findParent_ok hpath (locate_ok.mp hloc').1
  have hsame := findLoop_grew hs.toOk hs₁.toOk hs.wellFormed hsane hg (makeEntry_plain hstr)
    located_root (hfind [])
  rw [hfind' []] at hsame
  obtain rfl := Except.ok.inj hsame
  -- both records are in it
  obtain rfl := ChainLib.Chain.unique hg.chain' hg'.chain
  obtain ⟨p, hdir⟩ := hg'.dir
  have hnodup := hu (hg'.isDir hs₁.wellFormed.toSound hdir) hg'.chain'
  rw [hg'.live_eq, hg.live_eq, List.map_append, List.nodup_append] at hnodup
  refine hnodup.2.2 _ (List.mem_map_of_mem (List.mem_append_right _ (List.mem_singleton_self _))) _
    (List.mem_map_of_mem (List.mem_singleton_self _)) ?_
  rw [nameField_entryRecord, nameField_entryRecord]

/-! ## Section 5: Whole runs -/

theorem runLine_uniqueNames (hs : s.Sound super) (hu : (memView super s).UniqueNames)
    {host : Host} {line : Bytes} (hline : Recognisable line)
    (h : runLine super host line s = .ok () s') : (memView super s').UniqueNames := by
  rcases runLine_creates hs h with hquiet | ⟨c, args, name, hparse, hcreates⟩
  · rwa [hquiet.view]
  · exact hcreates.uniqueNames hs hu (hline c args name hparse hcreates.1 hcreates.2.1)

theorem runLines_uniqueNames {input : List (Bytes × Host)}
    (hinput : ∀ it ∈ input, Recognisable it.1) (hs : s.Sound super)
    (hu : (memView super s).UniqueNames) (h : runLines super input s = .ok () s') :
    (memView super s').UniqueNames := by
  induction input generalizing s with
  | nil =>
    obtain ⟨-, rfl⟩ := pure_eq_ok.mp h
    exact hu
  | cons it input ih =>
    obtain ⟨line, host⟩ := it
    unfold runLines at h
    obtain ⟨_, s₁, hline, hrest⟩ := bind_eq_ok.mp h
    have hu₁ := runLine_uniqueNames hs hu (hinput _ List.mem_cons_self) hline
    have hs₁ := hs.step (runLine_step hs.toOk hs.wellFormed hline)
    exact ih (fun it hit => hinput it (List.mem_cons_of_mem _ hit)) hs₁ hu₁ hrest

/-- A session that makes the directory `A` twice. The blank in the second line
    is not at its end, so `trim` leaves it there. -/
def blankSession : List (Bytes × Host) :=
  [(lit "mkdir A", fun _ => none), (lit "mkdir A /", fun _ => none)]

/-- Two live records of a root directory in cluster 2 have the same name. -/
def repeatedAtRoot (image : ByteVec) : Bool :=
  let v := diskView (imageSuper image) image
  v.root = 2 && 0 < v.count && endMark ≤ v.next 2 &&
    !decide ((live (v.content [2])).map FatDirent.nameField).Nodup

theorem not_uniqueNames_of_repeated {image : ByteVec} (h : repeatedAtRoot image = true) :
    ¬ (diskView (imageSuper image) image).UniqueNames := by
  unfold repeatedAtRoot at h
  simp only [Bool.and_eq_true, decide_eq_true_eq, Bool.not_eq_true', decide_eq_false_iff_not] at h
  obtain ⟨⟨⟨hroot, hcount⟩, hmark⟩, hrepeated⟩ := h
  intro hu
  have hdir := Vol.IsDir.root (v := diskView (imageSuper image) image)
  rw [hroot] at hdir
  have hvalid : (diskView (imageSuper image) image).Valid 2 := ⟨by omega, by omega⟩
  exact hrepeated (hu hdir (.link (by decide) hvalid (.done hmark)))

end Hausboot.FatEdit

import Hausboot.FatFs.Search

/-! # The stage2 FAT Driver: The Name Buffer

    `FindInDirectory` compares the name that it looks for with a local buffer
    and does not look at the result of `NameToString`, which leaves the buffer
    alone when it fails. So a record whose name cannot be decoded is compared
    with what the buffer held before. After the first record that is compared,
    the buffer never holds the name; before it, the buffer is uninitialised. -/

open ByteLib ChainLib

namespace Hausboot

namespace FatFs

variable {w : World} {v : Volume} {fs : FatFs}

/-! ## Section 1: What the records say -/

/-- A record that is not deleted and not a part of a long name. -/
def isLive (e : FatDirent) : Bool := !(e.isLongName || e.isDummiedOut)

/-- The name of the record decodes to `name`. -/
def isNamed (name : Bytes) (e : FatDirent) : Bool :=
  isLive e && e.nameToString.map cstr == some (cstr name)

/-- The records in front of the terminator. -/
def listed (es : List FatDirent) : List FatDirent := es.takeWhile (!·.isLastInList)

def fileOf (e : FatDirent) : FatFile where
  cluster := e.clusterIndex
  size := e.size
  flags := e.entryFlags

/-- What a lookup has to report: the first listed record of that name. -/
def report (name : Bytes) (es : List FatDirent) : FindResult :=
  match (listed es).find? (isNamed name) with
  | some e => .ok (fileOf e)
  | none => .noEntry

/-- The uninitialised buffer holds the name that is looked for, the first live
    record has a name that cannot be decoded, and no record of the name that is
    looked for has its cluster, size and flags. -/
def Misled (name buffer : Bytes) (es : List FatDirent) : Prop :=
  strEqual buffer name = true ∧
    ∃ e, (listed es).find? isLive = some e ∧ e.nameToString = none ∧
      ∀ e', (listed es).find? (isNamed name) = some e' → fileOf e' ≠ fileOf e

theorem listed_cons {e : FatDirent} (h : e.isLastInList = false) (es : List FatDirent) :
    listed (e :: es) = e :: listed es := by
  unfold listed
  rw [List.takeWhile_cons_of_pos (by simp [h])]

theorem listed_last {e : FatDirent} (h : e.isLastInList = true) (es : List FatDirent) :
    listed (e :: es) = [] := by
  unfold listed
  rw [List.takeWhile_cons_of_neg (by simp [h])]

/-- The answer of a search through records that end the directory. -/
def ScanResult.final (r : ScanResult) : FindResult := r.answer.getD .noEntry

/-- A record that is passed over by the search and by the report. -/
theorem findEntry_skip {e : FatDirent} (hlast : e.isLastInList = false)
    (hskip : (e.isLongName || e.isDummiedOut) = true) (name buffer : Bytes) (es : List FatDirent) :
    findEntry name buffer (e :: es) = findEntry name buffer es ∧
      report name (e :: es) = report name es := by
  have hnamed : ¬ isNamed name e = true := by simp [isNamed, isLive, hskip]
  constructor
  · rw [findEntry, if_neg (by simp [hlast]), if_pos hskip]
  · rw [report, listed_cons hlast, List.find?_cons_of_neg hnamed, report]

/-- A record with a decodable name: it ends the search and the report, or the
    search goes on with a buffer that does not hold the name. -/
theorem findEntry_decodes {e : FatDirent} {name n : Bytes} {es : List FatDirent}
    (hlast : e.isLastInList = false) (hlive : (e.isLongName || e.isDummiedOut) = false)
    (hn : e.nameToString = some n)
    (hclean : strEqual n name = false → (findEntry name n es).final = report name es)
    (buffer : Bytes) : (findEntry name buffer (e :: es)).final = report name (e :: es) := by
  have hnamed : isNamed name e = strEqual n name := by
    simp [isNamed, isLive, hlive, hn, strEqual]
  rw [findEntry, if_neg (by simp [hlast]), if_neg (by simp [hlive]), report, listed_cons hlast, hn,
    Option.getD_some]
  dsimp only
  cases heq : strEqual n name with
  | true =>
    rw [List.find?_cons_of_pos (by rw [hnamed, heq])]
    rfl
  | false =>
    rw [List.find?_cons_of_neg (by simp [hnamed, heq])]
    exact hclean heq

/-- A buffer without the name: the inner loop answers with what the records
    say. -/
theorem findEntry_clean {name buffer : Bytes} (hb : strEqual buffer name = false)
    (es : List FatDirent) : (findEntry name buffer es).final = report name es := by
  induction es generalizing buffer with
  | nil => rfl
  | cons e es ih =>
    cases hlast : e.isLastInList with
    | true =>
      rw [findEntry, if_pos hlast, report, listed_last hlast]
      rfl
    | false =>
      cases hlive : (e.isLongName || e.isDummiedOut) with
      | true =>
        obtain ⟨hfind, hreport⟩ := findEntry_skip hlast hlive name buffer es
        rw [hfind, hreport, ih hb]
      | false =>
        cases hn : e.nameToString with
        | none =>
          -- the buffer stays as it is, and is compared once more
          rw [findEntry, if_neg (by simp [hlast]), if_neg (by simp [hlive]), hn, Option.getD_none,
            report, listed_cons hlast, List.find?_cons_of_neg (by simp [isNamed, hn])]
          dsimp only
          rw [if_neg (by simp [hb])]
          exact ih hb
        | some n => exact findEntry_decodes hlast hlive hn ih buffer

/-- A buffer with the name: a first live record without a decodable name is
    taken for the one that is looked for. -/
theorem findEntry_stale {name buffer : Bytes} (hb : strEqual buffer name = true)
    (es : List FatDirent) :
    (findEntry name buffer es).final =
      match (listed es).find? isLive with
      | some e => if e.nameToString = none then .ok (fileOf e) else report name es
      | none => report name es := by
  induction es with
  | nil => rfl
  | cons e es ih =>
    cases hlast : e.isLastInList with
    | true =>
      rw [findEntry, if_pos hlast, report, listed_last hlast]
      rfl
    | false =>
      cases hlive : (e.isLongName || e.isDummiedOut) with
      | true =>
        obtain ⟨hfind, hreport⟩ := findEntry_skip hlast hlive name buffer es
        rw [hfind, hreport, ih, listed_cons hlast,
          List.find?_cons_of_neg (by simp [isLive, hlive])]
      | false =>
        rw [listed_cons hlast, List.find?_cons_of_pos (by simp [isLive, hlive])]
        cases hn : e.nameToString with
        | none =>
          -- the buffer keeps its name, and the record is taken for the file
          rw [findEntry, if_neg (by simp [hlast]), if_neg (by simp [hlive]), hn, Option.getD_none]
          dsimp only
          rw [if_pos hb, hn, if_pos rfl]
          rfl
        | some n =>
          dsimp only
          rw [hn, if_neg (Option.some_ne_none n)]
          exact findEntry_decodes hlast hlive hn (fun h => findEntry_clean h es) buffer

/-- **The inner loop** answers with what the records say, exactly if it is not
    misled. -/
theorem findEntry_reports_iff (name buffer : Bytes) (es : List FatDirent) :
    (findEntry name buffer es).final = report name es ↔ ¬ Misled name buffer es := by
  cases hb : strEqual buffer name with
  -- the buffer is not the name: it is not taken for one
  | false =>
    refine iff_of_true (findEntry_clean hb es) ?_
    intro hmis
    rw [hmis.1] at hb
    cases hb
  | true =>
    rw [findEntry_stale hb]
    cases hlive : (listed es).find? isLive with
    | none =>
      refine iff_of_true rfl ?_
      intro hmis
      obtain ⟨-, e, he, -⟩ := hmis
      rw [hlive] at he
      cases he
    | some e =>
      dsimp only
      -- the first live record answers, if its own name cannot be read
      by_cases hn : e.nameToString = none
      · rw [if_pos hn, report]
        constructor
        · intro heq hmis
          obtain ⟨-, e₁, he₁, -, hother⟩ := hmis
          obtain rfl := Option.some.inj (hlive.symm.trans he₁)
          cases hnamed : (listed es).find? (isNamed name) with
          | none =>
            rw [hnamed] at heq
            cases heq
          | some e' =>
            rw [hnamed] at heq
            exact hother e' hnamed (FindResult.ok.inj heq).symm
        · intro hmis
          by_contra hne
          refine hmis ⟨hb, e, hlive, hn, ?_⟩
          intro e' hnamed heq
          rw [hnamed] at hne
          exact hne (congrArg FindResult.ok heq.symm)
      · rw [if_neg hn]
        refine iff_of_true rfl ?_
        intro hmis
        obtain ⟨-, e₁, he₁, hn₁, -⟩ := hmis
        obtain rfl := Option.some.inj (hlive.symm.trans he₁)
        exact hn hn₁

/-! ## Section 2: Over the clusters -/

/-- A chain that ends is a walk to an end mark. -/
theorem segment_of_chain {c : Nat} {l : List Nat} (h : v.FsChain c l) :
    ∃ d, Segment v.fatEntry v.Follows c l d ∧ endOfChain ≤ d := by
  induction h with
  | done hstop => exact ⟨_, .nil _, hstop⟩
  | link hns hok _ ih =>
    obtain ⟨d, hseg, hd⟩ := ih
    exact ⟨d, .cons ⟨Nat.lt_of_not_le hns, hok⟩ hseg, hd⟩

/-- The search over a chain that ends is the inner loop over all its
    records. -/
theorem find_chain {c : Nat} {l : List Nat} (h : v.FsChain c l) (name buffer : Bytes) :
    v.find name (l.length + 1) c buffer =
      some (findEntry name buffer (l.flatMap v.records)).final := by
  obtain ⟨d, hseg, hd⟩ := segment_of_chain h
  cases hscan : findEntry name buffer (l.flatMap v.records) with
  | found e =>
    have hanswer : (findEntry name buffer (l.flatMap v.records)).answer = some (.ok (fileOf e)) := by
      rw [hscan]
      rfl
    exact Volume.find_mono (Volume.find_answer hseg hanswer) (Nat.le_succ _)
  | last =>
    have hanswer : (findEntry name buffer (l.flatMap v.records)).answer = some .noEntry := by
      rw [hscan]
      rfl
    exact Volume.find_mono (Volume.find_answer hseg hanswer) (Nat.le_succ _)
  | more buffer' =>
    rw [Volume.find_segment hseg hscan, Volume.find, if_pos hd]
    rfl

/-- What `FindInDirectory` answers on a device that never fails. -/
theorem findInDirectory_chain (hw : ¬ w.Faulty) (hco : Coherent v fs) {dir : FatFile}
    (hdir : FlagField.isSet dir.flags FatDirent.directory = true) {name : Bytes}
    (hname : isShortName name = true) {l : List Nat} (hch : v.FsChain dir.cluster l)
    (fuel : Nat) :
    (∀ r fs', findInDirectory w v fuel fs dir name = some (r, fs') →
      r = (findEntry name (w.uninit .nameBuffer fs.loads) (l.flatMap v.records)).final) ∧
    (l.length < fuel → ∃ r fs', findInDirectory w v fuel fs dir name = some (r, fs')) := by
  have hloop : findInDirectory w v fuel fs dir name =
      findLoop w v name fuel fs dir.cluster (w.uninit .nameBuffer fs.loads) := by
    unfold findInDirectory
    rw [if_neg (by simp [hname]), if_neg (by simp [hdir])]
  obtain ⟨hfind, -⟩ :=
    findLoop_reliable hw name fuel hco dir.cluster (w.uninit .nameBuffer fs.loads)
  rw [← hloop] at hfind
  have hchain := find_chain hch name (w.uninit .nameBuffer fs.loads)
  constructor
  · intro r fs' hres
    rw [hres, Option.map_some] at hfind
    have hmore := Volume.find_mono hfind.symm (Nat.le_max_left fuel (l.length + 1))
    rw [Volume.find_mono hchain (Nat.le_max_right fuel (l.length + 1))] at hmore
    exact (Option.some.inj hmore).symm
  · intro hfuel
    rw [Volume.find_mono hchain hfuel] at hfind
    obtain ⟨⟨r, fs'⟩, hres, -⟩ := Option.map_eq_some_iff.mp hfind
    exact ⟨r, fs', hres⟩

/-- **FindInDirectory reports the disk**: on a device that never fails and a
    directory whose chain ends, `FindInDirectory` returns, and it answers with
    the first listed record of the name, or `NoEntry`, exactly if the
    uninitialised buffer does not mislead it. -/
theorem findInDirectory_reports_iff (w : World) (v : Volume) (hw : ¬ w.Faulty) (fs : FatFs)
    (hco : Coherent v fs) (dir : FatFile)
    (hdir : FlagField.isSet dir.flags FatDirent.directory = true) (name : Bytes)
    (hname : isShortName name = true) (l : List Nat) (hch : v.FsChain dir.cluster l) :
    (∀ fuel, l.length < fuel → ∃ r fs', findInDirectory w v fuel fs dir name = some (r, fs')) ∧
    ((∀ fuel r fs', findInDirectory w v fuel fs dir name = some (r, fs') →
        r = report name (l.flatMap v.records)) ↔
      ¬ Misled name (w.uninit .nameBuffer fs.loads) (l.flatMap v.records)) := by
  have hends : ∀ fuel, l.length < fuel →
      ∃ r fs', findInDirectory w v fuel fs dir name = some (r, fs') :=
    fun fuel => (findInDirectory_chain hw hco hdir hname hch fuel).2
  refine ⟨hends, ?_⟩
  rw [← findEntry_reports_iff]
  constructor
  · intro hall
    obtain ⟨r, fs', hres⟩ := hends (l.length + 1) (Nat.lt_succ_self _)
    rw [← (findInDirectory_chain hw hco hdir hname hch _).1 r fs' hres]
    exact hall _ r fs' hres
  · intro heq fuel r fs' hres
    rw [← heq]
    exact (findInDirectory_chain hw hco hdir hname hch fuel).1 r fs' hres

/-- A root directory of one record, whose name field is blank. -/
def blankRecord : Volume :=
  sampleVolume [0x0FFFFFF8, 0x0FFFFFFF, 0x0FFFFFFF, 0x0FFFFFFF] fun lba =>
    if lba = 2 then (sampleRecord [] [] 3 7).raw else []

/-- A device that never fails, on a stack that still has the name `A`. -/
def staleStack : World where
  fault _ _ := none
  uninit _ _ := str "A" ++ List.replicate 12 0

theorem blankRecord_chain : blankRecord.FsChain 2 [2] :=
  .link (by decide) (by decide) (.done (by decide))

theorem findInDirectory_reports_blank :
    ∃ fs', findInDirectory reliable blankRecord 2 freshWindows (rootDir blankRecord) (str "A") =
      some (.noEntry, fs') := by
  have hclean : ¬ Misled (str "A") (reliable.uninit .nameBuffer freshWindows.loads)
      ([2].flatMap blankRecord.records) :=
    fun hmis => absurd hmis.1 (by decide)
  have hreport : report (str "A") ([2].flatMap blankRecord.records) = .noEntry := by
    decide
  obtain ⟨hends, hiff⟩ := findInDirectory_reports_iff reliable blankRecord not_faulty_reliable
    freshWindows (Coherent.new _ _ _) (rootDir blankRecord) (by decide) (str "A") (by decide) [2]
    blankRecord_chain
  obtain ⟨r, fs', hres⟩ := hends 2 (by decide)
  have hr := hiff.mpr hclean 2 r fs' hres
  rw [hreport] at hr
  exact ⟨fs', hr ▸ hres⟩

/-- With the name still on the stack, the record with the blank name is found
    under it. -/
theorem findInDirectory_misled :
    isShortName (str "A") = true ∧ ¬ staleStack.Faulty ∧ blankRecord.FsChain 2 [2] ∧
      report (str "A") ([2].flatMap blankRecord.records) = .noEntry ∧
      ∃ fs', findInDirectory staleStack blankRecord 2 freshWindows (rootDir blankRecord)
        (str "A") = some (.ok ⟨3, 7, 0⟩, fs') := by
  have hrun : (findInDirectory staleStack blankRecord 2 freshWindows (rootDir blankRecord)
      (str "A")).map Prod.fst = some (.ok ⟨3, 7, 0⟩) := by decide
  obtain ⟨⟨r, fs'⟩, hres, rfl⟩ := Option.map_eq_some_iff.mp hrun
  exact ⟨by decide, fun ⟨_, _, h⟩ => h rfl, blankRecord_chain, by decide, fs', hres⟩

end FatFs

end Hausboot

import Mathlib.Data.List.Forall2
import Hausboot.FatEdit.Growth
import Hausboot.FatEdit.Spec
import Hausboot.FatEdit.Streams
import Hausboot.Lib.Relate

/-! # The fatedit Tool: Volumes as Trees

    A volume shows a tree: `loc` gives the first cluster of each directory of
    the tree, and what `ScanDirectory` lists there are the items of the tree,
    one by one. Every well-formed volume shows a tree (`exists_shows`), and
    what a new record does to the volume is `FileTree.make` on the tree. -/

open ByteLib DirTree Prog

namespace Hausboot.FatEdit

open FatDirent

/-! ## Section 1: Items of a volume -/

/-- The entry is that of a file with the bytes `d`: the front of the chain of a
    live record, which belongs to a directory of the volume. -/
def Stores (v : Vol) (e : DirEntry) (d : Bytes) : Prop :=
  ∃ c p lc r l, v.IsDir c p ∧ v.Chain c lc ∧ r ∈ live (v.content lc) ∧ r.isDot = false ∧
    r.isDirectory = false ∧ e.size = r.size ∧ e.firstCluster = r.clusterIndex ∧
    v.EntryChain r l ∧ d = (v.content l).take e.size

def ShowsNode (v : Vol) (loc : ℕ → ℕ) (e : DirEntry) : Node Bytes → Prop
  | .dir i => e.isDirectory = true ∧ loc i = e.firstCluster
  | .file d => e.isDirectory = false ∧ Stores v e d

structure ShowsItem (v : Vol) (loc : ℕ → ℕ) (e : DirEntry) (it : Item) : Prop where
  longName : it.longName = e.longName
  shortName : it.shortName = e.shortName
  size : it.size = e.size
  node : ShowsNode v loc e it.node

/-- The code refuses with a message. -/
def Refusal (f : Fail) (msg : Bytes) : Prop := f = .refuse msg

/-- What is listed: the items in order, or the same message. -/
def ShowsList (v : Vol) (loc : ℕ → ℕ) :
    Except Fail (List DirEntry) → Except Bytes (List Item) → Prop :=
  Agrees Refusal (List.Forall₂ (ShowsItem v loc))

/-- The directory at cluster `c`. -/
def ShowsDir (v : Vol) (loc : ℕ → ℕ) (c : ℕ) (its : Except Bytes (List Item)) : Prop :=
  ∃ l gs, v.Chain c l ∧ Groups (body (v.content l)) gs ∧ ShowsList v loc (makeEntries gs) its

/-- The volume shows the tree. -/
structure Shows (v : Vol) (loc : ℕ → ℕ) (t : FileTree) : Prop where
  proper : t.Proper items
  root : loc 0 = v.root
  inj : ∀ i < t.count, ∀ j < t.count, loc i = loc j → i = j
  dirs : ∀ i < t.count, ∃ p, v.IsDir (loc i) p
  lists : ∀ i < t.count, ShowsDir v loc (loc i) (t.list i)

variable {v v' : Vol} {loc loc' : ℕ → ℕ} {t : FileTree} {e : DirEntry} {it : Item} {d : Bytes}

theorem Stores.length (hv : v.Sane) (h : Stores v e d) : d.length = e.size := by
  obtain ⟨c, p, lc, r, l, -, -, -, -, -, hsize, -, hent, rfl⟩ := h
  rcases hent with ⟨hch, -, hle⟩ | ⟨-, hzero, -, rfl⟩
  · rw [List.length_take, Vol.length_content hv fun x hx => hch.valid hx]
    omega
  · rw [List.length_take, hsize, hzero, Nat.zero_min]

/-- What an entry of a directory is: a directory, or a file with some bytes. -/
theorem entry_cases (hwf : v.WellFormed) {c : ℕ} {p : Option ℕ} {l : List ℕ}
    (hdir : v.IsDir c p) (hch : v.Chain c l) {gs : List (List FatDirentLong × FatDirent)}
    (hgs : Groups (body (v.content l)) gs) {es : List DirEntry} (hes : makeEntries gs = .ok es)
    (he : e ∈ es) :
    (e.isDirectory = true ∧ ∃ p, v.IsDir e.firstCluster p) ∨
      (e.isDirectory = false ∧ ∃ d, Stores v e d) := by
  obtain ⟨⟨ls, r⟩, hg, hentry⟩ := makeEntries_mem hes he
  obtain ⟨-, hsize, hcluster, hisDir, -⟩ := makeEntry_fields hentry
  have hr : r ∈ live (v.content l) := by
    rw [live, ← hgs.map_snd]
    exact List.mem_map_of_mem hg
  rcases hdot : r.isDot with _ | _
  · rcases hd : r.isDirectory with _ | _
    · obtain ⟨lr, hent⟩ := hwf.entries hdir hch hr hdot
      exact .inr ⟨hisDir.trans hd, _, c, p, l, r, lr, hdir, hch, hr, hdot, hd, hsize, hcluster,
        hent, rfl⟩
    · refine .inl ⟨hisDir.trans hd, some c, ?_⟩
      rw [hcluster]
      exact .sub hdir hch hr hd hdot
  · -- a dot record; the root has none
    cases hdir with
    | root =>
      rw [hwf.rootDots hch hr] at hdot
      cases hdot
    | @sub c' p' l' r' hdir' hch' hr' hd' hdot' =>
      have hsub : v.IsDir r'.clusterIndex (some c') := .sub hdir' hch' hr' hd' hdot'
      obtain ⟨hd, hself, hparent⟩ := hwf.dots hsub hch hr hdot
      refine .inl ⟨hisDir.trans hd, ?_⟩
      rw [hcluster]
      simp only [isDot, Bool.or_eq_true, decide_eq_true_eq] at hdot
      rcases hdot with hdot | hdot
      · rw [hself hdot]
        exact ⟨_, hsub⟩
      · rw [hparent hdot]
        exact ⟨_, hdir'⟩

/-! ## Section 2: Every well-formed volume shows a tree -/

/-- The directories of a volume, the root first. -/
theorem exists_dirs (hwf : v.WellFormed) :
    ∃ cs : List ℕ, (v.root :: cs).Nodup ∧ ∀ c, c ∈ v.root :: cs ↔ ∃ p, v.IsDir c p := by
  classical
  refine ⟨((Finset.range (v.count + 2)).filter fun c =>
    (∃ p, v.IsDir c p) ∧ c ≠ v.root).toList, ?_, ?_⟩
  · rw [List.nodup_cons]
    exact ⟨by simp, Finset.nodup_toList _⟩
  · intro c
    rw [List.mem_cons, Finset.mem_toList, Finset.mem_filter, Finset.mem_range]
    constructor
    · rintro (rfl | ⟨-, hdir, -⟩)
      · exact ⟨none, .root⟩
      · exact hdir
    · rintro ⟨p, hdir⟩
      by_cases hroot : c = v.root
      · exact .inl hroot
      · exact .inr ⟨(hdir.valid hwf.toSound).2, ⟨p, hdir⟩, hroot⟩

/-- What a directory lists, where every directory of the volume has a number
    below `n`. -/
theorem exists_showsDir (hwf : v.WellFormed) {n : ℕ}
    (hnum : ∀ c p, v.IsDir c p → ∃ i < n, loc i = c) {c : ℕ} {p : Option ℕ} (hdir : v.IsDir c p) :
    ∃ its, ShowsDir v loc c its ∧
      ∀ as, its = .ok as → ∀ a ∈ as, (items.node a).Below n := by
  obtain ⟨-, l, -, hch, -⟩ := hdir.owner hwf.toSound
  obtain ⟨gs, hgs⟩ := hwf.groups hdir hch
  cases hes : makeEntries gs with
  | error f =>
    obtain ⟨msg, rfl⟩ := makeEntries_refuses hes
    refine ⟨.error msg, ⟨l, gs, hch, hgs, agrees_error.mpr ⟨_, hes, rfl⟩⟩, ?_⟩
    intro as has
    cases has
  | ok es =>
    -- an item for each entry
    have hitem : ∀ e ∈ es, ∃ it, ShowsItem v loc e it ∧ it.node.Below n := by
      intro e he
      rcases entry_cases hwf hdir hch hgs hes he with ⟨hd, p', hsub⟩ | ⟨hd, d, hstores⟩
      · obtain ⟨i, hi, hloc⟩ := hnum _ _ hsub
        refine ⟨⟨e.longName, e.shortName, e.size, .dir i, fun _ h => by cases h⟩,
          ⟨rfl, rfl, rfl, hd, hloc⟩, ?_⟩
        intro j hj
        cases hj
        exact hi
      · refine ⟨⟨e.longName, e.shortName, e.size, .file d, fun d' h => ?_⟩,
          ⟨rfl, rfl, rfl, hd, hstores⟩, fun j hj => by cases hj⟩
        cases h
        exact (hstores.length hwf.toSane).symm
    have : Nonempty Item := ⟨plainItem [] (.file [])⟩
    choose! g hg using hitem
    refine ⟨.ok (es.map g), ⟨l, gs, hch, hgs, agrees_ok.mpr ⟨es, hes, ?_⟩⟩, ?_⟩
    · exact List.forall₂_map_right_iff.mpr (List.forall₂_same.mpr fun e he => (hg e he).1)
    · intro as has a ha
      cases has
      obtain ⟨e, he, rfl⟩ := List.mem_map.mp ha
      exact (hg e he).2

/-- **Every well-formed volume shows a tree.** -/
theorem exists_shows (hwf : v.WellFormed) : ∃ loc t, Shows v loc t := by
  obtain ⟨cs, hnodup, hmem⟩ := exists_dirs hwf
  set dirs := v.root :: cs with hdirs
  have hnum : ∀ c p, v.IsDir c p → ∃ i < dirs.length, (fun i => dirs.getD i 0) i = c := by
    intro c p hdir
    obtain ⟨i, hi, hc⟩ := List.getElem_of_mem ((hmem c).mpr ⟨p, hdir⟩)
    exact ⟨i, hi, by simp [List.getD_eq_getElem?_getD, hi, hc]⟩
  have hisDir : ∀ i < dirs.length, ∃ p, v.IsDir (dirs.getD i 0) p := by
    intro i hi
    rw [← hmem, List.getD_eq_getElem?_getD, List.getElem?_eq_getElem hi, Option.getD_some]
    exact List.getElem_mem hi
  have hlist : ∀ i < dirs.length, ∃ its, ShowsDir v (fun i => dirs.getD i 0) (dirs.getD i 0) its ∧
      ∀ as, its = .ok as → ∀ a ∈ as, (items.node a).Below dirs.length := by
    intro i hi
    obtain ⟨p, hdir⟩ := hisDir i hi
    exact exists_showsDir hwf hnum hdir
  choose! f hf using hlist
  refine ⟨fun i => dirs.getD i 0, ⟨dirs.length, fun i => if i < dirs.length then f i else .ok []⟩,
    ⟨?_, ?_, ?_⟩, rfl, ?_, hisDir, ?_⟩
  · simp [hdirs]
  · intro i hi
    exact if_neg (Nat.not_lt.mpr hi)
  · intro i as has a ha
    dsimp only at has
    split at has
    · next hi => exact (hf i hi).2 as has a ha
    · cases has
      cases ha
  · intro i hi j hj hij
    simp only [List.getD_eq_getElem?_getD, List.getElem?_eq_getElem hi,
      List.getElem?_eq_getElem hj, Option.getD_some] at hij
    exact (hnodup.getElem_inj_iff).mp hij
  · intro i hi
    dsimp only
    rw [if_pos hi]
    exact (hf i hi).1

/-! ## Section 3: What a new record changes -/

theorem makeEntries_append_error {gs gs' : List (List FatDirentLong × FatDirent)}
    {es : List DirEntry} {f : Fail} (h : makeEntries gs = .ok es)
    (h' : makeEntries gs' = .error f) : makeEntries (gs ++ gs') = .error f := by
  induction gs generalizing es with
  | nil => exact h'
  | cons g gs ih =>
    obtain ⟨e, es', hentry, hrest, -⟩ := makeEntries_cons_ok.mp h
    rw [List.cons_append, makeEntries, hentry, ih hrest]
    rfl

section Grew

variable {P : ℕ} {lP lP' lr : List ℕ} {r : FatDirent} {its : List Item}

theorem Stores.grew (hwf : v.WellFormed) (hg : Vol.Grew v v' P lP lP' r lr) (h : Stores v e d) :
    Stores v' e d := by
  have hs := hwf.toSound
  obtain ⟨c, p, lc, re, l, hdir, hch, hre, hdot, hfile, hsize, hcluster, hent, rfl⟩ := h
  obtain ⟨pP, hP⟩ := hg.dir
  -- the chain of the file is not the one of the directory that grows
  have hdisj := hs.file_disjoint hdir hP hch hg.chain hre hdot hfile hent
  obtain ⟨i, hown⟩ := Vol.Owns.of_mem hdir hch hre hdot hent
  obtain ⟨l', hent', hcases⟩ := hg.entryChain hs hown hent
  have hl' : l' = l := by
    rcases hcases with ⟨rfl, -⟩ | ⟨-, rfl⟩
    · exact absurd (hg.head_mem hs) fun hx => hdisj hx hx
    · rfl
  subst hl'
  have hcont : v'.content l' = v.content l' :=
    Vol.content_congr fun x hx => (hg.frame x (hdisj hx) (hent.used hx)).2
  -- its record is still there
  obtain ⟨lc', hch', hre'⟩ : ∃ lc', v'.Chain c lc' ∧ re ∈ live (v'.content lc') := by
    rcases hg.dir_chain hs hdir hch with ⟨rfl, rfl⟩ | ⟨-, hkeep, hsame⟩
    · exact ⟨lP', hg.chain', by rw [hg.live_eq]; exact List.mem_append_left _ hre⟩
    · exact ⟨lc, hkeep, by rw [hsame]; exact hre⟩
  exact ⟨c, p, lc', re, l', hg.isDir hs hdir, hch', hre', hdot, hfile, hsize, hcluster, hent',
    by rw [hcont]⟩

/-- The numbers of directories that the items know of are the same. -/
def SameLoc (loc loc' : ℕ → ℕ) (its : List Item) : Prop :=
  ∀ it ∈ its, ∀ j, it.node = .dir j → loc' j = loc j

theorem ShowsItem.grew (hwf : v.WellFormed) (hg : Vol.Grew v v' P lP lP' r lr)
    (h : ShowsItem v loc e it) (hloc : ∀ j, it.node = .dir j → loc' j = loc j) :
    ShowsItem v' loc' e it where
  longName := h.longName
  shortName := h.shortName
  size := h.size
  node := by
    have hshows := h.node
    cases hnode : it.node with
    | dir j =>
      rw [hnode] at hshows
      exact ⟨hshows.1, (hloc j hnode).trans hshows.2⟩
    | file d =>
      rw [hnode] at hshows
      exact ⟨hshows.1, hshows.2.grew hwf hg⟩

theorem forall₂_grew (hwf : v.WellFormed) (hg : Vol.Grew v v' P lP lP' r lr) {es : List DirEntry}
    (h : List.Forall₂ (ShowsItem v loc) es its) (hloc : SameLoc loc loc' its) :
    List.Forall₂ (ShowsItem v' loc') es its := by
  induction h with
  | nil => exact .nil
  | cons hitem _ ih =>
    exact .cons (hitem.grew hwf hg (hloc _ (by simp)))
      (ih fun it hit => hloc it (List.mem_cons_of_mem _ hit))

/-- Other directories show the same items. -/
theorem ShowsDir.other (hwf : v.WellFormed) (hg : Vol.Grew v v' P lP lP' r lr) {c : ℕ}
    {p : Option ℕ} (hdir : v.IsDir c p) (hc : c ≠ P) {x : Except Bytes (List Item)}
    (h : ShowsDir v loc c x) (hloc : ∀ its, x = .ok its → SameLoc loc loc' its) :
    ShowsDir v' loc' c x := by
  obtain ⟨l, gs, hch, hgs, hlist⟩ := h
  rcases hg.dir_chain hwf.toSound hdir hch with ⟨heq, -⟩ | ⟨-, hkeep, hcont⟩
  · exact absurd heq hc
  · refine ⟨l, gs, hkeep, by rw [hcont]; exact hgs, ?_⟩
    cases x with
    | error msg => exact agrees_error.mpr (agrees_error.mp hlist)
    | ok its =>
      obtain ⟨es, hes, hall⟩ := agrees_ok.mp hlist
      exact agrees_ok.mpr ⟨es, hes, forall₂_grew hwf hg hall (hloc its rfl)⟩

/-- The directory of the record shows one item more, or cannot be listed any
    more. -/
theorem ShowsDir.self (hwf : v.WellFormed) (hg : Vol.Grew v v' P lP lP' r lr)
    (h : ShowsDir v loc P (.ok its)) (hloc : SameLoc loc loc' its) :
    (∀ e it, makeEntry r [] = .ok e → ShowsItem v' loc' e it →
      ShowsDir v' loc' P (.ok (its ++ [it]))) ∧
    ∀ msg, makeEntry r [] = .error (.refuse msg) → ShowsDir v' loc' P (.error msg) := by
  obtain ⟨l, gs, hch, hgs, hlist⟩ := h
  obtain ⟨es, hes, hall⟩ := agrees_ok.mp hlist
  obtain rfl := ChainLib.Chain.unique hch hg.chain
  have hgs' : Groups (body (v'.content lP')) (gs ++ [([], r)]) := by
    rw [hg.body]
    exact hgs.append (.plain hg.isLive .nil)
  constructor
  · intro e it hnew hitem
    have hone : makeEntries [([], r)] = .ok [e] :=
      makeEntries_cons_ok.mpr ⟨e, [], hnew, rfl, rfl⟩
    exact ⟨lP', _, hg.chain', hgs', agrees_ok.mpr ⟨es ++ [e], makeEntries_append_ok hes hone,
      List.rel_append (forall₂_grew hwf hg hall hloc) (.cons hitem .nil)⟩⟩
  · intro msg hnew
    have hone : makeEntries [([], r)] = .error (.refuse msg) := by
      rw [makeEntries, hnew]
      rfl
    exact ⟨lP', _, hg.chain', hgs',
      agrees_error.mpr ⟨_, makeEntries_append_error hes hone, rfl⟩⟩

/-! ## Section 4: Making an item -/

/-- Every directory but number `i` shows its items. -/
structure ShowsBut (v : Vol) (loc : ℕ → ℕ) (t : FileTree) (i : ℕ) : Prop where
  proper : t.Proper items
  root : loc 0 = v.root
  inj : ∀ j < t.count, ∀ k < t.count, loc j = loc k → j = k
  dirs : ∀ j < t.count, ∃ p, v.IsDir (loc j) p
  lists : ∀ j < t.count, j ≠ i → ShowsDir v loc (loc j) (t.list j)

variable {i : ℕ} {name : Bytes} {first : ℕ}

theorem ShowsBut.put (h : ShowsBut v loc t i) (hi : i < t.count) (hlist : t.list i = .ok its)
    {node : Node Bytes} (hnode : node.Below t.count)
    (hsome : ∀ shown, (namedRecord name).shortName = some shown →
      ShowsDir v loc (loc i) (.ok (its ++ [plainItem shown node])))
    (hnone : (namedRecord name).shortName = none →
      ShowsDir v loc (loc i) (.error unshownName)) : Shows v loc (t.put i name node) := by
  unfold FileTree.put
  cases hname : (namedRecord name).shortName with
  | some shown =>
    refine ⟨h.proper.add hi hnode, h.root, h.inj, h.dirs, fun j hj => ?_⟩
    by_cases hji : j = i
    · subst hji
      simp only [Tree.list_add_self, hlist, Except.map]
      exact hsome shown hname
    · simp only [Tree.list_add_ne hji]
      exact h.lists j hj hji
  | none =>
    refine ⟨h.proper.spoil hi _, h.root, h.inj, h.dirs, fun j hj => ?_⟩
    by_cases hji : j = i
    · subst hji
      simp only [Tree.list_spoil_self]
      exact hnone hname
    · simp only [Tree.list_spoil_ne hji]
      exact h.lists j hj hji

theorem makeEntry_shown {isDir : Bool} {size : ℕ} {shown : Bytes}
    (h : (namedRecord name).shortName = some shown) (hfirst : first < 2 ^ 32)
    (hsize : size < 2 ^ 32) :
    makeEntry (entryRecord isDir name first size) [] =
      .ok ⟨shown, shown, if isDir then 0 else size, first, isDir⟩ := by
  have hshort := (shortName_entryRecord isDir name first size).trans h
  rw [makeEntry_eq (by rw [hshort]; rfl) (by simp), shownEntry, hshort,
    size_entryRecord _ _ hsize, clusterIndex_entryRecord _ _ hfirst, isDirectory_entryRecord]
  rfl

theorem makeEntry_unshown (h : (namedRecord name).shortName = none) (isDir : Bool) (size : ℕ) :
    makeEntry (entryRecord isDir name first size) [] = .error (.refuse unshownName) := by
  have hshort := (shortName_entryRecord isDir name first size).trans h
  rw [shortName, Option.map_eq_none_iff] at hshort
  rw [makeEntry, hshort]
  rfl

theorem size_dotRecord (name : Bytes) (cluster : ℕ) : (dotRecord name cluster).size = 0 := by
  rw [FatDirent.size, field, dotRecord, window_setClusterIndex
    (length_setEntryFlags (length_setName length_default _) _) _ (.inr (.inr (by omega))),
    window_setEntryFlags (length_setName length_default _) _ (.inr (by omega)),
    window_setName length_default _ (by omega)]
  rfl

theorem makeEntry_dotRecord {cluster : ℕ} (hc : cluster < 2 ^ 32)
    (hname : name = [0x2E] ∨ name = [0x2E, 0x2E]) :
    makeEntry (dotRecord name cluster) [] = .ok ⟨name, name, 0, cluster, true⟩ := by
  have hdot := dotRecord_spec hc hname
  rw [makeEntry_eq (by rw [hdot.shortName]; rfl) (by simp), shownEntry, hdot.shortName,
    size_dotRecord, hdot.clusterIndex, hdot.isDirectory]
  rfl

/-- What a new directory shows. -/
theorem showsDir_dots {l : List ℕ} {self : ℕ} (hch : v.Chain first l)
    (hbytes : (v.content l).take (dotBytes P first).length = dotBytes P first)
    (hfirst : first < 2 ^ 32) (hP : P < 2 ^ 32) (hself : loc self = first) (hi : loc i = P) :
    ShowsDir v loc first (.ok (FileTree.dotItems self i)) := by
  obtain ⟨hdot, hdots⟩ := lit_dot
  have hself' := dotRecord_spec hfirst (.inl hdot)
  have hparent := dotRecord_spec hP (.inr hdots)
  have hbody : body (v.content l) = [dotRecord (lit ".") first, dotRecord (lit "..") P] := by
    have hsplit : v.content l = rawBytes [dotRecord (lit ".") first, dotRecord (lit "..") P] ++
        (FatDirent.zero.raw ++ (v.content l).drop (dotBytes P first).length) := by
      conv_lhs => rw [← List.take_append_drop (dotBytes P first).length (v.content l), hbytes]
      simp [dotBytes, terminated, rawBytes]
    rw [hsplit]
    apply body_rawBytes
    · simp [length_dotRecord]
    · simp [isLastInList_dotRecord _ (.inl hdot), isLastInList_dotRecord _ (.inr hdots)]
    · exact ends_zero _
  refine ⟨l, [([], dotRecord (lit ".") first), ([], dotRecord (lit "..") P)], hch, ?_,
    agrees_ok.mpr ⟨[⟨lit ".", lit ".", 0, first, true⟩, ⟨lit "..", lit "..", 0, P, true⟩],
      ?_, ?_⟩⟩
  · rw [hbody]
    exact .plain hself'.isLive (.plain hparent.isLive .nil)
  · exact makeEntries_cons_ok.mpr ⟨_, _, makeEntry_dotRecord hfirst (.inl hdot),
      makeEntries_cons_ok.mpr ⟨_, _, makeEntry_dotRecord hP (.inr hdots), rfl, rfl⟩, rfl⟩
  · exact .cons ⟨rfl, rfl, rfl, rfl, hself⟩ (.cons ⟨rfl, rfl, rfl, rfl, hi⟩ .nil)

namespace Shows

/-- The directory `i` is the one that has grown by a record with this name. -/
structure At (v : Vol) (loc : ℕ → ℕ) (t : FileTree) (i : ℕ) (its : List Item) (P : ℕ) : Prop
    extends Shows v loc t where
  lt : i < t.count
  loc_eq : loc i = P
  list : t.list i = .ok its

/-- What the directory shows afterwards. -/
theorem At.record (h : At v loc t i its P) (hwf : v.WellFormed) {isDir : Bool} {size : ℕ}
    (hg : Vol.Grew v v' P lP lP' (entryRecord isDir name first size) lr)
    (hfirst : first < 2 ^ 32) (hsize : size < 2 ^ 32) (hloc : SameLoc loc loc' its)
    (hi : loc' i = P) {node : Node Bytes}
    (hnode : ∀ shown, ShowsItem v' loc'
      ⟨shown, shown, if isDir then 0 else size, first, isDir⟩ (plainItem shown node)) :
    (∀ shown, (namedRecord name).shortName = some shown →
      ShowsDir v' loc' (loc' i) (.ok (its ++ [plainItem shown node]))) ∧
    ((namedRecord name).shortName = none → ShowsDir v' loc' (loc' i) (.error unshownName)) := by
  have hold := h.lists i h.lt
  rw [h.list, h.loc_eq] at hold
  obtain ⟨hok, herror⟩ := hold.self hwf hg hloc
  rw [hi]
  exact ⟨fun shown hshown => hok _ _ (makeEntry_shown hshown hfirst hsize) (hnode shown),
    fun hname => herror _ (makeEntry_unshown hname isDir size)⟩

/-- **A new file** comes behind the items of the directory. -/
theorem At.makeFile (h : At v loc t i its P) (hwf : v.WellFormed)
    (hg : Vol.Grew v v' P lP lP' (entryRecord false name first d.length) lr)
    (hfirst : first < 2 ^ 32) (hlen : d.length < 2 ^ 32)
    (hbytes : (v'.content lr).take d.length = d) : Shows v' loc (t.put i name (.file d)) := by
  have hs := hwf.toSound
  have hbut : ShowsBut v' loc t i := by
    refine ⟨h.proper, h.root.trans hg.root.symm, h.inj, fun j hj => ?_, fun j hj hji => ?_⟩
    · obtain ⟨p, hp⟩ := h.dirs j hj
      exact ⟨p, hg.isDir hs hp⟩
    · obtain ⟨p, hp⟩ := h.dirs j hj
      have hne : loc j ≠ P := fun heq => hji (h.inj j hj i h.lt (heq.trans h.loc_eq.symm))
      exact (h.lists j hj).other hwf hg hp hne fun _ _ _ _ _ _ => rfl
  have hitem : ∀ shown, ShowsItem v' loc ⟨shown, shown, d.length, first, false⟩
      (plainItem shown (.file d)) := by
    intro shown
    obtain ⟨p, hP⟩ := hg.dir
    have hsize : (entryRecord false name first d.length).size = d.length := by
      rw [size_entryRecord _ _ hlen]
      rfl
    refine ⟨rfl, rfl, rfl, rfl, P, p, lP', _, lr, hg.isDir hs hP, hg.chain', ?_, hg.notDot,
      isDirectory_entryRecord _ _ _ _, hsize.symm, (clusterIndex_entryRecord _ _ hfirst).symm,
      hg.entry, hbytes.symm⟩
    rw [hg.live_eq]
    exact List.mem_append_right _ (List.mem_singleton_self _)
  obtain ⟨hsome, hnone⟩ := h.record hwf hg hfirst hlen (fun _ _ _ _ => rfl) h.loc_eq hitem
  exact hbut.put h.lt h.list (fun j hj => by cases hj) hsome hnone

/-- A cluster of a directory is in use. -/
theorem used (h : Shows v loc t) (hs : v.Sound) {j : ℕ} (hj : j < t.count) :
    v.next (loc j) ≠ 0 := by
  obtain ⟨p, hp⟩ := h.dirs j hj
  obtain ⟨k, l, hown, hch, hne⟩ := hp.owner hs
  exact hown.used (hch.head_mem hne)

/-- **A new directory** gets the next number; it shows its two dot items. -/
theorem At.makeDirectory (h : At v loc t i its P) (hwf : v.WellFormed)
    (hg : Vol.Grew v v' P lP lP' (entryRecord true name first 0) lr)
    (hfirst : first < 2 ^ 32) (hP : P < 2 ^ 32)
    (hbytes : (v'.content lr).take (dotBytes P first).length = dotBytes P first) :
    Shows v' (Function.update loc t.count first)
      (FileTree.put (t.grow (FileTree.dotItems t.count i)) i name (.dir t.count)) := by
  have hs := hwf.toSound
  set loc' := Function.update loc t.count first with hloc'
  have hold : ∀ j < t.count, loc' j = loc j :=
    fun j hj => Function.update_of_ne (Nat.ne_of_lt hj) _ _
  have hself : loc' t.count = first := Function.update_self _ _ _
  have hcluster : (entryRecord true name first 0).clusterIndex = first :=
    clusterIndex_entryRecord _ _ hfirst
  obtain ⟨hch, hne⟩ := hg.entry.dir (isDirectory_entryRecord _ _ _ _)
  rw [hcluster] at hch
  -- the first cluster of the new directory was free
  have hfree : v.next first = 0 := hg.freshEntry _ (hch.head_mem hne)
  have hnew : ∀ j < t.count, loc j ≠ first := by
    intro j hj heq
    exact h.used hs hj (heq ▸ hfree)
  have hlive : entryRecord true name first 0 ∈ live (v'.content lP') := by
    rw [hg.live_eq]
    exact List.mem_append_right _ (List.mem_singleton_self _)
  obtain ⟨p, hPdir⟩ := hg.dir
  have hbut : ShowsBut v' loc' (t.grow (FileTree.dotItems t.count i)) i := by
    refine ⟨h.proper.grow ?_, ?_, ?_, ?_, ?_⟩
    · intro a ha j hj
      simp only [FileTree.dotItems, List.mem_cons, List.not_mem_nil, or_false] at ha
      rcases ha with rfl | rfl
      · cases hj
        exact Nat.lt_succ_self _
      · cases hj
        exact Nat.lt_succ_of_lt h.lt
    · rw [hold 0 h.proper.root, h.root, hg.root]
    · intro j hj k hk hjk
      rw [Tree.count_grow] at hj hk
      rcases Nat.lt_succ_iff_lt_or_eq.mp hj with hj | rfl
      · rcases Nat.lt_succ_iff_lt_or_eq.mp hk with hk | rfl
        · rw [hold j hj, hold k hk] at hjk
          exact h.inj j hj k hk hjk
        · rw [hold j hj, hself] at hjk
          exact absurd hjk (hnew j hj)
      · rcases Nat.lt_succ_iff_lt_or_eq.mp hk with hk | rfl
        · rw [hself, hold k hk] at hjk
          exact absurd hjk.symm (hnew k hk)
        · rfl
    · intro j hj
      rcases Nat.lt_succ_iff_lt_or_eq.mp hj with hj | rfl
      · obtain ⟨q, hq⟩ := h.dirs j hj
        rw [hold j hj]
        exact ⟨q, hg.isDir hs hq⟩
      · have hsub : v'.IsDir (entryRecord true name first 0).clusterIndex (some P) :=
          .sub (hg.isDir hs hPdir) hg.chain' hlive (isDirectory_entryRecord _ _ _ _) hg.notDot
        rw [hself, ← hcluster]
        exact ⟨_, hsub⟩
    · intro j hj hji
      rcases Nat.lt_succ_iff_lt_or_eq.mp hj with hj | rfl
      · obtain ⟨q, hq⟩ := h.dirs j hj
        have hjP : loc j ≠ P := fun heq => hji (h.inj j hj i h.lt (heq.trans h.loc_eq.symm))
        rw [hold j hj, Tree.list_grow_ne (Nat.ne_of_lt hj)]
        refine (h.lists j hj).other hwf hg hq hjP fun as has a ha k hk => hold k ?_
        exact h.proper.closed j as has a ha k hk
      · rw [hself, Tree.list_grow_self]
        exact showsDir_dots hch hbytes hfirst hP hself ((hold i h.lt).trans h.loc_eq)
  have hlist : (t.grow (FileTree.dotItems t.count i)).list i = .ok its := by
    rw [Tree.list_grow_ne (Nat.ne_of_lt h.lt), h.list]
  have hsame : SameLoc loc loc' its :=
    fun a ha k hk => hold k (h.proper.closed i its h.list a ha k hk)
  have hitem : ∀ shown, ShowsItem v' loc' ⟨shown, shown, 0, first, true⟩
      (plainItem shown (.dir t.count)) := fun shown => ⟨rfl, rfl, rfl, rfl, hself⟩
  obtain ⟨hsome, hnone⟩ := h.record hwf hg hfirst (by decide) hsame ((hold i h.lt).trans h.loc_eq)
    hitem
  refine hbut.put (Nat.lt_succ_of_lt h.lt) hlist ?_ hsome hnone
  intro j hj
  cases hj
  exact Nat.lt_succ_self _

end Shows

end Grew

end Hausboot.FatEdit

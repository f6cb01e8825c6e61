import Hausboot.FatEdit.RoundTrip
import Hausboot.FatEdit.Shows
import Hausboot.FatEdit.Silent

/-! # The fatedit Tool: The Code Does What the Commands Mean

    Every function of `fatedit` that looks something up agrees with its
    counterpart on the tree that the volume shows, down to the messages. A
    command that makes something either makes it in the tree as well, or ends
    the program with an exception because there is no room for it. -/

open ByteLib DirTree Prog

namespace Hausboot.FatEdit

open FatDirent Session

variable {super : FatSuper} {s s' : Session} {v : Vol} {loc : ℕ → ℕ} {t : FileTree}

/-! ## Section 1: Looking up -/

/-- An item answers to a name if its entry has it. -/
theorem ShowsItem.answers {e : DirEntry} {it : Item} (h : ShowsItem v loc e it) (name : Bytes) :
    items.answers it name = (e.longName == name || e.shortName == name) := by
  simp only [items, h.longName, h.shortName]

theorem find?_shows {es : List DirEntry} {its : List Item}
    (h : List.Forall₂ (ShowsItem v loc) es its) (name : Bytes) :
    Option.Rel (ShowsItem v loc)
      (es.find? fun it => it.longName == name || it.shortName == name)
      (its.find? (items.answers · name)) := by
  induction h with
  | nil => exact .none
  | cons hitem _ ih =>
    rw [List.find?_cons, List.find?_cons, hitem.answers]
    split
    · exact .some hitem
    · exact ih

theorem any_shows {es : List DirEntry} {its : List Item}
    (h : List.Forall₂ (ShowsItem v loc) es its) (name : Bytes) :
    es.any (fun it => it.shortName == name || it.longName == name) =
      its.any (items.answers · name) := by
  induction h with
  | nil => rfl
  | cons hitem _ ih =>
    rw [List.any_cons, List.any_cons, ih, hitem.answers]
    congr 1
    exact Bool.or_comm _ _

/-- `ScanDirectory` lists the items. -/
theorem scan_shows (hs : s.Sound super) (h : Shows (memView super s) loc t) {i : ℕ}
    (hi : i < t.count) :
    Agrees Refusal (fun r its => List.Forall₂ (ShowsItem (memView super s) loc) r.1 its)
      (scanDirectory super s (dirReader (loc i))) (t.list i) := by
  obtain ⟨p, hdir⟩ := h.dirs i hi
  obtain ⟨l, gs, hch, hgs, hlist⟩ := h.lists i hi
  have hne : l ≠ [] := by
    obtain ⟨-, l', -, hch', hne⟩ := hdir.owner hs.wellFormed.toSound
    rwa [ChainLib.Chain.unique hch hch']
  rw [scanDirectory_spec hs.toOk hs.wellFormed.toSane hch hne hgs]
  cases hits : t.list i with
  | ok its =>
    rw [hits] at hlist
    obtain ⟨es, hes, hall⟩ := agrees_ok.mp hlist
    exact agrees_ok.mpr ⟨_, scanned_ok.mpr ⟨es, hes, rfl, rfl⟩, hall⟩
  | error msg =>
    rw [hits] at hlist
    obtain ⟨f, hf, hmsg⟩ := agrees_error.mp hlist
    exact agrees_error.mpr ⟨f, by rw [hf]; rfl, hmsg⟩

/-- A place that a path can lead to. -/
def ShowsPlace (super : FatSuper) (s : Session) (loc : ℕ → ℕ) (t : FileTree) (e : DirEntry)
    (x : Node Bytes) : Prop :=
  ShowsNode (memView super s) loc e x ∧ x.Below t.count

theorem Shows.rootPlace (h : Shows (memView super s) loc t) :
    ShowsPlace super s loc t (rootEntry super) (.dir 0) := by
  refine ⟨⟨rfl, h.root⟩, fun j hj => ?_⟩
  cases hj
  exact h.proper.root

/-- `FindFile` follows the path through the tree. -/
theorem findLoop_shows (hs : s.Sound super) (h : Shows (memView super s) loc t) (args : Bytes)
    (path : List Bytes) {e : DirEntry} {x : Node Bytes} (he : ShowsPlace super s loc t e x) :
    Agrees (fun f stop => Refusal f (stopMessage args stop)) (ShowsPlace super s loc t)
      (findLoop super s args path e) (t.walk items path x) := by
  induction path generalizing e x with
  | nil => exact he
  | cons name path ih =>
    obtain ⟨hnode, hx⟩ := he
    cases x with
    | file d =>
      rw [findLoop, hnode.1]
      rfl
    | dir i =>
      obtain ⟨hdir, hloc⟩ := hnode
      have hi := hx i rfl
      have hscan := scan_shows hs h hi
      rw [findLoop, hdir, Tree.walk, Tree.enter, ← hloc]
      cases hlist : t.list i with
      | error msg =>
        rw [hlist] at hscan
        obtain ⟨f, hf, hmsg⟩ := agrees_error.mp hscan
        rw [hf]
        exact hmsg
      | ok its =>
        rw [hlist] at hscan
        obtain ⟨⟨es, total⟩, hes, hall⟩ := agrees_ok.mp hscan
        rw [hes]
        have hfind := find?_shows hall name
        simp only [Bool.not_true, Bool.false_eq_true, if_false, bind, Except.bind]
        revert hfind
        cases hit : its.find? (items.answers · name) with
        | none =>
          intro hfind
          cases hfound : es.find? fun it => it.longName == name || it.shortName == name with
          | none => rfl
          | some e' =>
            rw [hfound] at hfind
            cases hfind
        | some it =>
          intro hfind
          cases hfound : es.find? fun it => it.longName == name || it.shortName == name with
          | none =>
            rw [hfound] at hfind
            cases hfind
          | some e' =>
            rw [hfound] at hfind
            cases hfind with
            | some hitem =>
              exact ih ⟨hitem.node,
                h.proper.closed i its hlist it (List.mem_of_find?_eq_some hit)⟩

theorem findFile_shows (hs : s.Sound super) (h : Shows (memView super s) loc t) (path : Bytes) :
    Agrees Refusal (ShowsPlace super s loc t) (findFile super s path) (t.find path) :=
  (findLoop_shows hs h path (splitPath path) h.rootPlace).mapError

/-- `FindParent` finds the directory that the path without its last component
    leads to. -/
theorem findParent_shows (hs : s.Sound super) (h : Shows (memView super s) loc t)
    {path : List Bytes} (hpath : ∀ x ∈ path, Component x) :
    Agrees Refusal (fun e i => e.isDirectory = true ∧ loc i = e.firstCluster ∧ i < t.count)
      (findParent super s path) (t.parent path) := by
  have hlookup := (findLoop_shows hs h (joinPath path.dropLast) path.dropLast h.rootPlace).mapError
  unfold findParent FileTree.parent
  by_cases hlen : path.length > 1
  · rw [if_pos hlen]
    dsimp only
    rw [findFile, splitPath_joinPath fun x hx => hpath x (List.dropLast_subset _ hx)]
    refine hlookup.bind fun e x he => ?_
    obtain ⟨hnode, hx⟩ := he
    cases x with
    | file d =>
      rw [hnode.1]
      rfl
    | dir i =>
      rw [hnode.1]
      exact ⟨hnode.1, hnode.2, hx i rfl⟩
  · -- a path of one component: the parent is the root
    have hnil : path.dropLast = [] := by
      apply List.eq_nil_of_length_eq_zero
      rw [List.length_dropLast]
      omega
    rw [if_neg hlen, hnil]
    exact ⟨rfl, h.root, h.proper.root⟩

/-- The directory for a new item, as the checks find it. -/
def ShowsTarget (loc : ℕ → ℕ) (t : FileTree) (r : DirEntry × ℕ) (i : ℕ) : Prop :=
  loc i = r.1.firstCluster ∧ i < t.count ∧ ∃ its, t.list i = .ok its

theorem locate_shows (hs : s.Sound super) (h : Shows (memView super s) loc t) {path : List Bytes}
    (hpath : ∀ x ∈ path, Component x) (name : Bytes) :
    Agrees Refusal (ShowsTarget loc t) (locate super s path name) (t.place path name) := by
  refine (findParent_shows hs h hpath).bind fun e i he => ?_
  obtain ⟨-, hloc, hi⟩ := he
  have hscan := scan_shows hs h hi
  rw [hloc] at hscan
  unfold checkEntryNotInDir
  cases hlist : t.list i with
  | error msg =>
    rw [hlist] at hscan
    obtain ⟨f, hf, hmsg⟩ := agrees_error.mp hscan
    rw [hf]
    exact hmsg
  | ok its =>
    rw [hlist] at hscan
    obtain ⟨⟨es, total⟩, hes, hall⟩ := agrees_ok.mp hscan
    rw [hes]
    simp only [bind, Except.bind, any_shows hall]
    by_cases hany : its.any (items.answers · name) = true
    · rw [if_pos hany, if_pos hany]
      rfl
    · rw [if_neg hany, if_neg hany]
      exact ⟨hloc, hi, its, hlist⟩

/-! ## Section 2: Programs that look something up -/

theorem reading_bind_ok {α β : Type} {f : Session → Except Fail α} {g : α → M β} {a : α}
    (h : f s = .ok a) : (reading f >>= g) s = g a s := by
  show EStateM.bind (reading f) g s = _
  simp only [EStateM.bind, reading, h]

theorem reading_bind_error {α β : Type} {f : Session → Except Fail α} {g : α → M β} {e : Fail}
    (h : f s = .error e) : (reading f >>= g) s = .error e s := by
  show EStateM.bind (reading f) g s = _
  simp only [EStateM.bind, reading, h]

/-- The new item is there, and everything else is as before. -/
structure Made (super : FatSuper) (s : Session) (t : FileTree) (i : ℕ) (name : Bytes) (new : New)
    (s' : Session) : Prop where
  fails : new.fails = false
  sound : s'.Sound super
  shows : ∃ loc', Shows (memView super s') loc' (t.make i name new)
  cout : s'.cout = s.cout ++ new.note
  cerr : s'.cerr = s.cerr

/-- There are too few clusters for a new item in a directory, or the directory
    cannot grow because its records end before its last cluster. -/
def NoRoom (super : FatSuper) (s : Session) (P : ℕ) (new : New) (e : Fail) : Prop :=
  ∃ size lP, Target super s P size lP ∧ AddFails super s new.length size lP e

/-- The program does what the verdict says. -/
def Obeys (super : FatSuper) (loc : ℕ → ℕ) (t : FileTree) (x : M Unit) (s : Session) :
    Except Bytes FileTree.Verdict → Prop
  | .error msg => x s = .error (.refuse msg) s
  | .ok (.prints cout cerr) =>
    x s = .ok () { s with cout := s.cout ++ cout, cerr := s.cerr ++ cerr }
  | .ok (.throws e) => x s = .error (.throw e) s
  | .ok (.makes i name new) =>
    Holds x s (fun _ s' => Made super s t i name new s')
      fun e _ => (new.fails = true ∧ e = .throw .readError) ∨ NoRoom super s (loc i) new e

theorem obeys_nothing : Obeys super loc t (pure ()) s (.ok .nothing) := by
  show EStateM.Result.ok () s = _
  simp

theorem obeys_print (d : Bytes) : Obeys super loc t (print d) s (.ok (.prints d [])) := by
  show EStateM.Result.ok () { s with cout := s.cout ++ d } = _
  simp

/-- A lookup first: where it refuses, so does the verdict. -/
theorem obeys_reading {α β : Type} {f : Session → Except Fail α} {R : α → β → Prop}
    {y : Except Bytes β} (h : Agrees Refusal R (f s) y) {g : α → M Unit}
    {k : β → Except Bytes FileTree.Verdict}
    (hg : ∀ a b, f s = .ok a → R a b → Obeys super loc t (g a) s (k b)) :
    Obeys super loc t (reading f >>= g) s (y >>= k) := by
  cases y with
  | error msg =>
    obtain ⟨e, he, rfl⟩ := agrees_error.mp h
    exact reading_bind_error he
  | ok b =>
    obtain ⟨a, ha, hab⟩ := agrees_ok.mp h
    have hobeys := hg a b ha hab
    show Obeys super loc t (reading f >>= g) s (k b)
    have hrun : (reading f >>= g) s = g a s := reading_bind_ok ha
    unfold Obeys Holds at hobeys ⊢
    rwa [hrun]

/-! ## Section 3: Making items -/

variable {i size : ℕ} {parent : DirEntry} {name : Bytes} {lP : List ℕ}

theorem Target.lt (hs : s.Sound super) {P : ℕ} (ht : Target super s P size lP) : P < 2 ^ 32 := by
  obtain ⟨p, hdir⟩ := ht.dir
  have hvalid := hdir.valid hs.wellFormed.toSound
  have hcount := hs.wellFormed.count_lt
  have hlt : P < (memView super s).count + 2 := hvalid.2
  unfold endMark at hcount
  omega

/-- `ShowsTarget` with the items of the directory. -/
theorem ShowsTarget.at (h : Shows (memView super s) loc t) (hi : ShowsTarget loc t (parent, size) i) :
    ∃ its, Shows.At (memView super s) loc t i its parent.firstCluster := by
  obtain ⟨hloc, hlt, its, hlist⟩ := hi
  exact ⟨its, h, hlt, hloc, hlist⟩

theorem makeDirectory_made (hs : s.Sound super) (h : Shows (memView super s) loc t)
    (hi : ShowsTarget loc t (parent, size) i) (ht : Target super s parent.firstCluster size lP)
    (hname : isShortName name = true) :
    Holds (makeDirectory super parent.firstCluster size name) s
      (fun _ s' => Made super s t i name .directory s')
      (fun e _ => NoRoom super s (loc i) .directory e) := by
  have hsilent : PrintsNothing (makeDirectory super parent.firstCluster size name) :=
    (printsNothing_initializeEmptyDirectory _).andThen fun _ =>
      printsNothing_appendDirectoryEntry _ _ _ _ _ _
  obtain ⟨its, hat⟩ := hi.at h
  have hwf := hs.wellFormed
  apply ((makeDirectory_spec hs.toOk hwf ht hname).and (hsilent s)).mono
  · intro _ s' hadded
    obtain ⟨hadded, hsil⟩ := hadded
    obtain ⟨first, lP', lr, hfirst, hsane, hg, hbytes, -⟩ := hadded.grew hs.toOk hwf ht
    refine ⟨rfl, ⟨hs.toOk.kept hadded.1, hg.wellFormed hwf hsane⟩,
      ⟨_, hat.makeDirectory hwf hg hfirst (ht.lt hs) hbytes⟩, ?_, hsil.cerr⟩
    rw [hsil.cout, New.note, List.append_nil]
  · intro e _ he
    rw [hat.loc_eq]
    exact ⟨size, lP, ht, he.1⟩

theorem packFile_made (hs : s.Sound super) (h : Shows (memView super s) loc t)
    (hi : ShowsTarget loc t (parent, size) i) (ht : Target super s parent.firstCluster size lP)
    (hname : isShortName name = true) (input data : Bytes) (fails : Bool) :
    Holds (packFile super parent.firstCluster size name input data fails) s
      (fun _ s' => Made super s t i name (.file input data fails) s')
      (fun e _ => (fails = true ∧ e = .throw .readError) ∨
        NoRoom super s (loc i) (.file input data fails) e) := by
  -- the line is printed between the file and its record
  have hprints : Holds (packFile super parent.firstCluster size name input data fails) s
      (fun _ s' => s'.cout = s.cout ++ (New.file input data fails).note ∧ s'.cerr = s.cerr)
      (fun _ _ => True) := by
    apply holds_bind
    refine (printsNothing_create s).mono (fun wr s₁ h₁ => ?_) fun _ _ _ => trivial
    apply holds_bind
    refine (printsNothing_packLoop _ _ _ _ s₁).mono (fun wr' s₂ h₂ => ?_) fun _ _ _ => trivial
    apply holds_bind
    apply holds_modify
    refine (printsNothing_appendDirectoryEntry _ _ _ _ _ _ _).mono (fun _ s₃ h₃ => ?_)
      fun _ _ _ => trivial
    exact ⟨by rw [h₃.cout, h₂.cout, h₁.cout]; rfl, by rw [h₃.cerr, h₂.cerr, h₁.cerr]⟩
  obtain ⟨its, hat⟩ := hi.at h
  have hwf := hs.wellFormed
  apply ((packFile_spec hs.toOk hwf ht hname input data fails).and hprints).mono
  · intro _ s' hpacked
    obtain ⟨⟨hfails, hlen, hadded⟩, hout⟩ := hpacked
    obtain ⟨first, lP', lr, hfirst, hsane, hg, hbytes, -⟩ := hadded.grew hs.toOk hwf ht
    exact ⟨hfails, ⟨hs.toOk.kept hadded.1, hg.wellFormed hwf hsane⟩,
      ⟨_, hat.makeFile hwf hg hfirst hlen hbytes⟩, hout.1, hout.2⟩
  · intro e _ he
    rw [hat.loc_eq]
    exact he.1.imp_right fun hadd => ⟨size, lP, ht, hadd⟩

/-! ## Section 4: Commands -/

/-- An entry is printed as its item is. -/
theorem ShowsItem.line {e : DirEntry} {it : Item} (h : ShowsItem v loc e it) :
    entryLine e = it.line := by
  have hdir : it.isDirectory = e.isDirectory := by
    have hnode := h.node
    unfold Item.isDirectory
    cases hit : it.node with
    | dir j =>
      rw [hit] at hnode
      exact hnode.1.symm
    | file d =>
      rw [hit] at hnode
      exact hnode.1.symm
  rw [entryLine, Item.line, h.longName, h.shortName, h.size, hdir]

theorem lines_shows {es : List DirEntry} {its : List Item}
    (h : List.Forall₂ (ShowsItem v loc) es its) : es.flatMap entryLine = its.flatMap Item.line := by
  induction h with
  | nil => rfl
  | cons hitem _ ih => rw [List.flatMap_cons, List.flatMap_cons, hitem.line, ih]

theorem listDirectory_obeys (hs : s.Sound super) (h : Shows (memView super s) loc t)
    (args : Bytes) : Obeys super loc t (listDirectory super args) s (t.judgeDir args) := by
  have hlist : Agrees Refusal (fun es its => List.Forall₂ (ShowsItem (memView super s) loc) es its)
      (listEntries super s args) (t.listing args) := by
    apply (findFile_shows hs h args).bind
    intro e x hx
    cases x with
    | file d =>
      rw [hx.1.1]
      rfl
    | dir i =>
      have hscan := scan_shows hs h (hx.2 i rfl)
      rw [hx.1.2] at hscan
      rw [hx.1.1]
      simp only [Bool.not_true, Bool.false_eq_true, if_false]
      cases hits : t.list i with
      | error msg =>
        rw [hits] at hscan
        obtain ⟨f, hf, hmsg⟩ := agrees_error.mp hscan
        rw [hf]
        exact hmsg
      | ok its =>
        rw [hits] at hscan
        obtain ⟨r, hr, hall⟩ := agrees_ok.mp hscan
        rw [hr]
        exact hall
  apply obeys_reading hlist
  intro es its _ hall
  rw [lines_shows hall]
  exact obeys_print _

theorem dumpFile_obeys (hs : s.Sound super) (h : Shows (memView super s) loc t) (args : Bytes) :
    Obeys super loc t (dumpFile super args) s (t.judgeType args) := by
  apply obeys_reading (findFile_shows hs h args)
  intro e x _ hx
  cases x with
  | dir i =>
    rw [hx.1.1]
    rfl
  | file d =>
    obtain ⟨hfile, c, p, lc, r, l, -, -, -, -, -, hsize, hcluster, hent, rfl⟩ := hx.1
    rw [hfile]
    show dumpLoop super (e.size + 1) (.new e.firstCluster e.size) s = _
    rw [dumpLoop_chain hs.toOk hsize hcluster hent]
    simp

theorem createDirectory_obeys (hs : s.Sound super) (h : Shows (memView super s) loc t)
    (args : Bytes) : Obeys super loc t (createDirectory super args) s (t.judgeMkdir args) := by
  unfold createDirectory FileTree.judgeMkdir
  dsimp only
  cases hlast : (splitPath args).getLast? with
  | none => exact obeys_nothing
  | some name =>
    dsimp only
    by_cases hname : isShortName name = true
    · have hcond : ¬ (!isShortName name) = true := by simp [hname]
      rw [if_neg hcond, if_neg hcond]
      by_cases hdot : name.contains 0x2E = true
      · rw [if_pos hdot, if_pos hdot]
        rfl
      · rw [if_neg hdot, if_neg hdot]
        apply obeys_reading (locate_shows hs h (splitPath_component args) name)
        intro r i hloc hi
        obtain ⟨parent, size⟩ := r
        obtain ⟨lP, ht⟩ := target_of_locate hs.toOk hs.wellFormed (splitPath_component args) hloc
        exact (makeDirectory_made hs h hi ht hname).mono (fun _ _ hmade => hmade)
          fun _ _ he => .inr he
    · have hcond : (!isShortName name) = true := by simpa using hname
      rw [if_pos hcond, if_pos hcond]
      rfl

theorem packDirectory_obeys (hs : s.Sound super) (h : Shows (memView super s) loc t) (host : Host)
    (args : Bytes) :
    Obeys super loc t (packDirectory super host args) s (t.judgePack host args) := by
  unfold packDirectory FileTree.judgePack
  cases hargs : splitPackArgs args with
  | none => exact obeys_nothing
  | some it =>
    obtain ⟨input, target⟩ := it
    dsimp only
    by_cases htarget : target = []
    · rw [if_pos htarget, if_pos htarget]
      rfl
    · rw [if_neg htarget, if_neg htarget]
      cases hlast : (splitPath target).getLast? with
      | none => exact obeys_nothing
      | some name =>
        dsimp only
        by_cases hname : isShortName name = true
        · have hcond : ¬ (!isShortName name) = true := by simp [hname]
          rw [if_neg hcond, if_neg hcond]
          apply obeys_reading (locate_shows hs h (splitPath_component target) name)
          intro r i hloc hi
          obtain ⟨parent, size⟩ := r
          obtain ⟨lP, ht⟩ :=
            target_of_locate hs.toOk hs.wellFormed (splitPath_component target) hloc
          cases hhost : host (cstr input) with
          | none => rfl
          | some it =>
            obtain ⟨data, fails⟩ := it
            exact packFile_made hs h hi ht hname input data fails
        · have hcond : (!isShortName name) = true := by simpa using hname
          rw [if_pos hcond, if_pos hcond]
          rfl

theorem callback_obeys (hs : s.Sound super) (h : Shows (memView super s) loc t) (host : Host)
    (args : Bytes) (c : Command) :
    Obeys super loc t (c.callback super host args) s (t.judgeCommand host args c) := by
  cases c with
  | dir => exact listDirectory_obeys hs h args
  | type => exact dumpFile_obeys hs h args
  | mkdir => exact createDirectory_obeys hs h args
  | pack => exact packDirectory_obeys hs h host args

/-! ## Section 5: Lines -/

variable {a : Ideal}

/-- The session is where the ideal tool is. -/
structure Session.Follows (super : FatSuper) (s : Session) (loc : ℕ → ℕ) (a : Ideal) : Prop
    extends s.Sound super where
  shows : Shows (memView super s) loc a.tree
  cout : s.cout = a.cout
  cerr : s.cerr = a.cerr

/-- The line makes something that there is no room for. -/
def OutOfRoom (super : FatSuper) (s : Session) (loc : ℕ → ℕ) (a : Ideal) (it : Bytes × Host)
    (e : Exn) : Prop :=
  ∃ i name new, a.tree.judge it.1 it.2 = .makes i name new ∧
    NoRoom super s (loc i) new (.throw e)

/-- Both print the same. -/
theorem Session.Follows.prints (h : s.Follows super loc a) (cout cerr : Bytes) :
    Session.Follows super { s with cout := s.cout ++ cout, cerr := s.cerr ++ cerr } loc
      { a with cout := a.cout ++ cout, cerr := a.cerr ++ cerr } where
  toSound := h.toSound.step (.inl ⟨rfl, rfl, rfl⟩)
  shows := h.shows
  cout := by rw [h.cout]
  cerr := by rw [h.cerr]

theorem Session.Follows.made (h : s.Follows super loc a) {i : ℕ} {name : Bytes} {new : New}
    (hmade : Made super s a.tree i name new s') :
    ∃ loc', s'.Follows super loc'
      { a with tree := a.tree.make i name new, cout := a.cout ++ new.note } := by
  obtain ⟨loc', hshows⟩ := hmade.shows
  exact ⟨loc', hmade.sound, hshows, by rw [hmade.cout, h.cout], hmade.cerr.trans h.cerr⟩

/-- What becomes of both after a line that the ideal tool judges so. -/
def FollowsStep (super : FatSuper) (s : Session) (loc : ℕ → ℕ) (a : Ideal) (it : Bytes × Host)
    (x : EStateM Exn Session Unit) : Prop :=
  Holds x s (fun _ s' => ∃ loc' a', Ideal.step it a = .ok () a' ∧ s'.Follows super loc' a')
    (fun e _ => Ideal.step it a = .error e a ∨ OutOfRoom super s loc a it e)

section Verdicts

variable {it : Bytes × Host} {x : EStateM Exn Session Unit}

theorem Session.Follows.step_prints (h : s.Follows super loc a) {cout cerr : Bytes}
    (hjudge : a.tree.judge it.1 it.2 = .prints cout cerr)
    (hx : x s = .ok () { s with cout := s.cout ++ cout, cerr := s.cerr ++ cerr }) :
    FollowsStep super s loc a it x := by
  apply holds_of_ok hx
  refine ⟨loc, _, ?_, h.prints cout cerr⟩
  unfold Ideal.step
  rw [hjudge]

theorem step_throws {e : Exn} (hjudge : a.tree.judge it.1 it.2 = .throws e)
    (hx : x s = .error e s) : FollowsStep super s loc a it x := by
  apply holds_of_error hx
  left
  unfold Ideal.step
  rw [hjudge]

theorem Session.Follows.step_makes (h : s.Follows super loc a) {i : ℕ} {name : Bytes} {new : New}
    (hjudge : a.tree.judge it.1 it.2 = .makes i name new) {x : M Unit}
    (hx : Obeys super loc a.tree x s (.ok (.makes i name new))) :
    FollowsStep super s loc a it (handled x) := by
  unfold FollowsStep Holds handled
  cases hres : x s with
  | ok _ s' =>
    have hmade := Holds.of_ok hx hres
    obtain ⟨loc', hfollows⟩ := h.made hmade
    refine ⟨loc', _, ?_, hfollows⟩
    unfold Ideal.step
    rw [hjudge]
    dsimp only
    rw [if_neg (by simp [hmade.fails])]
  | error f s' =>
    rcases Holds.of_error hx hres with ⟨hfails, rfl⟩ | ⟨size, lP, ht, hadd⟩
    · left
      unfold Ideal.step
      rw [hjudge]
      dsimp only
      rw [if_pos hfails]
    · obtain ⟨e, rfl⟩ := hadd.throws
      exact .inr ⟨i, name, new, hjudge, size, lP, ht, hadd⟩

/-- A command, with the messages that it refuses with. -/
theorem Session.Follows.step_command (h : s.Follows super loc a) {x : M Unit}
    {v : Except Bytes FileTree.Verdict} (hjudge : a.tree.judge it.1 it.2 = .ofCommand v)
    (hx : Obeys super loc a.tree x s v) : FollowsStep super s loc a it (handled x) := by
  cases v with
  | error msg =>
    have hrun : x s = .error (.refuse msg) s := hx
    apply h.step_prints hjudge
    unfold handled
    rw [hrun]
    simp
  | ok v =>
    cases v with
    | prints cout cerr =>
      have hrun : x s = .ok () { s with cout := s.cout ++ cout, cerr := s.cerr ++ cerr } := hx
      apply h.step_prints hjudge
      unfold handled
      rw [hrun]
    | throws e =>
      have hrun : x s = .error (.throw e) s := hx
      apply step_throws hjudge
      unfold handled
      rw [hrun]
    | makes i name new => exact h.step_makes hjudge hx

end Verdicts

/-- **One line**: the code does what the ideal tool does, unless there is no
    room for what the line makes. -/
theorem runLine_follows (h : s.Follows super loc a) (it : Bytes × Host) :
    FollowsStep super s loc a it (runLine super it.2 it.1) := by
  obtain ⟨line, host⟩ := it
  unfold runLine
  cases hline : parseLine line with
  | ignored =>
    have hjudge : a.tree.judge line host = .prints [] [] := by
      simp only [FileTree.judge, hline, FileTree.Verdict.nothing]
    apply h.step_prints hjudge
    show EStateM.Result.ok () s = _
    simp
  | unknown line' =>
    have hjudge : a.tree.judge line host =
        .prints [] (lit "Unknown command `" ++ line' ++ lit "`\n") := by
      simp only [FileTree.judge, hline]
    apply h.step_prints hjudge
    show EStateM.Result.ok () { s with cerr := _ } = _
    simp
  | command c args =>
    have hjudge : a.tree.judge line host = .ofCommand (a.tree.judgeCommand host args c) := by
      simp only [FileTree.judge, hline]
    exact h.step_command hjudge (callback_obeys h.toSound h.shows host args c)

end Hausboot.FatEdit

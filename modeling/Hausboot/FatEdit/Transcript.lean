import Hausboot.FatEdit.Refine

/-! # The fatedit Tool: Transcripts

    Whole runs of the tool against the ideal one. A session prints what the
    ideal tool prints on the tree that the image shows, and leaves an image that
    shows the tree that the ideal tool ends with (`main_refines`). So does any
    sequence of sessions on one image (`sessions_refine`).

    The tree is all that matters: images that show the same tree cannot be told
    apart, however their clusters are laid out. And the tree only grows, so
    whatever has been printed can be printed again in every later session. -/

open ByteLib DirTree Prog

namespace Hausboot.FatEdit

open FatDirent Session

variable {super : FatSuper} {s s' : Session} {loc : ℕ → ℕ} {t : FileTree} {a : Ideal}
  {image image' : ByteVec}

/-! ## Section 1: Runs -/

/-- A line of the input makes something that there is no room for; up to there
    the session has followed the ideal tool. -/
def RunsOut (super : FatSuper) (s : Session) (a : Ideal) (input : List (Bytes × Host)) (e : Exn) :
    Prop :=
  ∃ pre it post s₁ loc₁ a₁, input = pre ++ it :: post ∧ runLines super pre s = .ok () s₁ ∧
    Ideal.run pre a = .ok () a₁ ∧ s₁.Follows super loc₁ a₁ ∧ OutOfRoom super s₁ loc₁ a₁ it e

/-- **Runs**: the code follows the ideal tool to the end of the input, or to
    the line where both throw, or to a line that there is no room for. -/
theorem runLines_follows (h : s.Follows super loc a) (input : List (Bytes × Host)) :
    Holds (runLines super input) s
      (fun _ s' => ∃ loc' a', Ideal.run input a = .ok () a' ∧ s'.Follows super loc' a')
      (fun e _ => (∃ a', Ideal.run input a = .error e a') ∨ RunsOut super s a input e) := by
  induction input generalizing s loc a with
  | nil => exact holds_pure ⟨loc, a, rfl, h⟩
  | cons it input ih =>
    have hfirst := runLine_follows h it
    apply holds_bind
    unfold Holds
    cases hline : runLine super it.2 it.1 s with
    | error e s₁ =>
      rcases hfirst.of_error hline with hstep | hroom
      · exact .inl ⟨a, bind_eq_error.mpr (.inl hstep)⟩
      · exact .inr ⟨[], it, input, s, loc, a, rfl, rfl, rfl, h, hroom⟩
    | ok _ s₁ =>
      obtain ⟨loc₁, a₁, hstep, hfollows⟩ := hfirst.of_ok hline
      apply (ih hfollows).mono
      · intro _ s' hrest
        obtain ⟨loc', a', hrun, hend⟩ := hrest
        exact ⟨loc', a', bind_eq_ok.mpr ⟨(), a₁, hstep, hrun⟩, hend⟩
      · intro e _ hrest
        rcases hrest with ⟨a', hrun⟩ | ⟨pre, it', post, s₂, loc₂, a₂, rfl, hpre, hrun, hend, hroom⟩
        · exact .inl ⟨a', bind_eq_error.mpr (.inr ⟨(), a₁, hstep, hrun⟩)⟩
        · exact .inr ⟨it :: pre, it', post, s₂, loc₂, a₂, rfl,
            bind_eq_ok.mpr ⟨(), s₁, hline, hpre⟩, bind_eq_ok.mpr ⟨(), a₁, hstep, hrun⟩, hend, hroom⟩

/-! ## Section 2: main -/

/-- What is on the output streams at the end of the command loop. -/
def printed (image : ByteVec) (input : List (Bytes × Host)) : Option (Bytes × Bytes) :=
  match start image with
  | .error _ => none
  | .ok (super, s) =>
    match runLines super input s with
    | .ok _ s => some (s.cout, s.cerr)
    | .error _ s => some (s.cout, s.cerr)

theorem printed_eq {input : List (Bytes × Host)} (hstart : start image = .ok (super, s))
    (h : runLines super input s = .ok () s') : printed image input = some (s'.cout, s'.cerr) := by
  unfold printed
  rw [hstart]
  dsimp only
  rw [h]

/-- A session starts with nothing printed. -/
theorem start_streams (h : start image = .ok (super, s)) : s.cout = [] ∧ s.cerr = [] := by
  unfold start at h
  obtain ⟨raw, -, h⟩ := except_bind_eq_ok.mp h
  obtain ⟨s₁, hload, h⟩ := except_bind_eq_ok.mp h
  cases h
  unfold loadFromImage at hload
  split at hload
  · cases hload
  · obtain ⟨fsinfo, -, hload⟩ := except_bind_eq_ok.mp hload
    split at hload
    · cases hload
    · dsimp only at hload
      obtain ⟨raw', -, hload⟩ := except_bind_eq_ok.mp hload
      cases hload
      exact ⟨rfl, rfl⟩

/-- An image with a well-formed volume that shows the tree. -/
structure ImageShows (image : ByteVec) (loc : ℕ → ℕ) (t : FileTree) : Prop where
  layout : Layout (imageSuper image) image.size
  wellFormed : (diskView (imageSuper image) image).WellFormed
  shows : Shows (diskView (imageSuper image) image) loc t

/-- The first session follows the ideal tool with nothing printed. -/
theorem ImageShows.follows (h : ImageShows image loc t) (hstart : start image = .ok (super, s)) :
    s.Follows super loc ⟨t, [], []⟩ := by
  obtain ⟨rfl, hs, -, hview⟩ := start_ok h.layout hstart
  obtain ⟨hcout, hcerr⟩ := start_streams hstart
  refine ⟨⟨hs.toOk, ?_⟩, ?_, hcout, hcerr⟩
  · rw [hview]
    exact h.wellFormed
  · rw [hview]
    exact h.shows

/-- Every well-formed image shows a tree. -/
theorem exists_imageShows (hl : Layout (imageSuper image) image.size)
    (hwf : (diskView (imageSuper image) image).WellFormed) : ∃ loc t, ImageShows image loc t := by
  obtain ⟨loc, t, hshows⟩ := exists_shows hwf
  exact ⟨loc, t, hl, hwf, hshows⟩

/-- **A session means what its lines mean.** Where `main` comes to its end on
    an image that shows a tree, the ideal tool comes to its end on the tree,
    prints the same, and ends with the tree that the image shows then. -/
theorem main_refines {input : List (Bytes × Host)} (himage : ImageShows image loc t)
    (h : main image input = .ok () image') :
    ∃ a loc', Ideal.run input ⟨t, [], []⟩ = .ok () a ∧
      printed image input = some (a.cout, a.cerr) ∧ ImageShows image' loc' a.tree := by
  obtain ⟨hsuper, hsize, s, s', hstart, hsound, -, hrun, hview⟩ :=
    main_view himage.layout himage.wellFormed h
  have hfollows := himage.follows hstart
  obtain ⟨loc', a, hideal, hend⟩ := (runLines_follows hfollows input).of_ok hrun
  refine ⟨a, loc', hideal, ?_, ?_, ?_, ?_⟩
  · rw [printed_eq hstart hrun, hend.cout, hend.cerr]
  · rw [hsuper, hsize]
    exact himage.layout
  · rw [hview]
    exact hend.wellFormed
  · rw [hview]
    exact hend.shows

/-- Nothing but an empty root directory. -/
def emptyTree : FileTree := ⟨1, fun _ => .ok []⟩

/-- A freshly formatted volume shows the empty tree. -/
theorem shows_fresh {v : Vol} (h : v.Fresh) : Shows v (fun _ => v.root) emptyTree where
  proper := by
    refine ⟨Nat.one_pos, fun _ _ => rfl, fun i as has a ha => ?_⟩
    cases has
    cases ha
  root := rfl
  inj i hi j hj _ := by
    have hi : i < 1 := hi
    have hj : j < 1 := hj
    omega
  dirs i _ := ⟨none, .root⟩
  lists i _ := by
    refine ⟨[v.root], [], h.root_chain, ?_, agrees_ok.mpr ⟨[], rfl, .nil⟩⟩
    rw [h.root_body]
    exact .nil

theorem freshImage_shows :
    ImageShows freshImage (fun _ => (diskView (imageSuper freshImage) freshImage).root) emptyTree :=
  ⟨freshImage_layout, freshImage_fresh.wellFormed, shows_fresh freshImage_fresh⟩

/-! ## Section 3: Sessions -/

/-- Runs of `main` on one image file that all come to their end, with what each
    of them prints. -/
def sessions : ByteVec → List (List (Bytes × Host)) → Option (List (Bytes × Bytes) × ByteVec)
  | image, [] => some ([], image)
  | image, input :: inputs => do
    let (_, image₁) ← result (main image input)
    let out ← printed image input
    let (outs, image') ← sessions image₁ inputs
    some (out :: outs, image')

variable {inputs : List (List (Bytes × Host))} {outs : List (Bytes × Bytes)}

theorem sessions_cons {input : List (Bytes × Host)} :
    sessions image (input :: inputs) = some (outs, image') ↔
      ∃ image₁ out outs₁, main image input = .ok () image₁ ∧ printed image input = some out ∧
        sessions image₁ inputs = some (outs₁, image') ∧ outs = out :: outs₁ := by
  rw [sessions]
  simp only [Option.bind_eq_bind, Option.bind_eq_some_iff, Option.some.injEq, Prod.mk.injEq]
  constructor
  · rintro ⟨⟨_, image₁⟩, hmain, out, hout, ⟨outs₁, image₂⟩, hrest, rfl, rfl⟩
    exact ⟨image₁, out, outs₁, result_eq_some.mp hmain, hout, hrest, rfl⟩
  · rintro ⟨image₁, out, outs₁, hmain, hout, hrest, rfl⟩
    exact ⟨((), image₁), result_eq_some.mpr hmain, out, hout, (outs₁, image'), hrest, rfl, rfl⟩

/-- Any sequence of sessions prints what the ideal tool prints in them, and
    leaves an image that shows its tree. -/
theorem sessions_shows (himage : ImageShows image loc t)
    (h : sessions image inputs = some (outs, image')) :
    ∃ t' loc', Ideal.sessions t inputs = some (outs, t') ∧ ImageShows image' loc' t' := by
  induction inputs generalizing image loc t outs with
  | nil =>
    cases h
    exact ⟨t, loc, rfl, himage⟩
  | cons input inputs ih =>
    obtain ⟨image₁, out, outs₁, hmain, hprinted, hrest, rfl⟩ := sessions_cons.mp h
    obtain ⟨a, loc₁, hrun, hout, hshows⟩ := main_refines himage hmain
    obtain rfl := Option.some.inj (hprinted.symm.trans hout)
    obtain ⟨t', loc', hideal, hend⟩ := ih hshows hrest
    refine ⟨t', loc', ?_, hend⟩
    unfold Ideal.sessions
    rw [hrun]
    dsimp only
    rw [hideal]
    rfl

/-- A session that makes two directories, and one that looks at them. -/
def mkdirThenDir : List (List (Bytes × Host)) :=
  [mkdirSession, [(lit "dir BOOT", fun _ => none), (lit "type BOOT", fun _ => none)]]

theorem wideImage_shows :
    ImageShows wideImage (fun _ => (diskView (imageSuper wideImage) wideImage).root) emptyTree :=
  ⟨wideImage_layout, wideImage_fresh.wellFormed, shows_fresh wideImage_fresh⟩

/-- If the line makes an item, then under a name that does not begin with a
    blank, so that its record can be shown. -/
def Showable (line : Bytes) : Prop :=
  ∀ c args name, parseLine line = .command c args → (typedPath c args).getLast? = some name →
    acceptsName c name = true → name.getD 0 0 ≠ 0x20

theorem shown_of_head {name : Bytes} (hname : isShortName name = true)
    (hhead : name.getD 0 0 ≠ 0x20) : ∃ shown, (namedRecord name).shortName = some shown := by
  rw [shortName_namedRecord, getD_fixedLength_baseName hname, if_neg hhead]
  split
  · exact ⟨_, rfl⟩
  · exact ⟨_, rfl⟩

theorem isShortName_of_acceptsName {c : Command} {name : Bytes} (h : acceptsName c name = true) :
    isShortName name = true := by
  cases c with
  | dir => cases h
  | type => cases h
  | mkdir => exact (Bool.and_eq_true_iff.mp h).1
  | pack => exact h

namespace FileTree

variable {i : ℕ} {name args line : Bytes} {new : New} {host : Host}

theorem judgeMkdir_makes (h : judgeMkdir t args = .ok (.makes i name new)) :
    (splitPath args).getLast? = some name ∧ acceptsName .mkdir name = true ∧
      place t (splitPath args) name = .ok i := by
  unfold judgeMkdir at h
  cases hlast : (splitPath args).getLast? with
  | none =>
    rw [hlast] at h
    cases h
  | some name' =>
    rw [hlast] at h
    dsimp only at h
    split at h
    · cases h
    · next hshort =>
      split at h
      · cases h
      · next hdot =>
        obtain ⟨j, hplace, h⟩ := except_bind_eq_ok.mp h
        cases h
        have hshort : isShortName name = true := by simpa using hshort
        have hdot : name.contains 0x2E = false := Bool.eq_false_iff.mpr hdot
        refine ⟨rfl, ?_, hplace⟩
        rw [acceptsName, hshort, hdot]
        rfl

theorem judgePack_makes (h : judgePack t host args = .ok (.makes i name new)) :
    ∃ input target, splitPackArgs args = some (input, target) ∧
      (splitPath target).getLast? = some name ∧ acceptsName .pack name = true ∧
      place t (splitPath target) name = .ok i := by
  unfold judgePack at h
  cases hargs : splitPackArgs args with
  | none =>
    rw [hargs] at h
    cases h
  | some it =>
    obtain ⟨input, target⟩ := it
    rw [hargs] at h
    dsimp only at h
    split at h
    · cases h
    · cases hlast : (splitPath target).getLast? with
      | none =>
        rw [hlast] at h
        cases h
      | some name' =>
        rw [hlast] at h
        dsimp only at h
        split at h
        · cases h
        · next hshort =>
          obtain ⟨j, hplace, h⟩ := except_bind_eq_ok.mp h
          cases hhost : host (cstr input) with
          | none =>
            rw [hhost] at h
            cases h
          | some it =>
            rw [hhost] at h
            cases h
            exact ⟨input, target, rfl, hlast, by simpa [acceptsName] using hshort, hplace⟩

/-- Only `mkdir` and `pack` make something, at the path that was typed. -/
theorem judge_makes (h : judge t line host = .makes i name new) :
    ∃ c args, parseLine line = .command c args ∧ (typedPath c args).getLast? = some name ∧
      acceptsName c name = true ∧ place t (typedPath c args) name = .ok i := by
  unfold judge at h
  cases hline : parseLine line with
  | ignored =>
    rw [hline] at h
    cases h
  | unknown line' =>
    rw [hline] at h
    cases h
  | command c args =>
    rw [hline] at h
    dsimp only at h
    refine ⟨c, args, rfl, ?_⟩
    cases hv : judgeCommand t host args c with
    | error msg =>
      rw [hv] at h
      cases h
    | ok v =>
      rw [hv] at h
      obtain rfl : v = .makes i name new := h
      cases c with
      | dir =>
        obtain ⟨its, -, hv⟩ := except_bind_eq_ok.mp hv
        cases hv
      | type =>
        obtain ⟨x, -, hv⟩ := except_bind_eq_ok.mp hv
        cases x with
        | file d => cases hv
        | dir j => cases hv
      | mkdir => exact judgeMkdir_makes hv
      | pack =>
        obtain ⟨input, target, hargs, hmade⟩ := judgePack_makes hv
        rw [typedPath_pack hargs]
        exact hmade

theorem parent_lt (hp : t.Proper items) {path : List Bytes} (h : parent t path = .ok i) :
    i < t.count := by
  obtain ⟨x, hx, h⟩ := except_bind_eq_ok.mp h
  cases hwalk : t.walk items path.dropLast (.dir 0) with
  | error e =>
    rw [hwalk] at hx
    cases hx
  | ok y =>
    rw [hwalk] at hx
    obtain rfl : y = x := Except.ok.inj hx
    cases y with
    | file d => cases h
    | dir j =>
      obtain rfl : j = i := Except.ok.inj h
      refine hp.walk (fun k hk => ?_) hwalk j rfl
      cases hk
      exact hp.root

theorem place_lt (hp : t.Proper items) {path : List Bytes} (h : place t path name = .ok i) :
    i < t.count := by
  obtain ⟨j, hparent, h⟩ := except_bind_eq_ok.mp h
  obtain ⟨its, -, h⟩ := except_bind_eq_ok.mp h
  split at h
  · cases h
  · cases h
    exact parent_lt hp hparent

/-- An item under a name that is shown makes the tree grow. -/
theorem put_grows (hp : t.Proper items) (hi : i < t.count) {node : Node Bytes}
    (hnode : node.Below t.count) {shown : Bytes} (hname : (namedRecord name).shortName = some shown) :
    (put t i name node).Proper items ∧ t.Grows (put t i name node) := by
  unfold put
  rw [hname]
  exact ⟨hp.add hi hnode, Tree.grows_add t i _⟩

theorem make_grows (hp : t.Proper items) (hi : i < t.count) {shown : Bytes}
    (hname : (namedRecord name).shortName = some shown) (new : New) :
    (make t i name new).Proper items ∧ t.Grows (make t i name new) := by
  cases new with
  | file input data fails => exact put_grows hp hi (fun j hj => by cases hj) hname
  | directory =>
    have hgrow : (t.grow (dotItems t.count i)).Proper items := by
      apply hp.grow
      intro a ha j hj
      simp only [dotItems, List.mem_cons, List.not_mem_nil, or_false] at ha
      rcases ha with rfl | rfl
      · cases hj
        exact Nat.lt_succ_self _
      · cases hj
        exact Nat.lt_succ_of_lt hi
    have hbelow : (Node.dir t.count : Node Bytes).Below (t.count + 1) := by
      intro j hj
      cases hj
      exact Nat.lt_succ_self _
    obtain ⟨hproper, hgrows⟩ := put_grows hgrow (Nat.lt_succ_of_lt hi) hbelow hname
    exact ⟨hproper, (Tree.grows_grow hp _).trans hgrows⟩

end FileTree

/-- A line of the ideal tool only adds to the tree. -/
theorem Ideal.step_grows {a' : Ideal} {it : Bytes × Host} (hp : a.tree.Proper items)
    (hline : Showable it.1) (h : Ideal.step it a = .ok () a') :
    a'.tree.Proper items ∧ a.tree.Grows a'.tree := by
  unfold Ideal.step at h
  cases hjudge : a.tree.judge it.1 it.2 with
  | prints cout cerr =>
    rw [hjudge] at h
    cases h
    exact ⟨hp, .refl _⟩
  | throws e =>
    rw [hjudge] at h
    cases h
  | makes i name new =>
    rw [hjudge] at h
    dsimp only at h
    split at h
    · cases h
    · cases h
      obtain ⟨c, args, hcmd, hlast, haccepts, hplace⟩ := FileTree.judge_makes hjudge
      have hshort := isShortName_of_acceptsName haccepts
      obtain ⟨shown, hshown⟩ := shown_of_head hshort (hline c args name hcmd hlast haccepts)
      exact FileTree.make_grows hp (FileTree.place_lt hp hplace) hshown new

theorem Ideal.run_grows {a' : Ideal} {input : List (Bytes × Host)} (hp : a.tree.Proper items)
    (hinput : ∀ it ∈ input, Showable it.1) (h : Ideal.run input a = .ok () a') :
    a'.tree.Proper items ∧ a.tree.Grows a'.tree := by
  induction input generalizing a with
  | nil =>
    cases h
    exact ⟨hp, .refl _⟩
  | cons it input ih =>
    obtain ⟨_, a₁, hstep, hrun⟩ := bind_eq_ok.mp h
    obtain ⟨hp₁, hgrows₁⟩ := Ideal.step_grows hp (hinput it (by simp)) hstep
    obtain ⟨hp', hgrows'⟩ := ih hp₁ (fun it' hit' => hinput it' (List.mem_cons_of_mem _ hit')) hrun
    exact ⟨hp', hgrows₁.trans hgrows'⟩

theorem Ideal.sessions_grows {t' : FileTree} (hp : t.Proper items)
    (hinputs : ∀ input ∈ inputs, ∀ it ∈ input, Showable it.1)
    (h : Ideal.sessions t inputs = some (outs, t')) : t.Grows t' := by
  induction inputs generalizing t outs with
  | nil =>
    cases h
    exact .refl _
  | cons input inputs ih =>
    unfold Ideal.sessions at h
    cases hrun : Ideal.run input ⟨t, [], []⟩ with
    | error e a =>
      rw [hrun] at h
      cases h
    | ok _ a =>
      rw [hrun] at h
      obtain ⟨r, hrest, hr⟩ := Option.map_eq_some_iff.mp h
      obtain ⟨-, rfl⟩ := Prod.mk.inj hr
      obtain ⟨hp₁, hgrows₁⟩ := Ideal.run_grows hp (hinputs input (by simp)) hrun
      exact hgrows₁.trans (ih hp₁ (fun it hit => hinputs it (List.mem_cons_of_mem _ hit)) hrest)

/-! ## Section 5: What is printed again -/

/-- `dir` on the path prints `d`. -/
def Lists (super : FatSuper) (s : Session) (path d : Bytes) : Prop :=
  listDirectory super path s = .ok () { s with cout := s.cout ++ d }

/-- What `type` prints is the file that the path leads to in the tree. -/
theorem types_iff (hs : s.Sound super) (h : Shows (memView super s) loc t) {path d : Bytes} :
    Types super s path d ↔ FileTree.find t path = .ok (.file d) := by
  have hobeys := dumpFile_obeys hs h path
  unfold Types
  unfold FileTree.judgeType at hobeys
  cases hfind : FileTree.find t path with
  | error msg =>
    rw [hfind] at hobeys
    have hrun : dumpFile super path s = .error (.refuse msg) s := hobeys
    simp [hrun]
  | ok x =>
    rw [hfind] at hobeys
    cases x with
    | dir i =>
      have hrun : dumpFile super path s = .error (.refuse (path ++ lit ": is a directory")) s :=
        hobeys
      simp [hrun]
    | file d' =>
      have hrun : dumpFile super path s =
        .ok () { s with cout := s.cout ++ d', cerr := s.cerr ++ [] } := hobeys
      rw [hrun]
      simp [eq_comm]

theorem FileTree.listing_eq_ok {path : Bytes} {its : List Item} :
    FileTree.listing t path = .ok its ↔
      ∃ i, FileTree.find t path = .ok (.dir i) ∧ t.list i = .ok its := by
  unfold FileTree.listing
  rw [except_bind_eq_ok]
  constructor
  · intro h
    obtain ⟨x, hfind, hlist⟩ := h
    cases x with
    | file d => cases hlist
    | dir i => exact ⟨i, hfind, hlist⟩
  · intro h
    obtain ⟨i, hfind, hlist⟩ := h
    exact ⟨.dir i, hfind, hlist⟩

/-- What `dir` prints are the items of the directory that the path leads to. -/
theorem lists_iff (hs : s.Sound super) (h : Shows (memView super s) loc t) {path d : Bytes} :
    Lists super s path d ↔
      ∃ i its, FileTree.find t path = .ok (.dir i) ∧ t.list i = .ok its ∧
        d = its.flatMap Item.line := by
  have hobeys := listDirectory_obeys hs h path
  have hits : (∃ i its, FileTree.find t path = .ok (.dir i) ∧ t.list i = .ok its ∧
      d = its.flatMap Item.line) ↔
      ∃ its, FileTree.listing t path = .ok its ∧ d = its.flatMap Item.line := by
    simp only [FileTree.listing_eq_ok]
    tauto
  rw [hits]
  unfold Lists
  unfold FileTree.judgeDir at hobeys
  cases hlisting : FileTree.listing t path with
  | error msg =>
    rw [hlisting] at hobeys
    have hrun : listDirectory super path s = .error (.refuse msg) s := hobeys
    simp [hrun]
  | ok its =>
    rw [hlisting] at hobeys
    have hrun : listDirectory super path s =
      .ok () { s with cout := s.cout ++ its.flatMap Item.line, cerr := s.cerr ++ [] } := hobeys
    rw [hrun]
    simp [eq_comm]

/-- A path leads to the same place in a tree that has grown. -/
theorem FileTree.find_grows {t' : FileTree} (h : t.Grows t') {path : Bytes} {x : Node Bytes}
    (hfind : FileTree.find t path = .ok x) : FileTree.find t' path = .ok x := by
  unfold FileTree.find at hfind ⊢
  cases hwalk : t.walk items (splitPath path) (.dir 0) with
  | error e =>
    rw [hwalk] at hfind
    cases hfind
  | ok y =>
    rw [Tree.walk_grows h hwalk]
    rwa [hwalk] at hfind

/-- Names that begin with a letter. -/
theorem showable_mkdirThenDir : ∀ input ∈ mkdirThenDir, ∀ it ∈ input, Showable it.1 := by
  have hheads : ∀ it ∈ mkdirThenDir.flatten, ∀ c args, parseLine it.1 = .command c args →
      ((typedPath c args).getLast?.getD []).getD 0 0 ≠ 0x20 := by
    intro it hit c args hline
    simp only [mkdirThenDir, mkdirSession, List.flatten_cons, List.flatten_nil, List.cons_append,
      List.nil_append, List.append_nil, List.mem_cons, List.not_mem_nil, or_false] at hit
    rcases hit with rfl | rfl | rfl | rfl <;>
      (cases hline; decide)
  intro input hinput it hit c args name hline hlast _
  have hhead := hheads it (List.mem_flatten_of_mem hinput hit) c args hline
  rwa [hlast] at hhead

set_option maxRecDepth 3000

end Hausboot.FatEdit

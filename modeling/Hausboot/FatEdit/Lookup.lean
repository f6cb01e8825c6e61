import Hausboot.FatEdit.Scan

/-! # The fatedit Tool: FindFile and FindParent

    On a well-formed volume, every entry that a path leads to is a directory of
    the tree or a file of one. A directory that only gets entries at its end
    changes nothing for the paths that could be followed before. -/

open ByteLib

namespace Hausboot.FatEdit

open FatDirent Session

variable {super : FatSuper} {s s' : Session}

/-! ## Section 1: Paths -/

/-- A path component: not empty, and without separators. -/
def Component (name : Bytes) : Prop := name ≠ [] ∧ ∀ c ∈ name, isPathSep c = false

theorem splitLoop_component (n : Nat) (p : Bytes) : ∀ x ∈ splitLoop n p, Component x := by
  induction n generalizing p with
  | zero =>
    intro x hx
    cases p <;> simp [splitLoop] at hx
  | succ n ih =>
    intro x hx
    cases p with
    | nil => simp [splitLoop] at hx
    | cons c cs =>
      rw [splitLoop] at hx
      split at hx
      · exact ih _ x hx
      · next hc =>
        rcases List.mem_cons.mp hx with rfl | hx
        · refine ⟨by simp, fun y hy => ?_⟩
          rcases List.mem_cons.mp hy with rfl | hy
          · simpa using hc
          · simpa using List.mem_takeWhile_imp hy
        · exact ih _ x hx

theorem splitPath_component (p : Bytes) : ∀ x ∈ splitPath p, Component x :=
  splitLoop_component _ p

/-- As many rounds as the path has characters are enough. -/
theorem splitLoop_fuel {n m : Nat} {p : Bytes} (hn : p.length ≤ n) (hm : p.length ≤ m) :
    splitLoop n p = splitLoop m p := by
  induction n generalizing m p with
  | zero =>
    obtain rfl := List.length_eq_zero_iff.mp (Nat.le_zero.mp hn)
    cases m <;> rfl
  | succ n ih =>
    cases p with
    | nil => cases m <;> rfl
    | cons c cs =>
      rw [List.length_cons] at hn hm
      obtain ⟨m, rfl⟩ : ∃ k, m = k + 1 := ⟨m - 1, by omega⟩
      have hdrop : ∀ f : UInt8 → Bool, (cs.dropWhile f).length ≤ cs.length :=
        fun f => (List.dropWhile_sublist f).length_le
      rw [splitLoop, splitLoop]
      split
      · have hseps := hdrop isPathSep
        exact ih (by omega) (by omega)
      · have hname := hdrop (!isPathSep ·)
        have hrest : ((cs.dropWhile (!isPathSep ·)).drop 1).length ≤ cs.length := by
          rw [List.length_drop]
          omega
        rw [ih (m := m) (by omega) (by omega)]

/-- Separators in front make no component. -/
theorem splitLoop_dropWhile {n : Nat} {p : Bytes} (hn : p.length ≤ n) :
    splitLoop n (p.dropWhile isPathSep) = splitLoop n p := by
  cases p with
  | nil => rfl
  | cons c cs =>
    rw [List.length_cons] at hn
    obtain ⟨n, rfl⟩ : ∃ k, n = k + 1 := ⟨n - 1, by omega⟩
    rcases hc : isPathSep c with _ | _
    · rw [List.dropWhile_cons_of_neg (by simp [hc])]
    · have hdrop := (List.dropWhile_sublist isPathSep (l := cs)).length_le
      rw [List.dropWhile_cons_of_pos hc, splitLoop, if_pos hc]
      exact splitLoop_fuel (by omega) (by omega)

theorem splitLoop_joinPath {path : List Bytes} (h : ∀ x ∈ path, Component x) (n : Nat)
    (hn : (joinPath path).length ≤ n) : splitLoop n (joinPath path) = path := by
  induction path generalizing n with
  | nil => cases n <;> rfl
  | cons name path ih =>
    obtain ⟨hne, hsep⟩ := h name (by simp)
    have hrest := fun m hm => ih (fun x hx => h x (by simp [hx])) m hm
    cases name with
    | nil => exact absurd rfl hne
    | cons c cs =>
      have hc : isPathSep c = false := hsep c (by simp)
      have hcs : ∀ x ∈ cs, (!isPathSep x) = true := fun x hx => by simp [hsep x (by simp [hx])]
      cases path with
      | nil =>
        -- the last component ends with the string
        obtain ⟨m, rfl⟩ : ∃ m, n = m + 1 := ⟨n - 1, by simp [joinPath] at hn; omega⟩
        show splitLoop (m + 1) (c :: cs) = _
        rw [splitLoop, hc, if_neg (by decide), List.takeWhile_eq_self_iff.mpr hcs,
          List.dropWhile_eq_nil_iff.mpr hcs]
        cases m <;> rfl
      | cons name' path =>
        have hjoin : joinPath ((c :: cs) :: name' :: path) =
            c :: (cs ++ 0x2F :: joinPath (name' :: path)) := rfl
        rw [hjoin] at hn ⊢
        simp only [List.length_cons, List.length_append] at hn
        obtain ⟨m, rfl⟩ : ∃ m, n = m + 1 := ⟨n - 1, by omega⟩
        rw [splitLoop, hc, if_neg (by decide), List.takeWhile_append_of_pos hcs,
          List.dropWhile_append_of_pos hcs, List.takeWhile_cons_of_neg (by decide),
          List.dropWhile_cons_of_neg (by decide), List.append_nil, List.drop_one, List.tail_cons,
          hrest m (by omega)]

theorem splitPath_joinPath {path : List Bytes} (h : ∀ x ∈ path, Component x) :
    splitPath (joinPath path) = path :=
  splitLoop_joinPath h _ (Nat.le_refl _)

/-! ## Section 2: Following a path -/

theorem findLoop_nil {args : Bytes} {ent e : DirEntry} :
    findLoop super s args [] ent = .ok e ↔ ent = e := by
  rw [findLoop, Except.ok.injEq]

theorem findLoop_cons {args name : Bytes} {path : List Bytes} {ent e : DirEntry} :
    findLoop super s args (name :: path) ent = .ok e ↔
      ent.isDirectory = true ∧ ∃ es total it,
        scanDirectory super s (dirReader ent.firstCluster) = .ok (es, total) ∧
        es.find? (fun it => it.longName == name || it.shortName == name) = some it ∧
        findLoop super s args path it = .ok e := by
  rw [findLoop]
  by_cases hdir : ent.isDirectory = true
  · rw [hdir, Bool.not_true, if_neg Bool.false_ne_true]
    cases hscan : scanDirectory super s (dirReader ent.firstCluster) with
    | error f =>
      constructor
      · intro h
        cases h
      · intro ⟨_, es, total, it, h, _⟩
        cases h
    | ok r =>
      obtain ⟨es, total⟩ := r
      simp only [bind, Except.bind]
      cases hfind : es.find? fun it => it.longName == name || it.shortName == name with
      | none =>
        constructor
        · intro h
          cases h
        · intro ⟨_, es', total', it, h, hit, _⟩
          cases h
          rw [hfind] at hit
          cases hit
      | some it =>
        constructor
        · intro h
          exact ⟨trivial, es, total, it, rfl, hfind, h⟩
        · intro ⟨_, es', total', it', h, hit, hrest⟩
          cases h
          rw [hfind] at hit
          cases hit
          exact hrest
  · rw [Bool.eq_false_of_not_eq_true hdir, Bool.not_false, if_pos rfl]
    constructor
    · intro h
      cases h
    · intro ⟨h, _⟩
      cases h

/-- Only the message of a refusal depends on the arguments. -/
theorem findLoop_args {args : Bytes} (args' : Bytes) {path : List Bytes} {ent e : DirEntry}
    (h : findLoop super s args path ent = .ok e) : findLoop super s args' path ent = .ok e := by
  induction path generalizing ent with
  | nil =>
    rw [findLoop_nil] at h ⊢
    exact h
  | cons name path ih =>
    rw [findLoop_cons] at h ⊢
    obtain ⟨hdir, es, total, it, hscan, hfind, hrest⟩ := h
    exact ⟨hdir, es, total, it, hscan, hfind, ih hrest⟩

theorem findLoop_append {args : Bytes} {path path' : List Bytes} {ent e e' : DirEntry}
    (h : findLoop super s args path ent = .ok e) (h' : findLoop super s args path' e = .ok e') :
    findLoop super s args (path ++ path') ent = .ok e' := by
  induction path generalizing ent with
  | nil =>
    rw [findLoop_nil] at h
    cases h
    exact h'
  | cons name path ih =>
    rw [findLoop_cons] at h
    obtain ⟨hdir, es, total, it, hscan, hfind, hrest⟩ := h
    rw [List.cons_append, findLoop_cons]
    exact ⟨hdir, es, total, it, hscan, hfind, ih hrest⟩

/-- `FindParent` follows the path up to its last component. -/
theorem findParent_ok {path : List Bytes} {parent : DirEntry} (hpath : ∀ x ∈ path, Component x)
    (h : findParent super s path = .ok parent) :
    parent.isDirectory = true ∧
      ∀ args, findLoop super s args path.dropLast (rootEntry super) = .ok parent := by
  unfold findParent at h
  split at h
  · dsimp only at h
    cases hfind : findFile super s (joinPath path.dropLast) with
    | error f =>
      rw [hfind] at h
      cases h
    | ok e =>
      rw [hfind] at h
      dsimp only [bind, Except.bind] at h
      split at h
      · cases h
      · next hdir =>
        cases h
        rw [findFile, splitPath_joinPath fun x hx => hpath x (List.dropLast_subset _ hx)] at hfind
        exact ⟨by simpa using hdir, fun args => findLoop_args args hfind⟩
  · -- a path of one component: the parent is the root
    next hlen =>
    cases h
    have hnil : path.dropLast = [] := by
      apply List.eq_nil_of_length_eq_zero
      rw [List.length_dropLast]
      omega
    rw [hnil]
    exact ⟨rfl, fun _ => rfl⟩

/-! ## Section 3: Where a path leads -/

/-- An entry for a directory of the tree, or for a file of one. -/
def Located (super : FatSuper) (s : Session) (e : DirEntry) : Prop :=
  (e.isDirectory = true ∧ ∃ p, (memView super s).IsDir e.firstCluster p) ∨
  (e.isDirectory = false ∧ ∃ c p l r, (memView super s).IsDir c p ∧ (memView super s).Chain c l ∧
    r ∈ live ((memView super s).content l) ∧ r.isDot = false ∧ r.isDirectory = false ∧
    e.size = r.size ∧ e.firstCluster = r.clusterIndex)

theorem located_root : Located super s (rootEntry super) := .inl ⟨rfl, none, .root⟩

/-- What a directory of the tree is for `ScanDirectory`. -/
theorem dir_scan (hs : s.Ok super) (hwf : (memView super s).WellFormed) {c : Nat} {p : Option Nat}
    (hdir : (memView super s).IsDir c p) :
    ∃ l gs, (memView super s).Chain c l ∧ l ≠ [] ∧
      Groups (body ((memView super s).content l)) gs ∧
      scanDirectory super s (dirReader c) =
        scanned [] (sizeof * (body ((memView super s).content l)).length) (makeEntries gs) := by
  obtain ⟨-, l, -, hch, hne⟩ := hdir.owner hwf.toSound
  obtain ⟨gs, hgs⟩ := hwf.groups hdir hch
  exact ⟨l, gs, hch, hne, hgs, scanDirectory_spec hs hwf.toSane hch hne hgs⟩

theorem scanned_ok {total t : Nat} {out es : List DirEntry} {r : Except Fail (List DirEntry)} :
    scanned out total r = .ok (es, t) ↔ ∃ es', r = .ok es' ∧ es = out ++ es' ∧ t = total := by
  cases r with
  | error f => simp [scanned, bind, Except.bind]
  | ok es' => simp [scanned, bind, Except.bind, eq_comm]

/-- The entries of a directory are located. -/
theorem located_of_scan (hs : s.Ok super) (hwf : (memView super s).WellFormed) {c t : Nat}
    {p : Option Nat} (hdir : (memView super s).IsDir c p) {es : List DirEntry}
    (hscan : scanDirectory super s (dirReader c) = .ok (es, t)) {e : DirEntry} (he : e ∈ es) :
    Located super s e := by
  obtain ⟨l, gs, hch, -, hgs, heq⟩ := dir_scan hs hwf hdir
  rw [heq, scanned_ok] at hscan
  obtain ⟨es', hmake, rfl, -⟩ := hscan
  obtain ⟨g, hg, hentry⟩ := makeEntries_mem hmake he
  obtain ⟨hname, hsize, hcluster, hisDir, -⟩ := makeEntry_fields hentry
  have hlive : g.2 ∈ live ((memView super s).content l) := by
    rw [live, ← hgs.map_snd]
    exact List.mem_map_of_mem hg
  by_cases hdot : g.2.isDot = true
  · -- a dot record leads to the directory or to its parent
    cases p with
    | none =>
      have hroot : c = (memView super s).root := by cases hdir; rfl
      rw [hroot] at hch
      rw [hwf.rootDots hch hlive] at hdot
      cases hdot
    | some p =>
      obtain ⟨hisDir', hself, hparent⟩ := hwf.dots hdir hch hlive hdot
      refine .inl ⟨hisDir.trans hisDir', ?_⟩
      rw [hcluster]
      simp only [isDot, Bool.or_eq_true, decide_eq_true_eq] at hdot
      rcases hdot with hdot | hdot
      · rw [hself hdot]
        exact ⟨some p, hdir⟩
      · rw [hparent hdot]
        cases hdir with
        | sub hdir' _ _ _ _ => exact ⟨_, hdir'⟩
  · have hdot : g.2.isDot = false := by simpa using hdot
    by_cases hd : g.2.isDirectory = true
    · exact .inl ⟨hisDir.trans hd, some c, hcluster ▸ .sub hdir hch hlive hd hdot⟩
    · have hd : g.2.isDirectory = false := by simpa using hd
      exact .inr ⟨hisDir.trans hd, c, p, l, g.2, hdir, hch, hlive, hdot, hd, hsize, hcluster⟩

theorem Located.isDir {e : DirEntry} (h : Located super s e) (hdir : e.isDirectory = true) :
    ∃ p, (memView super s).IsDir e.firstCluster p := by
  rcases h with ⟨-, hp⟩ | ⟨hfile, -⟩
  · exact hp
  · rw [hdir] at hfile
    cases hfile

theorem findLoop_located (hs : s.Ok super) (hwf : (memView super s).WellFormed) {args : Bytes}
    {path : List Bytes} {ent e : DirEntry} (hent : Located super s ent)
    (h : findLoop super s args path ent = .ok e) : Located super s e := by
  induction path generalizing ent with
  | nil =>
    rw [findLoop_nil] at h
    cases h
    exact hent
  | cons name path ih =>
    rw [findLoop_cons] at h
    obtain ⟨hdir, es, total, it, hscan, hfind, hrest⟩ := h
    obtain ⟨p, hp⟩ := hent.isDir hdir
    exact ih (located_of_scan hs hwf hp hscan (List.mem_of_find?_eq_some hfind)) hrest

theorem findFile_located (hs : s.Ok super) (hwf : (memView super s).WellFormed) {args : Bytes}
    {e : DirEntry} (h : findFile super s args = .ok e) : Located super s e :=
  findLoop_located hs hwf located_root h

theorem findParent_isDir (hs : s.Ok super) (hwf : (memView super s).WellFormed)
    {path : List Bytes} (hpath : ∀ x ∈ path, Component x) {parent : DirEntry}
    (h : findParent super s path = .ok parent) :
    ∃ p, (memView super s).IsDir parent.firstCluster p := by
  obtain ⟨hdir, hfind⟩ := findParent_ok hpath h
  exact (findLoop_located hs hwf located_root (hfind [])).isDir hdir

/-- A path leads to the same entry as long as the volume is the same. -/
theorem findLoop_view (hs : s.Ok super) (hs' : s'.Ok super) (hwf : (memView super s).WellFormed)
    (hview : memView super s' = memView super s) {args : Bytes} {path : List Bytes}
    {ent e : DirEntry} (hent : Located super s ent) (h : findLoop super s args path ent = .ok e) :
    findLoop super s' args path ent = .ok e := by
  induction path generalizing ent with
  | nil =>
    rw [findLoop_nil] at h ⊢
    exact h
  | cons name path ih =>
    rw [findLoop_cons] at h ⊢
    obtain ⟨hdir, es, total, it, hscan, hfind, hrest⟩ := h
    obtain ⟨p, hp⟩ := hent.isDir hdir
    have hnext := ih (located_of_scan hs hwf hp hscan (List.mem_of_find?_eq_some hfind)) hrest
    refine ⟨hdir, es, total, it, ?_, hfind, hnext⟩
    obtain ⟨l, gs, hch, hne, hgs, heq⟩ := dir_scan hs hwf hp
    have hsane := hwf.toSane
    rw [← hview] at hch hgs hsane
    rw [scanDirectory_spec hs' hsane hch hne hgs, hview, ← heq]
    exact hscan

/-! ## Section 4: What a new record changes -/

section Grew

variable {P : Nat} {lP lP' lr : List Nat} {r : FatDirent}

/-- Other directories are listed as before. -/
theorem scan_grew_other (hs : s.Ok super) (hs' : s'.Ok super)
    (hwf : (memView super s).WellFormed) (hsane : (memView super s').Sane)
    (hg : Vol.Grew (memView super s) (memView super s') P lP lP' r lr) {c : Nat} {p : Option Nat}
    (hdir : (memView super s).IsDir c p) (hc : c ≠ P) :
    scanDirectory super s' (dirReader c) = scanDirectory super s (dirReader c) := by
  obtain ⟨l, gs, hch, hne, hgs, hscan⟩ := dir_scan hs hwf hdir
  rcases hg.dir_chain hwf.toSound hdir hch with ⟨heq, -⟩ | ⟨-, hkeep, hcont⟩
  · exact absurd heq hc
  · rw [hscan, ← hcont]
    rw [← hcont] at hgs
    exact scanDirectory_spec hs' hsane hkeep hne hgs

/-- The directory of the record gets one entry at its end. -/
theorem scan_grew_self (hs : s.Ok super) (hs' : s'.Ok super)
    (hwf : (memView super s).WellFormed) (hsane : (memView super s').Sane)
    (hg : Vol.Grew (memView super s) (memView super s') P lP lP' r lr) {e : DirEntry}
    (hentry : makeEntry r [] = .ok e) {es : List DirEntry} {total : Nat}
    (hscan : scanDirectory super s (dirReader P) = .ok (es, total)) :
    scanDirectory super s' (dirReader P) = .ok (es ++ [e], total + sizeof) := by
  obtain ⟨p, hdir⟩ := hg.dir
  obtain ⟨l, gs, hch, hne, hgs, heq⟩ := dir_scan hs hwf hdir
  obtain rfl := ChainLib.Chain.unique hch hg.chain
  rw [heq, scanned_ok] at hscan
  obtain ⟨es', hmake, rfl, rfl⟩ := hscan
  have hgs' : Groups (body ((memView super s').content lP')) (gs ++ [([], r)]) := by
    rw [hg.body]
    exact hgs.append (.plain hg.isLive .nil)
  have hone : makeEntries [([], r)] = .ok [e] :=
    makeEntries_cons_ok.mpr ⟨e, [], hentry, rfl, rfl⟩
  have hne' : lP' ≠ [] := fun hnil => hne (List.prefix_nil.mp (hnil ▸ hg.chain_front))
  rw [scanDirectory_spec hs' hsane hg.chain' hne' hgs', makeEntries_append_ok hmake hone, hg.body,
    List.length_append, List.length_singleton, Nat.mul_succ]
  rfl

/-- Paths that could be followed lead to the same entry. -/
theorem findLoop_grew (hs : s.Ok super) (hs' : s'.Ok super)
    (hwf : (memView super s).WellFormed) (hsane : (memView super s').Sane)
    (hg : Vol.Grew (memView super s) (memView super s') P lP lP' r lr) {e : DirEntry}
    (hentry : makeEntry r [] = .ok e) {args : Bytes} {path : List Bytes} {ent it : DirEntry}
    (hent : Located super s ent) (h : findLoop super s args path ent = .ok it) :
    findLoop super s' args path ent = .ok it := by
  induction path generalizing ent with
  | nil =>
    rw [findLoop_nil] at h ⊢
    exact h
  | cons name path ih =>
    rw [findLoop_cons] at h ⊢
    obtain ⟨hdir, es, total, e₁, hscan, hfind, hrest⟩ := h
    obtain ⟨p, hp⟩ := hent.isDir hdir
    have hnext := ih (located_of_scan hs hwf hp hscan (List.mem_of_find?_eq_some hfind)) hrest
    by_cases hc : ent.firstCluster = P
    · rw [hc] at hscan
      have hscan' := scan_grew_self hs hs' hwf hsane hg hentry hscan
      rw [← hc] at hscan'
      refine ⟨hdir, _, _, e₁, hscan', ?_, hnext⟩
      rw [List.find?_append, hfind]
      rfl
    · have hscan' := scan_grew_other hs hs' hwf hsane hg hp hc
      exact ⟨hdir, es, total, e₁, hscan'.trans hscan, hfind, hnext⟩

end Grew

end Hausboot.FatEdit

import Hausboot.Agree.Packed
import Hausboot.FatEdit.Transcript
import Hausboot.FatFs.Confined
import Hausboot.FatFs.Spec

/-! # Loader and Tool: One Tree

    stage2 reads an image that `fatedit` has written. On a device that delivers
    the sectors of the image, `FindByPath` follows a path as the tree does that
    the image shows: it finds what is there, and it reports what is missing or
    what is no directory (`findByPath_leads`). So what stage2 finds after any
    sequence of sessions is what the ideal tool has put there
    (`sessions_leads`). What the device has behind the image plays no part. -/

open ByteLib ChainLib DirTree Prog

namespace Hausboot

open FatEdit (ByteVec DirEntry Listed Layout Host Item FileTree Ideal Shows ShowsDir ShowsItem
  ShowsNode ImageShows Session diskView memView items makeEntries splitPath sessions start
  runLine runLines)

variable {image image' : ByteVec} {loc : ℕ → ℕ} {t : FileTree}

/-! ## Section 1: What a path leads to -/

/-- The driver has the size of the file, and the chain of its bytes. -/
def Offers (image : ByteVec) (out : FatFile) (d : Bytes) : Prop :=
  out.size = d.length ∧
    (d ≠ [] → ∃ l, (imageVolume image).FsChain out.cluster l ∧ (imageVolume image).Confined l ∧
      (imageVolume image).fileBytes out l = d)

/-- The driver stands at a place of the tree. -/
def StandsAt (image : ByteVec) (loc : ℕ → ℕ) (out : FatFile) : Node Bytes → Prop
  | .dir i => FlagField.isSet out.flags FatDirent.directory = true ∧ out.cluster = loc i
  | .file d => FlagField.isSet out.flags FatDirent.directory = false ∧ Offers image out d

/-- What `FindByPath` returns where the tree leads to a place, or does not. -/
def Leads (image : ByteVec) (loc : ℕ → ℕ) :
    Except Miss (Node Bytes) → FatFs.FindResult → Prop
  | .ok x, r => ∃ out, r = .ok out ∧ StandsAt image loc out x
  | .error .nameInvalid, r => r = .nameInvalid
  | .error .noEntry, r => r = .noEntry
  | .error .notDir, r => r = .notDir
  | .error .unreadable, _ => False

/-! ## Section 2: One directory -/

/-- Live records have no long names. -/
theorem groups_of_live {rs : List FatDirent} {gs : List (List FatDirentLong × FatDirent)}
    (h : Groups rs gs) (hlive : ∀ r ∈ rs, r.isLive = true) : gs = rs.map fun r => ([], r) := by
  induction h with
  | nil => rfl
  | @deleted r rs gs hdel _ ih =>
    have hr := hlive r List.mem_cons_self
    rw [FatDirent.isLive, hdel, Bool.not_true, Bool.false_and] at hr
    cases hr
  | @plain r rs gs _ _ ih =>
    rw [ih fun x hx => hlive x (List.mem_cons_of_mem _ hx), List.map_cons]
  | @long ls r rs gs hname _ _ _ =>
    obtain ⟨e, es, rfl, -, -, -⟩ := hname.first
    have hr := hlive ⟨e.raw⟩ (by simp)
    have hlong : (⟨e.raw⟩ : FatDirent).isLongName = true := hname.long e List.mem_cons_self
    rw [FatDirent.isLive, hlong, Bool.not_true, Bool.and_false] at hr
    cases hr

/-- A search looks at nothing behind the terminator. -/
theorem final_takeWhile (name buffer : Bytes) (rs : List FatDirent) :
    (FatFs.findEntry name buffer (rs.takeWhile (!·.isLastInList))).final =
      (FatFs.findEntry name buffer rs).final := by
  conv_rhs => rw [← List.takeWhile_append_dropWhile (p := (!·.isLastInList)) (l := rs),
    FatFs.findEntry_append]
  cases hscan : FatFs.findEntry name buffer (rs.takeWhile (!·.isLastInList)) with
  | found e => rfl
  | last => rfl
  | more buffer' =>
    dsimp only
    cases hrest : rs.dropWhile (!·.isLastInList) with
    | nil => rfl
    | cons r post =>
      -- what comes behind begins with a terminator
      have hlast := List.head?_dropWhile_not (!·.isLastInList) rs
      simp only [hrest, List.head?_cons, Bool.not_eq_eq_eq_not, Bool.not_false] at hlast
      rw [FatFs.findEntry, if_pos hlast]
      rfl

/-- The clusters of the volume are in the data area for the driver as well. -/
theorem confined_of_valid {l : List ℕ}
    (h : ∀ x ∈ l, (diskView (imageSuper image) image).Valid x) : (imageVolume image).Confined l := by
  intro x hx
  have hcount : FatEdit.dataClusters (imageSuper image) = (imageSuper image).clusterCount :=
    Layout.dataClusters_eq _
  have hlt : x < FatEdit.dataClusters (imageSuper image) + 2 := (h x hx).2
  rwa [hcount] at hlt

section Image

variable (hl : Layout (imageSuper image) image.size)
  (h512 : (imageSuper image).bytesPerSector = 512)
  (hwf : (diskView (imageSuper image) image).WellFormed)
  (hp : (diskView (imageSuper image) image).Plain)
include hl h512 hwf hp

/-- A directory that shows its items, for the driver. -/
theorem directory_shows {c : ℕ} {p : Option ℕ} (hdir : (diskView (imageSuper image) image).IsDir c p)
    {its : List Item} (h : ShowsDir (diskView (imageSuper image) image) loc c (.ok its)) :
    ∃ l es, (imageVolume image).FsChain c l ∧ (imageVolume image).Confined l ∧
      List.Forall₂ (ShowsItem (diskView (imageSuper image) image) loc) es its ∧
      (∀ e ∈ es, e.longName = e.shortName) ∧
      ∀ name buffer, ∃ res, Finds name es res ∧
        (FatFs.findEntry name buffer (l.flatMap (imageVolume image).records)).final =
          res.final := by
  obtain ⟨l, gs, hch, hgs, hlist⟩ := h
  obtain ⟨-, l', -, hch', hne⟩ := hdir.owner hwf.toSound
  obtain rfl := hch.unique hch'
  have hlive := hp.allLive hdir hch
  obtain ⟨es, hmake, hitems⟩ := agrees_ok.mp hlist
  rw [groups_of_live hgs hlive] at hmake
  obtain ⟨hlisted, hnames⟩ := listed_of_live hlive (fun r hr => not_last_of_mem_body hr) hmake
  refine ⟨l, es, device_chain hl h512 hp hch hne, confined_of_valid fun x hx => hch.valid hx,
    hitems, hnames, ?_⟩
  intro name buffer
  refine ⟨_, finds_of_listed hlisted (longNamesFollowed_of_live hlive) buffer, ?_⟩
  rw [device_records hl h512 fun x hx => hch.valid hx]
  exact (final_takeWhile name buffer _).symm

/-- What the driver makes of an entry. -/
theorem standsAt_of_shows {e : DirEntry} {x : Node Bytes} {out : FatFile} (hout : SameEntry out e)
    (h : ShowsNode (diskView (imageSuper image) image) loc e x) : StandsAt image loc out x := by
  cases x with
  | dir i => exact ⟨hout.isDirectory.trans h.1, hout.cluster.trans h.2.symm⟩
  | file d =>
    obtain ⟨hfile, hstores⟩ := h
    have hlen := hstores.length hwf.toSane
    refine ⟨hout.isDirectory.trans hfile, hout.size.trans hlen.symm, fun hne => ?_⟩
    obtain ⟨c, p, lc, r, l, -, -, -, -, -, hsize, hcluster, hent, rfl⟩ := hstores
    have hpos : 0 < e.size := by
      rw [← hlen]
      exact List.length_pos_iff.mpr hne
    rcases hent with ⟨hch, hlne, -⟩ | ⟨-, hzero, -⟩
    · refine ⟨l, ?_, confined_of_valid fun x hx => hch.valid hx, ?_⟩
      · rw [hout.cluster, hcluster]
        exact device_chain hl h512 hp hch hlne
      · rw [Volume.fileBytes, hout.size, if_pos hpos, device_content hl h512 fun x hx => hch.valid hx]
    · omega

variable {w : World} {v : Volume} (hd : w.Delivers v (imageVolume image))
include hd

/-- **One component**: the driver finds the item that answers to the name, or
    reports that there is none. -/
theorem findInDirectory_leads (h : Shows (diskView (imageSuper image) image) loc t) {i : ℕ}
    (hi : i < t.count) {its : List Item} (hlist : t.list i = .ok its) {name : Bytes}
    (hname : GoodName name) :
    ∃ fuel₀, ∀ fuel ≥ fuel₀, ∀ fs dir, Coherent (imageVolume image) fs →
      StandsAt image loc dir (.dir i) →
      ∃ r fs', FatFs.findInDirectory w v fuel fs dir name = some (r, fs') ∧
        Coherent (imageVolume image) fs' ∧
        Leads image loc ((t.enter items (.dir i) name).mapError Miss.ofStop) r := by
  obtain ⟨p, howned⟩ := h.dirs i hi
  have hshown := h.lists i hi
  rw [hlist] at hshown
  obtain ⟨l, es, hch, hin, hitems, hnames, hsearch⟩ := directory_shows hl h512 hwf hp howned hshown
  refine ⟨l.length + 1, fun fuel hfuel fs dir hco hdir => ?_⟩
  obtain ⟨hisDir, hcluster⟩ := hdir
  rw [← hcluster] at hch
  have hw := w.not_faulty_spotless
  obtain ⟨hanswer, hends⟩ := FatFs.findInDirectory_chain hw hco hisDir hname.short hch fuel
  obtain ⟨r, fs', hrun⟩ := hends hfuel
  refine ⟨r, fs', ?_, FatFs.findInDirectory_coherent hw hco hrun, ?_⟩
  · rw [FatFs.findInDirectory_confined hd (imageOk_of_layout hl h512).describes hch hin hco]
    exact hrun
  -- the search over the chain ends as the one through the items does
  obtain ⟨res, hfinds, hfinal⟩ := hsearch name (w.spotless.uninit .nameBuffer fs.loads)
  rw [hanswer r fs' hrun, hfinal]
  have hfind := FatEdit.find?_shows hitems name
  rw [lookup_eq hnames hname.notZero] at hfind
  unfold Finds at hfinds
  rw [Tree.enter_dir hlist]
  revert hfinds hfind
  cases hit : its.find? (items.answers · name) with
  | none =>
    intro hfinds hfind
    cases hentry : lookup es name with
    | some e =>
      rw [hentry] at hfind
      cases hfind
    | none =>
      rw [hentry] at hfinds
      obtain ⟨buffer, rfl⟩ := hfinds
      exact rfl
  | some it =>
    intro hfinds hfind
    cases hentry : lookup es name with
    | none =>
      rw [hentry] at hfind
      cases hfind
    | some e =>
      rw [hentry] at hfinds hfind
      obtain ⟨rec, rfl, hsame⟩ := hfinds
      cases hfind with
      | some hshows =>
        exact ⟨recordFile rec, rfl, standsAt_of_shows hl h512 hwf hp hsame hshows.node⟩

/-! ## Section 3: Paths -/

/-- **Components one by one.** The induction follows the path. -/
theorem lookUp_leads (h : Shows (diskView (imageSuper image) image) loc t)
    {path : List Bytes} (hgood : ∀ name ∈ path, GoodName name) {x : Node Bytes}
    (hx : x.Below t.count) (hread : ∀ e, t.walk items path x ≠ .error (.unreadable e)) :
    ∃ fuel₀, ∀ fuel ≥ fuel₀, ∀ fs out, Coherent (imageVolume image) fs →
      StandsAt image loc out x →
      ∃ r fs', FatFs.lookUp w v fuel fs out path = some (r, fs') ∧
        Coherent (imageVolume image) fs' ∧
        Leads image loc ((t.walk items path x).mapError Miss.ofStop) r := by
  induction path generalizing x with
  | nil => exact ⟨0, fun _ _ fs out hco hout => ⟨.ok out, fs, rfl, hco, out, rfl, hout⟩⟩
  | cons name path ih =>
    obtain ⟨hname, hgood⟩ := List.forall_mem_cons.mp hgood
    have hshort : ¬ name.length > 12 := Nat.not_lt.mpr hname.length_le
    cases x with
    | file d =>
      -- `FindInDirectory` refuses to search a file
      refine ⟨0, fun fuel _ fs out hco hout => ⟨.notDir, fs, ?_, hco, rfl⟩⟩
      rw [FatFs.lookUp, if_neg hshort, FatFs.findInDirectory, hname.short, hout.1]
      rfl
    | dir i =>
      have hi := hx i rfl
      cases hlist : t.list i with
      | error e =>
        refine absurd ?_ (hread e)
        rw [Tree.walk, Tree.enter, hlist]
        rfl
      | ok its =>
        obtain ⟨fuel₁, hfirst⟩ := findInDirectory_leads hl h512 hwf hp hd h hi hlist hname
        cases henter : t.enter items (.dir i) name with
        | error stop =>
          refine ⟨fuel₁, fun fuel hfuel fs out hco hout => ?_⟩
          obtain ⟨r, fs₁, hrun, hco₁, hleads⟩ := hfirst fuel hfuel fs out hco hout
          rw [henter] at hleads
          have hr : ∀ out', r ≠ .ok out' := by
            rintro out' rfl
            cases stop with
            | missing _ | notDirectory => cases hleads
            | unreadable _ => exact hleads
          refine ⟨r, fs₁, ?_, hco₁, ?_⟩
          · rw [FatFs.lookUp, if_neg hshort, hrun]
            cases r with
            | ok out' => exact absurd rfl (hr out')
            | nameInvalid | ioError | noEntry | notDir => rfl
          · rw [Tree.walk, henter]
            exact hleads
        | ok y =>
          have hy : y.Below t.count := by
            refine h.proper.walk hx (?_ : t.walk items [name] _ = .ok y)
            rw [Tree.walk, henter]
            rfl
          rw [Tree.walk, henter] at hread ⊢
          obtain ⟨fuel₂, hrest⟩ := ih hgood hy hread
          refine ⟨max fuel₁ fuel₂, fun fuel hfuel fs out hco hout => ?_⟩
          obtain ⟨r, fs₁, hrun, hco₁, hleads⟩ :=
            hfirst fuel (le_of_max_le_left hfuel) fs out hco hout
          rw [henter] at hleads
          obtain ⟨out₁, rfl, hout₁⟩ := hleads
          rw [FatFs.lookUp, if_neg hshort, hrun]
          exact hrest fuel (le_of_max_le_right hfuel) fs₁ out₁ hco₁ hout₁

/-- Components that are 8.3 names, and then one that is none. -/
theorem lookUp_refuses (h : Shows (diskView (imageSuper image) image) loc t)
    {path rest : List Bytes} {bad : Bytes} (hgood : ∀ name ∈ path, GoodName name)
    (hbad : isShortName bad = false) {x : Node Bytes} (hx : x.Below t.count)
    (hread : ∀ e, t.walk items path x ≠ .error (.unreadable e)) :
    ∃ fuel₀, ∀ fuel ≥ fuel₀, ∀ fs out, Coherent (imageVolume image) fs →
      StandsAt image loc out x →
      ∃ r fs', FatFs.lookUp w v fuel fs out (path ++ bad :: rest) = some (r, fs') ∧
        Coherent (imageVolume image) fs' ∧
        Leads image loc (((t.walk items path x).mapError Miss.ofStop).bind
          fun _ => .error .nameInvalid) r := by
  obtain ⟨fuel₀, hfirst⟩ := lookUp_leads hl h512 hwf hp hd h hgood hx hread
  refine ⟨fuel₀, fun fuel hfuel fs out hco hout => ?_⟩
  obtain ⟨r, fs', hrun, hco', hleads⟩ := hfirst fuel hfuel fs out hco hout
  cases hwalk : t.walk items path x with
  | error stop =>
    rw [hwalk] at hleads
    have hr : ∀ out', r ≠ .ok out' := by
      rintro out' rfl
      cases stop with
      | missing _ | notDirectory => cases hleads
      | unreadable _ => exact hleads
    exact ⟨r, fs', FatFs.lookUp_append_stop hr hrun, hco', hleads⟩
  | ok y =>
    rw [hwalk] at hleads
    obtain ⟨out', rfl, -⟩ := hleads
    refine ⟨.nameInvalid, fs', ?_, hco', rfl⟩
    rw [FatFs.lookUp_append_ok hrun, FatFs.lookUp, FatFs.findInDirectory, hbad]
    split <;> rfl

/-- **FindByPath** on the tree that the image shows. -/
theorem findByPath_leads (h : Shows (diskView (imageSuper image) image) loc t) {path : Bytes}
    (hblank : 0x20 ∉ cstr path) (hread : t.findByPath (cstr path) ≠ .error .unreadable) :
    ∃ fuel₀, ∀ fuel ≥ fuel₀, ∀ fs, Coherent (imageVolume image) fs →
      ∃ r fs', FatFs.findByPath w v fuel fs path = some (r, fs') ∧
        Coherent (imageVolume image) fs' ∧ Leads image loc (t.findByPath (cstr path)) r := by
  have hsame : FatFs.rootDir v = FatFs.rootDir (imageVolume image) := by
    rw [FatFs.rootDir, hd.super, FatFs.rootDir]
  have hroot : StandsAt image loc (FatFs.rootDir v) (.dir 0) := by
    rw [hsame]
    refine ⟨(sameEntry_root image).isDirectory, ?_⟩
    rw [h.root]
    rfl
  have hbelow : (Node.dir (δ := Bytes) 0).Below t.count := by
    intro j hj
    cases hj
    exact h.proper.root
  generalize hnames : splitPath (cstr path) = names
  have hchars : ∀ name ∈ names, 0 ∉ name ∧ 0x20 ∉ name := by
    intro name hname
    rw [← hnames, splitPath, splitLoop_eq (Nat.le_refl _)] at hname
    exact ⟨fun hz => zero_notMem_cstr path (Runs.mem_of_mem_runs hname hz),
      fun hz => hblank (Runs.mem_of_mem_runs hname hz)⟩
  have hgood : ∀ name ∈ names.takeWhile isShortName, GoodName name := by
    intro name hname
    have hmem := List.takeWhile_subset _ hname
    exact ⟨List.mem_takeWhile_imp hname, (hchars name hmem).1, (hchars name hmem).2⟩
  rw [FatEdit.FileTree.findByPath, hnames] at hread
  have hwalk : ∀ e, t.walk items (names.takeWhile isShortName) (.dir 0) ≠
      .error (.unreadable e) := by
    intro e he
    refine hread ?_
    rw [FatEdit.FileTree.lookUp, he]
    rfl
  have hlook : ∃ fuel₀, ∀ fuel ≥ fuel₀, ∀ fs, Coherent (imageVolume image) fs →
      ∃ r fs', FatFs.lookUp w v fuel fs (FatFs.rootDir v) names = some (r, fs') ∧
        Coherent (imageVolume image) fs' ∧ Leads image loc (t.lookUp names) r := by
    have happend := List.takeWhile_append_dropWhile (p := isShortName) (l := names)
    rw [FatEdit.FileTree.lookUp]
    cases hrest : names.dropWhile isShortName with
    | nil =>
      rw [hrest, List.append_nil] at happend
      have hall : names.all isShortName = true :=
        List.all_eq_true.mpr (List.takeWhile_eq_self_iff.mp happend)
      rw [hall, happend]
      rw [happend] at hgood hwalk
      obtain ⟨fuel₀, hlook⟩ := lookUp_leads hl h512 hwf hp hd h hgood hbelow hwalk
      refine ⟨fuel₀, fun fuel hfuel fs hco => ?_⟩
      obtain ⟨r, fs', hrun, hco', hleads⟩ := hlook fuel hfuel fs _ hco hroot
      refine ⟨r, fs', hrun, hco', ?_⟩
      cases hx : t.walk items names (.dir 0) with
      | ok x | error e =>
        rw [hx] at hleads
        exact hleads
    | cons bad rest =>
      rw [hrest] at happend
      have hbad : isShortName bad = false := by
        have hhead := List.head?_dropWhile_not isShortName names
        rw [hrest, List.head?_cons] at hhead
        exact Bool.eq_false_of_not_eq_true (by simpa using hhead)
      have hall : names.all isShortName = false := by
        rw [← happend, List.all_append, List.all_cons, hbad, Bool.false_and, Bool.and_false]
      rw [hall]
      obtain ⟨fuel₀, hlook⟩ :=
        lookUp_refuses hl h512 hwf hp hd h hgood hbad hbelow hwalk
      rw [happend] at hlook
      exact ⟨fuel₀, fun fuel hfuel fs hco => hlook fuel hfuel fs _ hco hroot⟩
  obtain ⟨fuel₀, hlook⟩ := hlook
  refine ⟨max fuel₀ ((cstr path).length + 1), fun fuel hfuel fs hco => ?_⟩
  rw [FatFs.findByPath, FatFs.pathLoop_lookUp (le_of_max_le_right hfuel),
    ← splitLoop_eq (Nat.le_refl _), ← splitPath, hnames, FatEdit.FileTree.findByPath, hnames]
  exact hlook fuel (le_of_max_le_left hfuel) fs hco

/-! ## Section 4: Files -/

omit hwf hp in
/-- A file that the driver has the chain of can be read in any pieces. -/
theorem reads_of_offers {out : FatFile} {d : Bytes} (h : Offers image out d) (hne : d ≠ [])
    {fuel : ℕ} (hfuel : (imageSuper image).clusterCount + 2 < fuel) :
    ReadsFile w v fuel out (Coherent (imageVolume image)) d := by
  obtain ⟨l, hch, hin, rfl⟩ := h.2 hne
  have hle : l.length ≤ (imageSuper image).clusterCount + 2 := hin.length_le hch
  intro fs hco offset length hlen
  rw [FatFs.readAt_confined hd (imageOk_of_layout hl h512).describes hch hin hco]
  exact readsFile_of_chain hch w.not_faulty_spotless (by omega) fs hco offset length hlen

end Image

/-- Through a device, and wherever its windows are right, stage2 finds what the
    tree has, and it can read every file that is not empty. The windows are
    right then as well. -/
def SeesTree (w : World) (v : Volume) (image : ByteVec) (loc : ℕ → ℕ) (t : FileTree) : Prop :=
  ∀ path : Bytes, 0x20 ∉ cstr path → t.findByPath (cstr path) ≠ .error .unreadable →
    ∃ fuel₀, ∀ fuel ≥ fuel₀, ∀ fs, Coherent (imageVolume image) fs →
      ∃ r fs', FatFs.findByPath w v fuel fs path = some (r, fs') ∧
        Coherent (imageVolume image) fs' ∧ Leads image loc (t.findByPath (cstr path)) r ∧
        ∀ d, t.findByPath (cstr path) = .ok (.file d) → d ≠ [] →
          ∃ out, r = .ok out ∧ ReadsFile w v fuel out (Coherent (imageVolume image)) d

/-- Any device that delivers the sectors of the image will do. -/
def ReadsTree (image : ByteVec) (loc : ℕ → ℕ) (t : FileTree) : Prop :=
  ∀ (w : World) (v : Volume), w.Delivers v (imageVolume image) → SeesTree w v image loc t

theorem readsTree_of_shows (h512 : (imageSuper image).bytesPerSector = 512)
    (hp : (diskView (imageSuper image) image).Plain) (h : ImageShows image loc t) :
    ReadsTree image loc t := by
  intro w v hd path hblank hread
  obtain ⟨fuel₀, hfind⟩ := findByPath_leads h.layout h512 h.wellFormed hp hd h.shows hblank hread
  refine ⟨max fuel₀ ((imageSuper image).clusterCount + 3), fun fuel hfuel fs hco => ?_⟩
  obtain ⟨r, fs', hrun, hco', hleads⟩ := hfind fuel (le_of_max_le_left hfuel) fs hco
  refine ⟨r, fs', hrun, hco', hleads, ?_⟩
  intro d hfile hne
  rw [hfile] at hleads
  obtain ⟨out, rfl, -, hoffers⟩ := hleads
  exact ⟨out, rfl, reads_of_offers h.layout h512 hd hoffers hne (le_of_max_le_right hfuel)⟩

/-! ## Section 5: Sessions -/

variable {super : FatSuper} {s s' : Session}

/-- What the commands do to the volume keeps it plain. -/
theorem runLines_plain (hs : s.Sound super) (hp : (memView super s).Plain)
    {input : List (Bytes × Host)} (h : runLines super input s = .ok () s') :
    (memView super s').Plain := by
  induction input generalizing s with
  | nil =>
    obtain ⟨-, rfl⟩ := pure_eq_ok.mp h
    exact hp
  | cons it input ih =>
    obtain ⟨line, host⟩ := it
    unfold runLines at h
    obtain ⟨_, s₁, hline, hlines⟩ := bind_eq_ok.mp h
    have hs₁ := hs.step (FatEdit.runLine_step hs.toOk hs.wellFormed hline)
    apply ih hs₁ _ hlines
    rcases FatEdit.runLine_ok hs.toOk hs.wellFormed hline with hquiet | ⟨c, args, -, hrun⟩
    · rwa [hquiet.view]
    · rcases FatEdit.callback_creates hs hrun with hquiet | ⟨name, -, -, hcreates⟩
      · rwa [hquiet.view]
      · obtain ⟨parent, size, lP, isDir, fileSize, d, -, ht, hadded⟩ := hcreates
        obtain ⟨first, lP', lr, -, -, hg, -, hentry⟩ := hadded.grew hs.toOk hs.wellFormed ht
        exact hg.plain hs.wellFormed.toSound hentry hp

theorem sessions_plain {inputs : List (List (Bytes × Host))} {outs : List (Bytes × Bytes)}
    (hl : Layout (imageSuper image) image.size)
    (hwf : (diskView (imageSuper image) image).WellFormed)
    (hp : (diskView (imageSuper image) image).Plain)
    (h : sessions image inputs = some (outs, image')) :
    imageSuper image' = imageSuper image ∧ (diskView (imageSuper image') image').Plain := by
  induction inputs generalizing image outs with
  | nil =>
    obtain ⟨-, rfl⟩ := Prod.mk.inj (Option.some.inj h)
    exact ⟨rfl, hp⟩
  | cons input inputs ih =>
    obtain ⟨image₁, out, outs₁, hmain, -, hrest, -⟩ := FatEdit.sessions_cons.mp h
    obtain ⟨hsuper, hsize, s, s', -, hsound, hview, hlines, hview'⟩ :=
      FatEdit.main_view hl hwf hmain
    rw [← hview] at hp
    have hp' := runLines_plain hsound hp hlines
    have hwf' := (FatEdit.runLines_sound hsound hlines).wellFormed
    rw [← hview'] at hp' hwf'
    rw [← hsuper, ← hsize] at hl
    obtain ⟨hsuper', hplain⟩ := ih hl hwf' hp' hrest
    exact ⟨hsuper'.trans hsuper, hplain⟩

set_option maxRecDepth 3000

end Hausboot

import Hausboot.FatEdit.Disk

/-! # The fatedit Tool: pack, then type

    `type` prints the bytes of the cluster chain of a file, up to its size. A
    record that is added to a directory leaves all other files and directories
    as they are, and the new file can be found and printed. -/

open ByteLib Prog

namespace Hausboot.FatEdit

open FatDirent Session

variable {super : FatSuper} {s s' : Session}

/-! ## Section 1: What type prints -/

/-- `type` on the path prints `d`. -/
def Types (super : FatSuper) (s : Session) (path d : Bytes) : Prop :=
  dumpFile super path s = .ok () { s with cout := s.cout ++ d }

theorem Types.unique {path d d' : Bytes} (h : Types super s path d) (h' : Types super s path d') :
    d = d' := by
  unfold Types at h h'
  rw [h] at h'
  have hout := congrArg Session.cout (EStateM.Result.ok.inj h').2
  exact List.append_cancel_left hout

/-- The bytes of a file: those of its chain, up to its size. -/
theorem dumpLoop_chain (hs : s.Ok super) {e : DirEntry} {r : FatDirent} {l : List Nat}
    (hsize : e.size = r.size) (hcluster : e.firstCluster = r.clusterIndex)
    (hent : (memView super s).EntryChain r l) :
    dumpLoop super (e.size + 1) (.new e.firstCluster e.size) s =
      .ok () { s with cout := s.cout ++ ((memView super s).content l).take e.size } := by
  have hdel : Delivers super s (.new e.firstCluster e.size)
      (((memView super s).content l).take e.size) := by
    rcases hent with ⟨hch, hne, -⟩ | ⟨-, hzero, -, rfl⟩
    · rw [hcluster]
      exact .new hch hne
    · rw [hsize, hzero]
      exact .done rfl
  apply dumpLoop_spec hs hdel
  have hle := List.length_take_le e.size ((memView super s).content l)
  omega

/-- `type` prints the file that the path leads to. -/
theorem types_of_find (hs : s.Ok super) {path : Bytes} {e : DirEntry} {r : FatDirent}
    {l : List Nat} (hfind : findFile super s path = .ok e) (hfile : e.isDirectory = false)
    (hsize : e.size = r.size) (hcluster : e.firstCluster = r.clusterIndex)
    (hent : (memView super s).EntryChain r l) :
    Types super s path (((memView super s).content l).take e.size) := by
  unfold Types dumpFile
  apply bind_eq_ok.mpr
  refine ⟨e, s, reading_eq_ok.mpr ⟨hfind, rfl⟩, ?_⟩
  rw [if_neg (by simp [hfile])]
  exact dumpLoop_chain hs hsize hcluster hent

/-- A path on which `type` prints something leads to a file. -/
theorem Types.find {path d : Bytes} (h : Types super s path d) :
    ∃ e, findFile super s path = .ok e ∧ e.isDirectory = false := by
  unfold Types dumpFile at h
  obtain ⟨e, s₁, hread, h⟩ := bind_eq_ok.mp h
  split at h
  · cases h
  · next hfile =>
    exact ⟨e, (reading_eq_ok.mp hread).1, by simpa using hfile⟩

/-! ## Section 2: Other files and directories -/

section Grew

variable {P : Nat} {lP lP' lr : List Nat} {r : FatDirent} {new : DirEntry}

/-- The file that a path leads to, and its chain. -/
theorem located_chain (hwf : (memView super s).WellFormed) {e : DirEntry}
    (hloc : Located super s e) (hfile : e.isDirectory = false) :
    ∃ r l, e.size = r.size ∧ e.firstCluster = r.clusterIndex ∧
      (memView super s).EntryChain r l ∧ (∃ k, (memView super s).Owns k l) ∧
      ∀ {c p lc}, (memView super s).IsDir c p → (memView super s).Chain c lc → l.Disjoint lc := by
  rcases hloc with ⟨hdir, -⟩ | ⟨-, c, p, l, r, hdir, hch, hr, hdot, hr', hsize, hcluster⟩
  · rw [hfile] at hdir
    cases hdir
  · obtain ⟨lr, hent⟩ := hwf.entries hdir hch hr hdot
    obtain ⟨i, hown⟩ := Vol.Owns.of_mem hdir hch hr hdot hent
    refine ⟨r, lr, hsize, hcluster, hent, ⟨_, hown⟩, ?_⟩
    intro c' p' lc hdir' hch'
    exact hwf.toSound.file_disjoint hdir hdir' hch hch' hr hdot hr' hent

/-- What is printed depends on the volume only. -/
theorem Types.view (hs : s.Ok super) (hs' : s'.Ok super) (hwf : (memView super s).WellFormed)
    (hview : memView super s' = memView super s) {path d : Bytes} (h : Types super s path d) :
    Types super s' path d := by
  obtain ⟨e, hfind, hfile⟩ := h.find
  obtain ⟨r, l, hsize, hcluster, hent, -, -⟩ :=
    located_chain hwf (findFile_located hs hwf hfind) hfile
  have hd := h.unique (types_of_find hs hfind hfile hsize hcluster hent)
  have hfind' : findFile super s' path = .ok e :=
    findLoop_view hs hs' hwf hview located_root hfind
  rw [← hview] at hent hd
  rw [hd]
  exact types_of_find hs' hfind' hfile hsize hcluster hent

/-- A file is printed as before. -/
theorem Types.grew (hs : s.Ok super) (hs' : s'.Ok super) (hwf : (memView super s).WellFormed)
    (hsane : (memView super s').Sane)
    (hg : Vol.Grew (memView super s) (memView super s') P lP lP' r lr)
    (hnew : makeEntry r [] = .ok new) {path d : Bytes} (h : Types super s path d) :
    Types super s' path d := by
  obtain ⟨e, hfind, hfile⟩ := h.find
  obtain ⟨re, l, hsize, hcluster, hent, ⟨k, hown⟩, hdisj⟩ :=
    located_chain hwf (findFile_located hs hwf hfind) hfile
  have hd := h.unique (types_of_find hs hfind hfile hsize hcluster hent)
  have hfind' : findFile super s' path = .ok e :=
    findLoop_grew hs hs' hwf hsane hg hnew located_root hfind
  obtain ⟨p, hP⟩ := hg.dir
  -- the chain of the file is not the one of the directory that grows
  obtain ⟨l', hent', hcases⟩ := hg.entryChain hwf.toSound hown hent
  have hl' : l' = l := by
    rcases hcases with ⟨rfl, -⟩ | ⟨-, rfl⟩
    · have hmem := hg.head_mem hwf.toSound
      exact absurd hmem fun hx => hdisj hP hg.chain hx hx
    · rfl
  subst hl'
  have hcont : (memView super s').content l' = (memView super s).content l' := by
    apply Vol.content_congr
    intro x hx
    exact (hg.frame x (hdisj hP hg.chain hx) (hent.used hx)).2
  rw [hd, ← hcont]
  exact types_of_find hs' hfind' hfile hsize hcluster hent'

/-- The entries of the directory that a path leads to. -/
theorem listEntries_eq {path : Bytes} {e : DirEntry} (hfind : findFile super s path = .ok e)
    (hdir : e.isDirectory = true) :
    listEntries super s path = (scanDirectory super s (dirReader e.firstCluster)).map Prod.fst := by
  unfold listEntries
  rw [hfind]
  dsimp only [bind, Except.bind]
  rw [if_neg (by simp [hdir])]
  cases scanDirectory super s (dirReader e.firstCluster) with
  | error f => rfl
  | ok it => rfl

/-- Every other directory is listed as before. -/
theorem listEntries_other (hs : s.Ok super) (hs' : s'.Ok super)
    (hwf : (memView super s).WellFormed) (hsane : (memView super s').Sane)
    (hg : Vol.Grew (memView super s) (memView super s') P lP lP' r lr)
    (hnew : makeEntry r [] = .ok new) {path : Bytes} {e : DirEntry}
    (hfind : findFile super s path = .ok e) (hdir : e.isDirectory = true)
    (hne : e.firstCluster ≠ P) : listEntries super s' path = listEntries super s path := by
  have hfind' : findFile super s' path = .ok e :=
    findLoop_grew hs hs' hwf hsane hg hnew located_root hfind
  obtain ⟨p, hp⟩ := (findFile_located hs hwf hfind).isDir hdir
  rw [listEntries_eq hfind hdir, listEntries_eq hfind' hdir,
    scan_grew_other hs hs' hwf hsane hg hp hne]

/-- The directory that grows has one entry more, the last one. -/
theorem listEntries_self (hs : s.Ok super) (hs' : s'.Ok super)
    (hwf : (memView super s).WellFormed) (hsane : (memView super s').Sane)
    (hg : Vol.Grew (memView super s) (memView super s') P lP lP' r lr)
    (hnew : makeEntry r [] = .ok new) {es : List DirEntry} {size : Nat}
    (hscan : scanDirectory super s (dirReader P) = .ok (es, size)) {path : Bytes} {e : DirEntry}
    (hfind : findFile super s path = .ok e) (hdir : e.isDirectory = true)
    (heq : e.firstCluster = P) :
    listEntries super s path = .ok es ∧ listEntries super s' path = .ok (es ++ [new]) := by
  have hfind' : findFile super s' path = .ok e :=
    findLoop_grew hs hs' hwf hsane hg hnew located_root hfind
  rw [listEntries_eq hfind hdir, listEntries_eq hfind' hdir, heq, hscan,
    scan_grew_self hs hs' hwf hsane hg hnew hscan]
  exact ⟨rfl, rfl⟩

/-- The path of the new record leads to it. -/
theorem findFile_new (hs : s.Ok super) (hs' : s'.Ok super) (hwf : (memView super s).WellFormed)
    (hsane : (memView super s').Sane)
    (hg : Vol.Grew (memView super s) (memView super s') P lP lP' r lr)
    (hnew : makeEntry r [] = .ok new) {path name : Bytes} {parent : DirEntry} {size : Nat}
    (hlast : (splitPath path).getLast? = some name) (hname : new.shortName = name)
    (hloc : locate super s (splitPath path) name = .ok (parent, size))
    (hP : parent.firstCluster = P) : findFile super s' path = .ok new := by
  obtain ⟨hparent, es, hscan, hfresh⟩ := locate_ok.mp hloc
  obtain ⟨hdir, hfind⟩ := findParent_ok (splitPath_component path) hparent
  rw [hP] at hscan
  have hscan' := scan_grew_self hs hs' hwf hsane hg hnew hscan
  have hfind' := findLoop_grew hs hs' hwf hsane hg hnew located_root (hfind path)
  -- no old entry has the name
  have hfirst : (es ++ [new]).find? (fun it => it.longName == name || it.shortName == name) =
      some new := by
    have hnone : es.find? (fun it => it.longName == name || it.shortName == name) = none := by
      apply List.find?_eq_none.mpr
      intro it hit
      have hno := List.any_eq_false.mp hfresh it hit
      rwa [Bool.or_comm]
    rw [List.find?_append, hnone, Option.none_or, List.find?_cons_of_pos (by simp [hname])]
  have hlastStep : findLoop super s' path [name] parent = .ok new := by
    refine findLoop_cons.mpr ⟨hdir, es ++ [new], size + sizeof, new, ?_, hfirst, rfl⟩
    rw [hP]
    exact hscan'
  have hsplit : splitPath path = (splitPath path).dropLast ++ [name] := by
    have hne : splitPath path ≠ [] := by
      intro hnil
      rw [hnil] at hlast
      cases hlast
    rw [List.getLast?_eq_some_getLast hne] at hlast
    rw [← Option.some.inj hlast, List.dropLast_append_getLast hne]
  rw [findFile, hsplit]
  exact findLoop_append hfind' hlastStep

end Grew

/-! ## Section 3: pack -/

/-- A `pack` that comes to its end has packed a file. -/
theorem packDirectory_ok (hs : s.Sound super) {host : Host} {args input target name : Bytes}
    (hargs : splitPackArgs args = some (input, target))
    (hlast : (splitPath target).getLast? = some name)
    (h : packDirectory super host args s = .ok () s') :
    ∃ parent size lP contents, host (cstr input) = some (contents, false) ∧
      isShortName name = true ∧ locate super s (splitPath target) name = .ok (parent, size) ∧
      Target super s parent.firstCluster size lP ∧ contents.length < 2 ^ 32 ∧
      Added super s parent.firstCluster lP
        (fun x => entryRecord false name x contents.length) (fun _ => contents) s' := by
  rcases (packDirectory_spec hs.toOk hs.wellFormed host args).of_ok h with ⟨hidle, -⟩ | hpacks
  · rw [hidle input target hargs] at hlast
    cases hlast
  · obtain ⟨target', name', parent, size, lP, contents, ⟨input', hargs', hhost⟩, hlast', hshort,
      hloc, hlen, ht, hadded⟩ := hpacks
    rw [hargs] at hargs'
    obtain ⟨rfl, rfl⟩ := Prod.mk.inj (Option.some.inj hargs')
    rw [hlast] at hlast'
    obtain rfl := Option.some.inj hlast'
    exact ⟨parent, size, lP, contents, hhost, hshort, hloc, ht, hlen, hadded⟩

/-- The entry that is listed for a new record. -/
theorem makeEntry_entryRecord {isDir : Bool} {name : Bytes} {first size : Nat}
    (hshort : isShortName name = true) (h0 : 0 ∉ name) (hblank : 0x20 ∉ name)
    (hfirst : first < 2 ^ 32) (hsize : size < 2 ^ 32) :
    makeEntry (entryRecord isDir name first size) [] = .ok {
      shortName := name
      longName := name
      size := if isDir then 0 else size
      firstCluster := first
      isDirectory := isDir } := by
  rw [makeEntry_plain (nameToString_entryRecord isDir hshort h0 hblank), cstr_of_notMem h0,
    size_entryRecord _ _ hsize, clusterIndex_entryRecord _ _ hfirst, isDirectory_entryRecord]

/-- Between `s` and `s'` the file `target` came into the directory with the
    entry `parent`, and nothing else can be seen to have changed. -/
structure PackedOnly (super : FatSuper) (s s' : Session) (target contents : Bytes)
    (parent new : DirEntry) : Prop where
  types : Types super s' target contents
  /-- Every file that could be printed is printed as before. -/
  files : ∀ path d, Types super s path d → Types super s' path d
  elsewhere : ∀ path e, findFile super s path = .ok e → e.isDirectory = true →
    e.firstCluster ≠ parent.firstCluster → listEntries super s' path = listEntries super s path
  here : ∀ path e, findFile super s path = .ok e → e.isDirectory = true →
    e.firstCluster = parent.firstCluster →
      ∃ es, listEntries super s path = .ok es ∧ listEntries super s' path = .ok (es ++ [new])

theorem packedOnly (hs : s.Sound super) {host : Host} {args input target name : Bytes}
    (hargs : splitPackArgs args = some (input, target))
    (hlast : (splitPath target).getLast? = some name) (h0 : 0 ∉ name) (hblank : 0x20 ∉ name)
    (h : packDirectory super host args s = .ok () s') :
    ∃ contents parent new, host (cstr input) = some (contents, false) ∧
      findParent super s (splitPath target) = .ok parent ∧ new.shortName = name ∧
      new.longName = name ∧ new.size = contents.length ∧ new.isDirectory = false ∧
      PackedOnly super s s' target contents parent new := by
  have hwf := hs.wellFormed
  obtain ⟨parent, size, lP, contents, hhost, hshort, hloc, ht, hlen, hadded⟩ :=
    packDirectory_ok hs hargs hlast h
  have hs' : s'.Ok super := hs.toOk.kept hadded.1
  obtain ⟨first, lP', lr, hfirst, hsane, hg, hbytes, -⟩ := hadded.grew hs.toOk hwf ht
  have hnew : makeEntry (entryRecord false name first contents.length) [] =
      .ok ⟨name, name, contents.length, first, false⟩ :=
    makeEntry_entryRecord hshort h0 hblank hfirst hlen
  obtain ⟨hparent, es, hscan, -⟩ := locate_ok.mp hloc
  refine ⟨contents, parent, ⟨name, name, contents.length, first, false⟩, hhost, hparent, rfl, rfl,
    rfl, rfl, ?_, ?_, ?_, ?_⟩
  · -- the new entry is found, and its bytes are the host's
    have hfind := findFile_new hs.toOk hs' hwf hsane hg hnew hlast rfl hloc rfl
    have hsize : contents.length = (entryRecord false name first contents.length).size := by
      rw [size_entryRecord _ _ hlen]
      rfl
    have htypes := types_of_find hs' hfind rfl hsize
      (clusterIndex_entryRecord _ _ hfirst).symm hg.entry
    rwa [← hbytes]
  · -- frame: every other file, and every other directory
    intro path d hd
    exact hd.grew hs.toOk hs' hwf hsane hg hnew
  · intro path e hfind hdir hne
    exact listEntries_other hs.toOk hs' hwf hsane hg hnew hfind hdir hne
  · intro path e hfind hdir heq
    exact ⟨es, listEntries_self hs.toOk hs' hwf hsane hg hnew hscan hfind hdir heq⟩

/-- **pack, then type**: in any session on a well-formed image, a `pack` that
    comes to its end puts a file with exactly the bytes of the input into the
    directory, as its last entry, and disturbs nothing else. -/
theorem pack_then_type {image : ByteVec} {s₀ : Session} {lines : List (Bytes × Host)}
    {host : Host} {args input target name : Bytes}
    (hl : Layout (imageSuper image) image.size)
    (hwf : (diskView (imageSuper image) image).WellFormed)
    (hstart : start image = .ok (super, s₀)) (hlines : runLines super lines s₀ = .ok () s)
    (hargs : splitPackArgs args = some (input, target))
    (hlast : (splitPath target).getLast? = some name) (h0 : 0 ∉ name) (hblank : 0x20 ∉ name)
    (h : packDirectory super host args s = .ok () s') :
    ∃ contents parent new, host (cstr input) = some (contents, false) ∧
      findParent super s (splitPath target) = .ok parent ∧ new.shortName = name ∧
      new.longName = name ∧ new.size = contents.length ∧ new.isDirectory = false ∧
      PackedOnly super s s' target contents parent new := by
  obtain ⟨rfl, hstarted, -, hview⟩ := start_ok hl hstart
  rw [← hview] at hwf
  have hsound := runLines_sound ⟨hstarted.toOk, hwf⟩ hlines
  exact packedOnly hsound hargs hlast h0 hblank h

/-- Two bytes, whatever the path. -/
def twoBytes : Host := fun _ => some ([0x41, 0x42], false)

theorem pack_then_type_fresh :
    ∃ super s s' parent new, start freshImage = .ok (super, s) ∧
      packDirectory super twoBytes (lit "input FILE.TXT") s = .ok () s' ∧
      PackedOnly super s s' (lit "FILE.TXT") [0x41, 0x42] parent new := by
  have hend : ((start freshImage).toOption.any fun it =>
      (result (packDirectory it.1 twoBytes (lit "input FILE.TXT") it.2)).isSome) = true := by
    decide +kernel
  obtain ⟨⟨super, s⟩, hopened, hend⟩ := (Option.any_eq_true _ _).mp hend
  obtain ⟨⟨_, s'⟩, hresult⟩ := Option.isSome_iff_exists.mp hend
  have hstart := toOption_eq_some.mp hopened
  have hpack := result_eq_some.mp hresult
  obtain ⟨contents, parent, new, hhost, -, -, -, -, -, hpacked⟩ :=
    pack_then_type freshImage_layout freshImage_fresh.wellFormed hstart
      (show runLines super [] s = .ok () s from rfl)
      (show _ = some (lit "input", lit "FILE.TXT") by decide)
      (show _ = some (lit "FILE.TXT") by decide) (by decide) (by decide) hpack
  obtain ⟨rfl, -⟩ := Prod.mk.inj (Option.some.inj hhost)
  exact ⟨super, s, s', parent, new, hstart, hpack, hpacked⟩

end Hausboot.FatEdit

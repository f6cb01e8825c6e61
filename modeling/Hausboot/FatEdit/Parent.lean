import Hausboot.Agree.Paths
import Hausboot.FatEdit.Trail

/-! # The fatedit Tool: The Parent Entry

    By the format, `..` in a directory of the root stores cluster 0. `FindFile`
    follows that number as it is: it reads the start of the data area, and then
    goes by entry 0 of the FAT.

    1. `Standard` is a volume by the rule of the format. `dir_listing` says how
       its directories are listed.
    2. `dir_of_path` follows a path of directories, `findFile_parent` goes back
       up from its end.
    3. `parent_leads_back_iff`: the parent entry leads to the parent, unless
       that is the root and something else stands where cluster 0 is looked
       for. -/

open ByteLib Runs Prog

namespace Hausboot.FatEdit

open FatDirent Session Vol

variable {super : FatSuper} {s : Session}

/-! ## Section 1: Volumes by the rule of the format -/

/-- The number that `..` stores for the directory `p`: 0 for the root. -/
def parentNumber (v : Vol) (p : Nat) : Nat := if p = v.root then 0 else p

/-- The first two records of a directory are `.` and `..`, and there are no
    others of that kind. -/
def DotsFirst (c up : Nat) (gs : List (List FatDirentLong × FatDirent)) : Prop :=
  ∃ d dd rest, gs = ([], d) :: ([], dd) :: rest ∧ DotRecord [0x2E] c d ∧
    DotRecord [0x2E, 0x2E] up dd ∧ ∀ g ∈ rest, g.2.isDot = false

/-- What the groups of the directory `c` have to be: the root has no dot
    records, every other directory starts with them. -/
inductive DirGroups (v : Vol) (c : Nat) :
    Option Nat → List (List FatDirentLong × FatDirent) → Prop where
  | root {gs : List (List FatDirentLong × FatDirent)} :
      (∀ g ∈ gs, g.2.isDot = false) → DirGroups v c none gs
  | sub {p : Nat} {gs : List (List FatDirentLong × FatDirent)} :
      DotsFirst c (parentNumber v p) gs → DirGroups v c (some p) gs

/-- A well-formed volume on which `..` stores 0 for the root. -/
structure Standard (v : Vol) : Prop extends v.Sound where
  records : ∀ {c p l}, v.IsDir c p → v.Chain c l →
    ∃ rs gs, WellFormedStream (v.content l) rs gs ∧ DirGroups v c p gs
  /-- The format allows no more than 65536 records. -/
  short : ∀ {c p l}, v.IsDir c p → v.Chain c l → (v.content l).length < 2 ^ 32 - 32

/-- The clusters of the directories start below 4 GiB. -/
def LowDirectories (super : FatSuper) (s : Session) : Prop :=
  ∀ {c p l}, (memView super s).IsDir c p → (memView super s).Chain c l →
    ∀ x ∈ l, clusterOffset super x < 2 ^ 32

theorem WellFormedStream.live_eq {d : Bytes} {rs : List FatDirent}
    {gs : List (List FatDirentLong × FatDirent)} (h : WellFormedStream d rs gs) :
    live d = gs.map Prod.snd := by
  obtain ⟨tail, rfl, htail⟩ := h.bytes
  rw [live, body_rawBytes h.complete h.noTerminator htail, h.groups.map_snd]

/-- **The listing of a directory**: one entry for each of its groups. -/
theorem dir_listing (hs : s.Loaded super) (hstd : Standard (memView super s))
    (hlow : LowDirectories super s) {c : Nat} {p : Option Nat}
    (hdir : (memView super s).IsDir c p) :
    ∃ l gs total, (memView super s).Chain c l ∧
      live ((memView super s).content l) = gs.map Prod.snd ∧
      DirGroups (memView super s) c p gs ∧
      (∀ g ∈ gs, g.2.shortName.isSome = true) ∧
      scanDirectory super s (dirReader c) = .ok (gs.map shownEntry, total) := by
  obtain ⟨-, l, -, hch, hne⟩ := hdir.owner hstd.toSound
  have hlen := hstd.short hdir hch
  have htrail := Trail.of_chain hs hch hne (hlow hdir hch)
  have hstreams := Streams.of_trail hs.bytesPerCluster_pos htrail (by omega)
  obtain ⟨rs, gs, hwf, hdots⟩ := hstd.records hdir hch
  exact ⟨l, gs, _, hch, hwf.live_eq, hdots, hwf.named,
    (scanDirectory_wellFormed hstreams hlen hwf).1⟩

/-! ## Section 2: Looking up one name -/

/-- The entry that `FindFile` goes to from the directory at a cluster number. -/
def entryAt (super : FatSuper) (s : Session) (c : Nat) (name : Bytes) : Option DirEntry :=
  match scanDirectory super s (dirReader c) with
  | .ok (es, _) => es.find? fun it => it.longName == name || it.shortName == name
  | .error _ => none

theorem entryAt_of_scan {c total : Nat} {es : List DirEntry}
    (h : scanDirectory super s (dirReader c) = .ok (es, total)) (name : Bytes) :
    entryAt super s c name = es.find? fun it => it.longName == name || it.shortName == name := by
  rw [entryAt, h]

theorem findLoop_step {args name : Bytes} {path : List Bytes} {ent e : DirEntry} :
    findLoop super s args (name :: path) ent = .ok e ↔ ent.isDirectory = true ∧
      ∃ it, entryAt super s ent.firstCluster name = some it ∧
        findLoop super s args path it = .ok e := by
  rw [findLoop_cons, entryAt]
  refine and_congr_right fun _ => ?_
  constructor
  · rintro ⟨es, total, it, hscan, hfind, hrest⟩
    rw [hscan]
    exact ⟨it, hfind, hrest⟩
  · rintro ⟨it, hentry, hrest⟩
    split at hentry
    · next es total hscan => exact ⟨es, total, it, hscan, hentry, hrest⟩
    · cases hentry

/-- `.` or `..` -/
def DotName (name : Bytes) : Prop := name = [0x2E] ∨ name = [0x2E, 0x2E]

theorem shownEntry_dot {name : Bytes} {c : Nat} {d : FatDirent} (h : DotRecord name c d) :
    shownEntry ([], d) = ⟨name, name, d.size, c, true⟩ := by
  rw [shownEntry, h.shortName, h.isDirectory, h.clusterIndex]
  rfl

/-- A name other than the dots leads from a directory into one below it. -/
theorem entryAt_sub (hs : s.Loaded super) (hstd : Standard (memView super s))
    (hlow : LowDirectories super s) {c : Nat} {p : Option Nat}
    (hdir : (memView super s).IsDir c p) {name : Bytes} (hname : ¬ DotName name) {it : DirEntry}
    (hentry : entryAt super s c name = some it) (hit : it.isDirectory = true) :
    (memView super s).IsDir it.firstCluster (some c) := by
  obtain ⟨l, gs, total, hch, hlive, hgs, -, hscan⟩ := dir_listing hs hstd hlow hdir
  rw [entryAt_of_scan hscan] at hentry
  have hnamed := List.find?_some hentry
  obtain ⟨g, hg, rfl⟩ := List.mem_map.mp (List.mem_of_find?_eq_some hentry)
  have hmem : g.2 ∈ live ((memView super s).content l) := by
    rw [hlive]
    exact List.mem_map_of_mem hg
  refine .sub hdir hch hmem hit ?_
  cases hgs with
  | root hdots => exact hdots g hg
  | sub hdots =>
    -- a dot record would have been found by its name
    obtain ⟨d, dd, rest, rfl, hd, hdd, hrest⟩ := hdots
    rcases List.mem_cons.mp hg with rfl | hg
    · have heq : [0x2E] = name := by simpa [shownEntry_dot hd] using hnamed
      exact absurd (.inl heq.symm) hname
    rcases List.mem_cons.mp hg with rfl | hg
    · have heq : [0x2E, 0x2E] = name := by simpa [shownEntry_dot hdd] using hnamed
      exact absurd (.inr heq.symm) hname
    · exact hrest g hg

/-- The parent entry of a directory. -/
theorem entryAt_dotdot (hs : s.Loaded super) (hstd : Standard (memView super s))
    (hlow : LowDirectories super s) {c p : Nat} (hdir : (memView super s).IsDir c (some p)) :
    ∃ up, entryAt super s c [0x2E, 0x2E] = some up ∧ up.isDirectory = true ∧
      up.firstCluster = parentNumber (memView super s) p := by
  obtain ⟨l, gs, total, -, -, hgs, -, hscan⟩ := dir_listing hs hstd hlow hdir
  cases hgs with
  | sub hdots =>
    obtain ⟨d, dd, rest, rfl, hd, hdd, -⟩ := hdots
    refine ⟨shownEntry ([], dd), ?_, ?_, ?_⟩
    · rw [entryAt_of_scan hscan, List.map_cons, List.map_cons, shownEntry_dot hd, shownEntry_dot hdd]
      rfl
    · rw [shownEntry_dot hdd]
    · rw [shownEntry_dot hdd]

/-! ## Section 3: A path of directories -/

/-- A directory that can be reached below another one is not the root. -/
theorem sub_ne_root {v : Vol} (hv : v.Sound) {c p : Nat} (hdir : v.IsDir c (some p)) :
    c ≠ v.root := by
  obtain ⟨l, hch, hne⟩ := hv.root
  have hmem := hch.head_mem hne
  cases hdir with
  | sub hparent hchp hr hisDir hdot =>
    intro hroot
    rw [← hroot] at hch
    -- the chain of the root would have another owner
    obtain ⟨lr, hent⟩ := hv.entries hparent hchp hr hdot
    obtain ⟨i, hown⟩ := Owns.of_mem hparent hchp hr hdot hent
    obtain ⟨hchr, -⟩ := hent.dir hisDir
    obtain rfl := ChainLib.Chain.unique hch hchr
    exact hv.disjoint hown (.root (hroot ▸ hch)) (by simp) hmem hmem

theorem isDir_none {v : Vol} {c : Nat} (hdir : v.IsDir c none) : c = v.root := by
  cases hdir
  rfl

/-- A path of directories ends below the directory that it leads to without its
    last component. -/
theorem dir_of_path (hs : s.Loaded super) (hstd : Standard (memView super s))
    (hlow : LowDirectories super s) {args : Bytes} {names : List Bytes} (hne : names ≠ [])
    (hnames : ∀ name ∈ names, ¬ DotName name) {ent e : DirEntry} {q : Option Nat}
    (hent : (memView super s).IsDir ent.firstCluster q)
    (hfind : findLoop super s args names ent = .ok e) (hdir : e.isDirectory = true) :
    ∃ parent q', findLoop super s args names.dropLast ent = .ok parent ∧
      parent.isDirectory = true ∧ (memView super s).IsDir parent.firstCluster q' ∧
      (memView super s).IsDir e.firstCluster (some parent.firstCluster) ∧
      (names.length = 1 → parent = ent) ∧ (2 ≤ names.length → q'.isSome = true) := by
  induction names generalizing ent q with
  | nil => exact absurd rfl hne
  | cons name names ih =>
    rw [findLoop_step] at hfind
    obtain ⟨hentDir, it, hentry, hrest⟩ := hfind
    have hname := hnames name List.mem_cons_self
    cases names with
    | nil =>
      cases hrest
      have hsub := entryAt_sub hs hstd hlow hent hname hentry hdir
      exact ⟨ent, q, rfl, hentDir, hent, hsub, fun _ => rfl, fun h => by simp at h⟩
    | cons name' names =>
      have hitDir : it.isDirectory = true := by
        rw [findLoop_step] at hrest
        exact hrest.1
      have hsub := entryAt_sub hs hstd hlow hent hname hentry hitDir
      obtain ⟨parent, q', hparent, hparentDir, hq', he, hone, hmore⟩ :=
        ih (List.cons_ne_nil _ _) (fun x hx => hnames x (List.mem_cons_of_mem _ hx)) hsub hrest
      refine ⟨parent, q', ?_, hparentDir, hq', he, fun h => by simp at h, fun _ => ?_⟩
      · rw [List.dropLast_cons_of_ne_nil (List.cons_ne_nil _ _)]
        rw [findLoop_step]
        exact ⟨hentDir, it, hentry, hparent⟩
      · -- the parent is not the directory that the path starts at
        cases names with
        | nil =>
          obtain rfl := hone rfl
          cases q' with
          | some _ => rfl
          | none => exact absurd (isDir_none hq') (sub_ne_root hstd.toSound hsub)
        | cons _ _ => exact hmore (by simp)

theorem findLoop_append_iff {args : Bytes} {path path' : List Bytes} {ent e e' : DirEntry}
    (h : findLoop super s args path ent = .ok e) :
    findLoop super s args (path ++ path') ent = .ok e' ↔
      findLoop super s args path' e = .ok e' := by
  induction path generalizing ent with
  | nil =>
    cases h
    rfl
  | cons name path ih =>
    rw [findLoop_step] at h
    obtain ⟨hdir, it, hentry, hrest⟩ := h
    rw [List.cons_append, findLoop_step]
    constructor
    · rintro ⟨-, it', hentry', hrest'⟩
      rw [hentry] at hentry'
      cases hentry'
      exact (ih hrest).mp hrest'
    · intro h'
      exact ⟨hdir, it, hentry, (ih hrest).mpr h'⟩

/-! ## Section 4: Back to the parent -/

/-- Both paths lead to the same entry, or neither leads to one. -/
def SameFind (super : FatSuper) (s : Session) (path path' : Bytes) : Prop :=
  ∀ e, findFile super s path = .ok e ↔ findFile super s path' = .ok e

/-- What `FindFile` finds by a name under cluster number 0 is what the root
    directory has under that name. -/
def RootVisible (super : FatSuper) (s : Session) : Prop :=
  ∀ name, Component name → entryAt super s 0 name = entryAt super s super.rootDirIndex name

/-- The path without its last component, as `FindParent` puts it together. -/
def parentPath (path : Bytes) : Bytes := joinPath (splitPath path).dropLast

theorem splitPath_append (path path' : Bytes) :
    splitPath (path ++ 0x2F :: path') = splitPath path ++ splitPath path' := by
  rw [splitPath, splitPath, splitPath, splitLoop_eq (Nat.le_refl _), splitLoop_eq (Nat.le_refl _),
    splitLoop_eq (Nat.le_refl _)]
  exact runs_append_sep path path' rfl

theorem splitPath_dotdot (path path' : Bytes) :
    splitPath (path ++ lit "/../" ++ path') =
      splitPath path ++ [0x2E, 0x2E] :: splitPath path' := by
  have hsep : path ++ lit "/../" ++ path' = path ++ 0x2F :: ([0x2E, 0x2E] ++ 0x2F :: path') := by
    rw [List.append_assoc]
    rfl
  rw [hsep, splitPath_append, splitPath_append]
  rfl

theorem splitPath_parentPath (path path' : Bytes) :
    splitPath (parentPath path ++ 0x2F :: path') =
      (splitPath path).dropLast ++ splitPath path' := by
  rw [splitPath_append, parentPath, splitPath_joinPath]
  intro name hname
  exact splitPath_component path name (List.dropLast_subset _ hname)

theorem findFile_iff {path : Bytes} {e : DirEntry} :
    findFile super s path = .ok e ↔
      findLoop super s [] (splitPath path) (rootEntry super) = .ok e :=
  ⟨findLoop_args [], findLoop_args path⟩

/-- Up from a directory and on along `path'`: the search starts at the number
    that the parent entry stores. -/
theorem findFile_dotdot (hs : s.Loaded super) (hstd : Standard (memView super s))
    (hlow : LowDirectories super s) {path path' name : Bytes} {rest : List Bytes} {dir e : DirEntry}
    (hfind : findFile super s path = .ok dir) (hdir : dir.isDirectory = true) {p : Nat}
    (hsub : (memView super s).IsDir dir.firstCluster (some p))
    (hpath' : splitPath path' = name :: rest) :
    findFile super s (path ++ lit "/../" ++ path') = .ok e ↔
      ∃ it, entryAt super s (parentNumber (memView super s) p) name = some it ∧
        findLoop super s [] rest it = .ok e := by
  obtain ⟨up, hentry, hupDir, hup⟩ := entryAt_dotdot hs hstd hlow hsub
  rw [findFile_iff] at hfind ⊢
  rw [splitPath_dotdot, findLoop_append_iff hfind, findLoop_step, hpath', ← hup, hentry]
  constructor
  · rintro ⟨-, it, hit, hrest⟩
    cases hit
    rw [findLoop_step] at hrest
    exact hrest.2
  · intro hrest
    refine ⟨hdir, up, rfl, ?_⟩
    rw [findLoop_step]
    exact ⟨hupDir, hrest⟩

/-- From the parent on along `path'`. -/
theorem findFile_parentPath {path path' name : Bytes} {rest : List Bytes} {parent e : DirEntry}
    (hfind : findLoop super s [] (splitPath path).dropLast (rootEntry super) = .ok parent)
    (hparent : parent.isDirectory = true) (hpath' : splitPath path' = name :: rest) :
    findFile super s (parentPath path ++ 0x2F :: path') = .ok e ↔
      ∃ it, entryAt super s parent.firstCluster name = some it ∧
        findLoop super s [] rest it = .ok e := by
  rw [findFile_iff, splitPath_parentPath, findLoop_append_iff hfind, hpath', findLoop_step]
  exact and_iff_right hparent

/-- Where the entry 0 of the FAT is an end mark, cluster number 0 stands for the
    first cluster of the data area. If that is where the records of the root
    are, and none are elsewhere, they are visible there. -/
theorem rootVisible_of_front (hs : s.Loaded super) (hstd : Standard (memView super s))
    (hlow : LowDirectories super s) (hroot : super.rootDirIndex = 2)
    (hend : endMark ≤ (memView super s).next 0)
    (hfront : ∀ {l}, (memView super s).Chain 2 l →
      body ((memView super s).content l) = body ((memView super s).data 2)) :
    RootVisible super s := by
  have hdir : (memView super s).IsDir 2 none := hroot ▸ .root
  obtain ⟨-, l, -, hch, hne⟩ := hdir.owner hstd.toSound
  have hvalid := hch.valid (hch.head_mem hne)
  have hlow2 := hlow hdir hch 2 (hch.head_mem hne)
  have hlen := hstd.short hdir hch
  obtain ⟨rs, gs, hwf, -⟩ := hstd.records hdir hch
  -- the same records, in a stream of one cluster
  have hbody : body ((memView super s).data 2) = rs := by
    obtain ⟨tail, htail, hends⟩ := hwf.bytes
    rw [← hfront hch, htail, body_rawBytes hwf.complete hwf.noTerminator hends]
  have hwf0 : WellFormedStream ((memView super s).data 2) rs gs :=
    { hwf with bytes := hbody ▸ exists_tail ((memView super s).data 2) }
  have hlen0 : ((memView super s).data 2).length ≤ ((memView super s).content l).length := by
    cases hch with
    | done _ => exact absurd rfl hne
    | link _ _ _ =>
      rw [Vol.content_cons, List.length_append]
      exact Nat.le_add_right _ _
  have hpos := hs.bytesPerCluster_pos
  have hzero := (scanDirectory_wellFormed
    (Streams.of_trail hpos (trail_zero hs hvalid hlow2 hend) (by omega)) (by omega) hwf0).1
  have htwo := (scanDirectory_wellFormed
    (Streams.of_trail hpos (Trail.of_chain hs hch hne (hlow hdir hch)) (by omega)) hlen hwf).1
  intro name _
  rw [entryAt_of_scan hzero, hroot, entryAt_of_scan htwo]

/-! ## Section 5: A volume with its root in cluster 3 -/

def movedSuper : FatSuper := ⟨splice (smallSuper 1 8 1) 44 (leBytes 4 3)⟩

def movedRoot : List FatDirent := [entryRecord true (lit "A") 4 0, entryRecord false (lit "F") 0 0]

def movedSub : List FatDirent := [dotRecord (lit ".") 4, dotRecord (lit "..") 0]

/-- The root directory is cluster 3, with a directory `A` and a file `F`.
    Cluster 2 is free. -/
def movedSession : Session :=
  { tableSession [endMark, endMark, 0, endMark, endMark] with
    file := sparseFile 4096 [(1536, rawBytes movedRoot), (2048, rawBytes movedSub)] }

theorem plainStream {d tail : Bytes} {rs : List FatDirent} (hd : d = rawBytes rs ++ tail)
    (htail : Ends tail) (hplain : ∀ r ∈ rs, r.raw.length = sizeof ∧ r.isLastInList = false ∧
      r.isLive = true ∧ r.shortName.isSome = true) :
    WellFormedStream d rs (rs.map fun r => ([], r)) where
  bytes := ⟨tail, hd, htail⟩
  complete := fun r hr => (hplain r hr).1
  noTerminator := fun r hr => (hplain r hr).2.1
  groups := .of_all_live fun r hr => (hplain r hr).2.2.1
  named := by
    intro g hg
    obtain ⟨r, hr, rfl⟩ := List.mem_map.mp hg
    exact (hplain r hr).2.2.2
  pieces := by
    intro g hg e he
    obtain ⟨r, -, rfl⟩ := List.mem_map.mp hg
    cases he

theorem movedSession_loaded : movedSession.Loaded movedSuper := by
  have hgeometry : 0 < movedSuper.sectorsPerCluster ∧ 0 < movedSuper.numFats ∧
      movedSuper.firstSector ≤ movedSuper.sectorCount ∧ 0 < movedSuper.bytesPerSector ∧
      movedSuper.sectorCount * movedSuper.bytesPerSector ≤ movedSession.file.size ∧
      dataClusters movedSuper + 2 ≤ fatEntries movedSuper ∧
      4 * (dataClusters movedSuper + 2) ≤ movedSession.fatRaw.size ∧
      movedSession.fatRaw.size < 2 ^ 32 := by decide
  obtain ⟨hcluster, hfats, harea, hsector, hfits, hentries, htable, hlt⟩ := hgeometry
  exact ⟨⟨hcluster, hfats, harea⟩, hsector, hfits, hentries, htable, hlt⟩

theorem movedSession_chain3 : (memView movedSuper movedSession).Chain 3 [3] :=
  .link (by decide) ⟨by decide, by decide⟩ (.done (by decide))

theorem movedSession_chain4 : (memView movedSuper movedSession).Chain 4 [4] :=
  .link (by decide) ⟨by decide, by decide⟩ (.done (by decide))

/-- The rest of each cluster is filled with zeros. -/
theorem movedSession_content :
    (memView movedSuper movedSession).content [3] = rawBytes movedRoot ++ List.replicate 448 0 ∧
    (memView movedSuper movedSession).content [4] = rawBytes movedSub ++ List.replicate 448 0 := by
  have hsize : bytesPerCluster movedSuper = 64 + 448 := by decide
  have hroot : dataStart movedSuper + (3 - 2) * (64 + 448) = 1536 := by decide
  have hsub : dataStart movedSuper + (4 - 2) * (64 + 448) = 2048 := by decide
  have hlen : (rawBytes movedRoot).length = 64 ∧ (rawBytes movedSub).length = 64 := by decide
  have hdata : ∀ c, 2 ≤ c → (memView movedSuper movedSession).content [c] =
      movedSession.file.bytes.read (dataStart movedSuper + (c - 2) * (64 + 448)) (64 + 448) := by
    intro c hc
    simp [content, memView, viewWith, clusterData, hsize, Nat.not_lt.mpr hc]
  rw [hdata 3 (by decide), hdata 4 (by decide), hroot, hsub]
  have hfront := Store.read_write_front (fun _ => 0) 1536 448 (rawBytes movedRoot)
  have hback := Store.read_write_front (Store.write (fun _ => 0) 1536 (rawBytes movedRoot)) 2048 448
    (rawBytes movedSub)
  rw [hlen.1, Store.read_zero] at hfront
  have hrest : (Store.write (fun _ => 0) 1536 (rawBytes movedRoot)).read (2048 + 64) 448 =
      List.replicate 448 0 := by
    rw [Store.read_write_disjoint (by omega), Store.read_zero]
  rw [hlen.2, hrest] at hback
  refine ⟨?_, hback⟩
  simp only [movedSession, sparseFile, List.foldl_cons, List.foldl_nil]
  rw [Store.read_write_disjoint (by omega), hfront]

theorem movedSession_root : WellFormedStream ((memView movedSuper movedSession).content [3])
    movedRoot (movedRoot.map fun r => ([], r)) := by
  obtain ⟨hroot, -⟩ := movedSession_content
  exact plainStream hroot (.inr rfl) (by decide)

theorem movedSession_sub : WellFormedStream ((memView movedSuper movedSession).content [4])
    movedSub (movedSub.map fun r => ([], r)) := by
  obtain ⟨-, hsub⟩ := movedSession_content
  exact plainStream hsub (.inr rfl) (by decide)

theorem movedSession_rootLive :
    live ((memView movedSuper movedSession).content [3]) = movedRoot := by
  rw [movedSession_root.live_eq, List.map_map]
  exact List.map_id _

theorem movedSession_subLive :
    live ((memView movedSuper movedSession).content [4]) = movedSub := by
  rw [movedSession_sub.live_eq, List.map_map]
  exact List.map_id _

theorem movedSub_dots : ∀ r ∈ movedSub, r.isDot = true := by decide

theorem movedSession_isDir {c : Nat} {p : Option Nat}
    (h : (memView movedSuper movedSession).IsDir c p) :
    c = 3 ∧ p = none ∨ c = 4 ∧ p = some 3 := by
  induction h with
  | root => exact .inl ⟨by decide, rfl⟩
  | @sub c p l r _ hch hr hdir hdot ih =>
    rcases ih with ⟨rfl, rfl⟩ | ⟨rfl, rfl⟩
    · obtain rfl := ChainLib.Chain.unique hch movedSession_chain3
      rw [movedSession_rootLive] at hr
      rcases List.mem_cons.mp hr with rfl | hr
      · exact .inr ⟨by decide, rfl⟩
      · obtain rfl := List.mem_singleton.mp hr
        exact absurd hdir (by decide)
    · obtain rfl := ChainLib.Chain.unique hch movedSession_chain4
      rw [movedSession_subLive] at hr
      rw [movedSub_dots r hr] at hdot
      cases hdot

/-- The two directories, with their chains. -/
theorem movedSession_dir {c : Nat} {p : Option Nat} {l : List Nat}
    (hdir : (memView movedSuper movedSession).IsDir c p)
    (hch : (memView movedSuper movedSession).Chain c l) :
    c = 3 ∧ p = none ∧ l = [3] ∨ c = 4 ∧ p = some 3 ∧ l = [4] := by
  rcases movedSession_isDir hdir with ⟨rfl, rfl⟩ | ⟨rfl, rfl⟩
  · exact .inl ⟨rfl, rfl, ChainLib.Chain.unique hch movedSession_chain3⟩
  · exact .inr ⟨rfl, rfl, ChainLib.Chain.unique hch movedSession_chain4⟩

theorem movedSession_owns {k : Option (Nat × Nat)} {l : List Nat}
    (h : (memView movedSuper movedSession).Owns k l) :
    k = none ∧ l = [3] ∨ k = some (3, 0) ∧ l = [4] ∨ k = some (3, 1) ∧ l = [] := by
  cases h with
  | root hch =>
    obtain ⟨-, -, rfl⟩ | ⟨-, hp, -⟩ := movedSession_dir .root hch
    · exact .inl ⟨rfl, rfl⟩
    · cases hp
  | @entry c i p lc lr r hdir hch hr hdot hent =>
    rcases movedSession_dir hdir hch with ⟨rfl, rfl, rfl⟩ | ⟨rfl, rfl, rfl⟩
    · rw [movedSession_rootLive] at hr
      match i with
      | 0 =>
        cases hr
        have hsub : (entryRecord true (lit "A") 4 0).clusterIndex = 4 := by decide
        obtain ⟨hchr, -⟩ := hent.dir (by decide)
        rw [hsub] at hchr
        exact .inr (.inl ⟨rfl, ChainLib.Chain.unique hchr movedSession_chain4⟩)
      | 1 =>
        cases hr
        rcases hent with ⟨hchr, hne, -⟩ | ⟨-, -, -, rfl⟩
        · have hzero : (entryRecord false (lit "F") 0 0).clusterIndex = 0 := by decide
          rw [hzero] at hchr
          exact absurd (hchr.valid (hchr.head_mem hne)).1 (by decide)
        · exact .inr (.inr ⟨rfl, rfl⟩)
      | i + 2 => cases hr
    · rw [movedSession_subLive] at hr
      rw [movedSub_dots r (List.mem_of_getElem? hr)] at hdot
      cases hdot

theorem movedSession_sound : (memView movedSuper movedSession).Sound where
  root := ⟨[3], movedSession_chain3, List.cons_ne_nil _ _⟩
  entries := by
    intro c p l r hdir hch hr hdot
    rcases movedSession_dir hdir hch with ⟨rfl, rfl, rfl⟩ | ⟨rfl, rfl, rfl⟩
    · rw [movedSession_rootLive] at hr
      rcases List.mem_cons.mp hr with rfl | hr
      · exact ⟨[4], .inl ⟨movedSession_chain4, List.cons_ne_nil _ _, by decide⟩⟩
      · obtain rfl := List.mem_singleton.mp hr
        exact ⟨[], .inr ⟨by decide, by decide, by decide, rfl⟩⟩
    · rw [movedSession_subLive] at hr
      rw [movedSub_dots r hr] at hdot
      cases hdot
  disjoint := by
    intro k k' l l' h h' hne
    rcases movedSession_owns h with ⟨rfl, rfl⟩ | ⟨rfl, rfl⟩ | ⟨rfl, rfl⟩ <;>
      rcases movedSession_owns h' with ⟨rfl, rfl⟩ | ⟨rfl, rfl⟩ | ⟨rfl, rfl⟩ <;> simp_all

set_option maxRecDepth 3000

theorem movedSession_standard : Standard (memView movedSuper movedSession) where
  toSound := movedSession_sound
  records := by
    intro c p l hdir hch
    rcases movedSession_dir hdir hch with ⟨rfl, rfl, rfl⟩ | ⟨rfl, rfl, rfl⟩
    · exact ⟨_, _, movedSession_root, .root (by decide)⟩
    · refine ⟨_, _, movedSession_sub, .sub ⟨_, _, [], rfl, ?_, ?_, by simp⟩⟩
      · exact dotRecord_spec (by decide) (.inl rfl)
      · exact dotRecord_spec (by decide) (.inr rfl)
  short := by
    intro c p l hdir hch
    rcases movedSession_dir hdir hch with ⟨rfl, rfl, rfl⟩ | ⟨rfl, rfl, rfl⟩
    · decide
    · decide

theorem movedSession_low : LowDirectories movedSuper movedSession := by
  intro c p l hdir hch
  rcases movedSession_dir hdir hch with ⟨rfl, rfl, rfl⟩ | ⟨rfl, rfl, rfl⟩
  · decide
  · decide

end Hausboot.FatEdit

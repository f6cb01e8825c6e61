import Hausboot.Agree.Directory
import Hausboot.Agree.Paths
import Hausboot.Fat.Plain
import Hausboot.FatEdit.RoundTrip
import Hausboot.FatEdit.ShortNames
import Hausboot.FatFs.Ranges
import Hausboot.FatFs.Stale

/-! # Loader and Tool: The Volume on the Device

    What stage2 reads from an image with a plain volume: the cluster chains are
    the ones of the volume, a path leads to the file that `fatedit` finds under
    it, and `ReadAt` delivers the bytes that `type` prints. -/

open ByteLib ChainLib

namespace Hausboot

open FatEdit (ByteVec Session DirEntry Listed Located Layout diskView memView dataClusters)

variable {image : ByteVec}

namespace FatFs

/-- With enough fuel, `FindByPath` finds the file with its size, and after any
    further calls `ReadAt` delivers any range of its bytes. -/
def CanRead (w : World) (v : Volume) (fs : FatFs) (path contents : Bytes) : Prop :=
  ∃ fuel₀ out, out.size = contents.length ∧ ∀ fuel ≥ fuel₀,
    ∃ fs', findByPath w v fuel fs path = some (.ok out, fs') ∧
      ∀ fs₁, Later w v fs' fs₁ → ∀ offset length,
        ∃ fs₂, readAt w v fuel fs₁ out offset length =
          some (((slice contents offset length).length : Int), slice contents offset length, fs₂)

end FatFs

/-! ## Section 1: Chains -/

theorem imageOk_of_layout (hl : Layout (imageSuper image) image.size)
    (h512 : (imageSuper image).bytesPerSector = 512) : ImageOk image :=
  ⟨⟨hl.sectorsPerCluster_pos, hl.numFats_pos, hl.area⟩, h512⟩

section Image

variable (hl : Layout (imageSuper image) image.size)
  (h512 : (imageSuper image).bytesPerSector = 512)
include hl h512

theorem device_cluster {c : Nat} (hc : (diskView (imageSuper image) image).Valid c) :
    (imageVolume image).cluster c = (diskView (imageSuper image) image).data c := by
  obtain ⟨h2, hlt⟩ := hc
  have hcount : dataClusters (imageSuper image) = (imageSuper image).clusterCount :=
    Layout.dataClusters_eq _
  have hlt : c < dataClusters (imageSuper image) + 2 := hlt
  rw [hcount] at hlt
  have hdata : (diskView (imageSuper image) image).data c =
      FatEdit.clusterData (imageSuper image) image c := rfl
  rw [(imageOk_of_layout hl h512).cluster_eq hlt h2, hdata, FatEdit.clusterData,
    if_neg (by omega), Layout.clusterOffset_eq]

theorem device_content {l : List Nat} (h : ∀ x ∈ l, (diskView (imageSuper image) image).Valid x) :
    (imageVolume image).content l = (diskView (imageSuper image) image).content l :=
  List.flatMap_congr fun x hx => device_cluster hl h512 (h x hx)

theorem device_entry {c : Nat} (hc : (diskView (imageSuper image) image).Valid c) :
    (imageVolume image).Usable c ∧
      (imageVolume image).fatEntry c = (diskView (imageSuper image) image).entry c := by
  have hentries := hl.entries
  have hlt := hl.fat_lt
  have hmul := Layout.entries_mul_le (imageSuper image)
  have hc' : c < FatEdit.fatEntries (imageSuper image) := Nat.lt_of_lt_of_le hc.2 hentries
  rw [h512] at hlt hmul
  have hidx : u32 (c * 4) = 4 * c := by rw [Nat.mul_comm, u32_of_lt (by omega)]
  have hin : u32 (c * 4) / 512 < (imageSuper image).sectorsPerFat := by
    rw [hidx]
    omega
  refine ⟨⟨hc.1, hin⟩, ?_⟩
  have hentry : (diskView (imageSuper image) image).entry c =
      image.bytes.readLE (FatEdit.fatStart (imageSuper image) + 4 * c) 4 := if_pos hc'
  rw [(imageOk_of_layout hl h512).fatEntry_eq hin, hentry, hidx, FatEdit.fatStart, h512]

/-- stage2 sees the cluster chains of the volume. -/
theorem device_chain (hp : (diskView (imageSuper image) image).Plain) {c : Nat} {l : List Nat}
    (h : (diskView (imageSuper image) image).Chain c l) (hne : l ≠ []) :
    (imageVolume image).FsChain c l := by
  have hsmall : dataClusters (imageSuper image) + 2 ≤ FatFs.endOfChain := by
    have hall := hl.clusters_le
    have hsize := hl.small
    have hmul : dataClusters (imageSuper image) * 512 ≤
        dataClusters (imageSuper image) * FatEdit.bytesPerCluster (imageSuper image) :=
      Nat.mul_le_mul_left _ hl.bytesPerCluster_ge
    rw [FatFs.endOfChain]
    omega
  induction h with
  | done _ => exact absurd rfl hne
  | @link c l _ hvalid hrest ih =>
    obtain ⟨husable, hentry⟩ := device_entry hl h512 hvalid
    have hlow : c < FatFs.endOfChain := Nat.lt_of_lt_of_le hvalid.2 hsmall
    refine .link (Nat.not_le_of_lt hlow) husable ?_
    rw [hentry]
    have hused : (diskView (imageSuper image) image).next c ≠ 0 :=
      Vol.Chain.used (.link (by assumption) hvalid hrest) List.mem_cons_self
    cases hrest with
    | done hend =>
      -- the end mark may have upper bits
      apply Chain.done
      have hle : (diskView (imageSuper image) image).next c ≤
          (diskView (imageSuper image) image).entry c := Nat.mod_le _ _
      rw [endMark] at hend
      rw [FatFs.endOfChain]
      omega
    | link hns hvalid' hrest' =>
      rcases hp.links hvalid hused with heq | hend
      · rw [heq]
        exact ih (List.cons_ne_nil _ _)
      · exact absurd hend hns

/-! ## Section 2: Directories -/

theorem device_records {l : List Nat}
    (h : ∀ x ∈ l, (diskView (imageSuper image) image).Valid x) :
    l.flatMap (imageVolume image).records =
      records ((diskView (imageSuper image) image).content l) := by
  rw [← device_content hl h512 h]
  clear h
  induction l with
  | nil => exact (records_of_lt (d := []) (by decide)).symm
  | cons c l ih =>
    have hlen := (imageVolume image).length_cluster c
    have hcount := bytesPerCluster_eq_records image
    have hone : (imageVolume image).records c = records ((imageVolume image).cluster c) := by
      rw [Volume.records, FatFs.recordsIn, records, hlen]
    rw [List.flatMap_cons, ih, Volume.content_cons, hone,
      records_append (hlen.trans hcount)]

end Image

theorem listed_of_live {rs : List FatDirent} (hlive : ∀ r ∈ rs, r.isLive = true)
    (hlast : ∀ r ∈ rs, r.isLastInList = false) {es : List DirEntry}
    (h : FatEdit.makeEntries (rs.map fun r => ([], r)) = .ok es) :
    Listed rs es ∧ ∀ e ∈ es, e.longName = e.shortName := by
  induction rs generalizing es with
  | nil =>
    cases h
    exact ⟨.nil, by simp⟩
  | cons r rs ih =>
    obtain ⟨e, es', hentry, hrest, rfl⟩ := FatEdit.makeEntries_cons_ok.mp h
    have hsame := (FatEdit.makeEntry_fields hentry).2.2.2.2 rfl
    obtain ⟨hlisted, hnames⟩ := ih (fun x hx => hlive x (List.mem_cons_of_mem _ hx))
      (fun x hx => hlast x (List.mem_cons_of_mem _ hx)) hrest
    refine ⟨.plain (hlive r List.mem_cons_self) (hlast r List.mem_cons_self) hentry hlisted, ?_⟩
    exact List.forall_mem_cons.mpr ⟨hsame, hnames⟩

/-- There is no piece of a long name among live records. -/
theorem longNamesFollowed_of_live {rs : List FatDirent} (hlive : ∀ r ∈ rs, r.isLive = true) :
    LongNamesFollowed rs := by
  rintro pre a b post rfl - hpiece
  have ha := hlive a (by simp)
  rw [FatDirent.isLive, hpiece.long, Bool.not_true, Bool.and_false] at ha
  cases ha

/-- Without long names, both programs look for the same entry. -/
theorem lookup_eq {es : List DirEntry} {name : Bytes} (hnames : ∀ e ∈ es, e.longName = e.shortName)
    (h0 : 0 ∉ name) :
    es.find? (fun it => it.longName == name || it.shortName == name) = lookup es name := by
  rw [lookup, cstr_of_notMem h0]
  induction es with
  | nil => rfl
  | cons e es ih =>
    obtain ⟨hname, hrest⟩ := List.forall_mem_cons.mp hnames
    rw [List.find?_cons, List.find?_cons, hname, Bool.or_self, ih hrest]

/-- A name that a path component can have, and that a record keeps. -/
structure GoodName (name : Bytes) : Prop where
  short : isShortName name = true
  notZero : 0 ∉ name
  noBlank : 0x20 ∉ name

theorem GoodName.length_le {name : Bytes} (h : GoodName name) : name.length ≤ 8 + 1 + 3 := by
  have hshort := h.short
  unfold isShortName at hshort
  rw [cstr_of_notMem h.notZero] at hshort
  dsimp only at hshort
  split at hshort
  · cases hshort
  · next hlen =>
    simp only [Bool.or_eq_true, decide_eq_true_eq, not_or] at hlen
    omega

theorem sameEntry_root (image : ByteVec) :
    SameEntry (FatFs.rootDir (imageVolume image)) (FatEdit.rootEntry (imageSuper image)) where
  cluster := rfl
  size := rfl
  isDirectory := by
    show FlagField.isSet (FlagField.set 0 FatDirent.directory) FatDirent.directory = true
    decide

section Session

variable {s : Session} (hs : s.Ok (imageSuper image))
  (hwf : (memView (imageSuper image) s).WellFormed) (hp : (memView (imageSuper image) s).Plain)
  (hview : memView (imageSuper image) s = diskView (imageSuper image) image)
  (hl : Layout (imageSuper image) image.size) (h512 : (imageSuper image).bytesPerSector = 512)
include hs hwf hp hview hl h512

/-- A directory of a plain volume, for both programs. -/
theorem device_directory {c t : Nat} {p : Option Nat} (hdir : (memView (imageSuper image) s).IsDir c p)
    {es : List DirEntry}
    (hscan : FatEdit.scanDirectory (imageSuper image) s (FatEdit.dirReader c) = .ok (es, t)) :
    ∃ l rs, (imageVolume image).FsChain c l ∧ rs <+: l.flatMap (imageVolume image).records ∧
      LongNamesFollowed rs ∧ Listed rs es ∧ ∀ e ∈ es, e.longName = e.shortName := by
  obtain ⟨-, l, -, hch, hne⟩ := hdir.owner hwf.toSound
  have hlive := hp.allLive hdir hch
  have hspec := FatEdit.scanDirectory_spec hs hwf.toSane hch hne (Groups.of_all_live hlive)
  rw [hspec] at hscan
  obtain ⟨es', hmake, rfl, -⟩ := FatEdit.scanned_ok.mp hscan
  obtain ⟨hlisted, hnames⟩ := listed_of_live hlive (fun r hr => not_last_of_mem_body hr) hmake
  rw [hview] at hp hch hlisted hlive
  have hvalid : ∀ x ∈ l, (diskView (imageSuper image) image).Valid x := fun x hx => hch.valid hx
  refine ⟨l, _, device_chain hl h512 hp hch hne, ?_, longNamesFollowed_of_live hlive, hlisted, hnames⟩
  rw [device_records hl h512 hvalid]
  exact List.takeWhile_prefix _

/-- **Directory lookup**: stage2 finds what `fatedit` finds. -/
theorem findInDirectory_finds {c t : Nat} {p : Option Nat}
    (hdir : (memView (imageSuper image) s).IsDir c p) {es : List DirEntry}
    (hscan : FatEdit.scanDirectory (imageSuper image) s (FatEdit.dirReader c) = .ok (es, t))
    {name : Bytes} (hname : GoodName name) {it : DirEntry}
    (hit : es.find? (fun it => it.longName == name || it.shortName == name) = some it)
    {w : World} (hw : ¬ w.Faulty) {fs : FatFs} (hco : Coherent (imageVolume image) fs)
    {dir : FatFile} (hisDir : FlagField.isSet dir.flags FatDirent.directory = true)
    (hcluster : dir.cluster = c) :
    ∃ fuel out fs',
      FatFs.findInDirectory w (imageVolume image) fuel fs dir name = some (.ok out, fs') ∧
      SameEntry out it ∧ Coherent (imageVolume image) fs' := by
  -- what `fatedit` has listed are the front records of the chain
  obtain ⟨l, rs, hch, hpre, hlong, hlisted, hnames⟩ :=
    device_directory hs hwf hp hview hl h512 hdir hscan
  rw [lookup_eq hnames hname.notZero] at hit
  have hfinds : Finds name es (FatFs.findEntry name (w.uninit .nameBuffer fs.loads) rs) :=
    finds_of_listed hlisted hlong _
  unfold Finds at hfinds
  rw [hit] at hfinds
  obtain ⟨r, hr, hsame⟩ := hfinds
  obtain ⟨d, hseg, -⟩ := FatFs.segment_of_chain hch
  have hfind : (imageVolume image).find name l.length c (w.uninit .nameBuffer fs.loads) =
      some (.ok (recordFile r)) := by
    apply Volume.find_answer hseg
    apply findEntry_front hpre
    rw [hr]
    rfl
  -- and the cached driver answers as the search on the volume
  obtain ⟨hloop, hkeep⟩ := FatFs.findLoop_reliable hw name l.length hco c
    (w.uninit .nameBuffer fs.loads)
  rw [hfind] at hloop
  obtain ⟨⟨res, fs'⟩, hrun, hres⟩ := Option.map_eq_some_iff.mp hloop
  obtain rfl : res = .ok (recordFile r) := hres
  refine ⟨l.length, recordFile r, fs', ?_, hsame, hkeep _ _ hrun⟩
  rw [FatFs.findInDirectory, hname.short, hisDir, hcluster]
  exact hrun

/-! ## Section 3: Paths -/

/-- **Path lookup**: stage2 follows the path to the entry that `fatedit` finds.
    The induction follows `splitLoop`. -/
theorem pathLoop_finds {w : World} (hw : ¬ w.Faulty) {k : Nat} {path args : Bytes}
    (hk : path.length ≤ k) {ent e : DirEntry} (hloc : Located (imageSuper image) s ent)
    (hgood : ∀ x ∈ FatEdit.splitLoop k path, GoodName x)
    (hfind : FatEdit.findLoop (imageSuper image) s args (FatEdit.splitLoop k path) ent = .ok e)
    {fs : FatFs} (hco : Coherent (imageVolume image) fs) {out : FatFile} (hout : SameEntry out ent) :
    ∃ fuel n out' fs',
      FatFs.pathLoop w (imageVolume image) fuel n fs path out = some (.ok out', fs') ∧
      SameEntry out' e ∧ Coherent (imageVolume image) fs' := by
  induction k generalizing path ent fs out with
  | zero =>
    obtain rfl := List.length_eq_zero_iff.mp (Nat.le_zero.mp hk)
    cases hfind
    exact ⟨0, 1, out, fs, rfl, hout, hco⟩
  | succ k ih =>
    cases path with
    | nil =>
      cases hfind
      exact ⟨0, 1, out, fs, rfl, hout, hco⟩
    | cons c cs =>
      rw [List.length_cons] at hk
      rw [FatEdit.splitLoop] at hgood hfind
      have hdrop : ∀ f : UInt8 → Bool, (cs.dropWhile f).length ≤ cs.length :=
        fun f => (List.dropWhile_sublist f).length_le
      rcases hc : FatEdit.isPathSep c with _ | _
      swap
      · -- a separator
        have hseps := hdrop FatEdit.isPathSep
        rw [if_pos hc] at hgood hfind
        obtain ⟨fuel, n, out', fs', hrest, hsame, hco'⟩ := ih (by omega) hloc hgood hfind hco hout
        refine ⟨fuel, n + 1, out', fs', ?_, hsame, hco'⟩
        rw [FatFs.pathLoop_slash hc, isSlash_eq, List.dropWhile_cons_of_pos hc]
        exact hrest
      rw [if_neg (by simp [hc])] at hgood hfind
      obtain ⟨hname, hgood⟩ := List.forall_mem_cons.mp hgood
      obtain ⟨hisDir, es, t, it, hscan, hit, hfind⟩ := FatEdit.findLoop_cons.mp hfind
      obtain ⟨p, hdir⟩ := hloc.isDir hisDir
      have hcomponent : FatFs.component (c :: cs) = c :: cs.takeWhile (!FatEdit.isPathSep ·) :=
        List.takeWhile_cons_of_pos (by simp [isSlash_eq, hc])
      obtain ⟨fuel₁, out₁, fs₁, hsearch, hsame₁, hco₁⟩ :=
        findInDirectory_finds hs hwf hp hview hl h512 hdir hscan hname hit hw hco
          (hout.isDirectory.trans hisDir) hout.cluster
      have hloc₁ := FatEdit.located_of_scan hs hwf hdir hscan (List.mem_of_find?_eq_some hit)
      -- the rest of the path starts with a separator, if there is one
      have hrest : ∃ fuel n out' fs',
          FatFs.pathLoop w (imageVolume image) fuel n fs₁ (FatFs.behind (c :: cs)) out₁ =
            some (.ok out', fs') ∧ SameEntry out' e ∧ Coherent (imageVolume image) fs' := by
        have hbehind : FatFs.behind (c :: cs) = cs.dropWhile (!FatEdit.isPathSep ·) :=
          List.dropWhile_cons_of_pos (by simp [isSlash_eq, hc])
        rw [hbehind]
        have hbound := hdrop (!FatEdit.isPathSep ·)
        rcases Runs.behind_run FatEdit.isPathSep cs with hd | ⟨sep, rest, hd, hsep⟩
        · rw [hd] at hfind ⊢
          cases k <;> cases hfind <;> exact ⟨0, 1, out₁, fs₁, rfl, hsame₁, hco₁⟩
        · rw [hd, List.length_cons] at hbound
          rw [hd, List.drop_one, List.tail_cons] at hgood hfind
          rw [hd]
          have hseps := (List.dropWhile_sublist FatEdit.isPathSep (l := rest)).length_le
          rw [← FatEdit.splitLoop_dropWhile (by omega)] at hgood hfind
          obtain ⟨fuel, n, out', fs', hrun, hsame, hco'⟩ :=
            ih (by omega) hloc₁ hgood hfind hco₁ hsame₁
          refine ⟨fuel, n + 1, out', fs', ?_, hsame, hco'⟩
          rw [FatFs.pathLoop_slash hsep, isSlash_eq, List.dropWhile_cons_of_pos hsep]
          exact hrun
      obtain ⟨fuel₂, n, out', fs', hrun, hsame, hco'⟩ := hrest
      refine ⟨max fuel₁ fuel₂, n + 1, out', fs', ?_, hsame, hco'⟩
      rw [FatFs.pathLoop_component hc (hcomponent ▸ hname.length_le), hcomponent,
        FatFs.findInDirectory_mono hsearch (Nat.le_max_left _ _), Option.bind_some]
      exact FatFs.pathLoop_mono hrun (Nat.le_max_right _ _) (Nat.le_refl n)

/-! ## Section 4: Files -/

/-- **A file on the device**: stage2 reads what `type` prints. -/
theorem canRead_of_types {path contents : Bytes} (htypes : FatEdit.Types (imageSuper image) s path contents)
    (hgood : ∀ x ∈ FatEdit.splitPath path, GoodName x) (h0 : 0 ∉ path) (hne : contents ≠ [])
    (hlen : contents.length < 2 ^ 31) {w : World} (hw : ¬ w.Faulty) {fs : FatFs}
    (hco : Coherent (imageVolume image) fs) : FatFs.CanRead w (imageVolume image) fs path contents := by
  obtain ⟨e, hfind, hfile⟩ := htypes.find
  have hloc := FatEdit.findFile_located hs hwf hfind
  obtain ⟨r, l, hsize, hcluster, hent, -, -⟩ := FatEdit.located_chain hwf hloc hfile
  obtain rfl := htypes.unique (FatEdit.types_of_find hs hfind hfile hsize hcluster hent)
  obtain ⟨hch, hlne, hfits⟩ : (memView (imageSuper image) s).Chain r.clusterIndex l ∧ l ≠ [] ∧
      r.size ≤ l.length * (memView (imageSuper image) s).clusterSize := by
    rcases hent with hchain | ⟨-, hzero, -⟩
    · exact hchain
    · rw [hsize, hzero] at hne
      exact absurd List.take_zero hne
  -- the chain is long enough for the size
  have hcontent := Vol.length_content hwf.toSane fun x hx => hch.valid hx
  have hcount : (((memView (imageSuper image) s).content l).take e.size).length = e.size := by
    rw [List.length_take, hcontent, hsize, Nat.min_eq_left hfits]
  have hpos : 0 < e.size := by
    rw [← hcount]
    exact List.length_pos_iff.mpr hne
  obtain ⟨fuel, n, out, fs', hrun, hsame, hco'⟩ :=
    pathLoop_finds hs hwf hp hview hl h512 hw (Nat.le_refl _) FatEdit.located_root hgood hfind hco
      (sameEntry_root image)
  have hbytes : (imageVolume image).fileBytes out l =
      ((memView (imageSuper image) s).content l).take e.size := by
    rw [Volume.fileBytes, hsame.size, if_pos hpos, hview, device_content hl h512]
    rw [hview] at hch
    exact fun x hx => hch.valid hx
  have hfs : (imageVolume image).FsChain out.cluster l := by
    rw [hsame.cluster, hcluster]
    rw [hview] at hch hp
    exact device_chain hl h512 hp hch hlne
  refine ⟨max (max fuel n) (l.length + 1), out, hsame.size.trans hcount.symm, ?_⟩
  intro fuel' hfuel
  refine ⟨fs', ?_, ?_⟩
  · rw [FatFs.findByPath, cstr_of_notMem h0]
    exact FatFs.pathLoop_mono hrun (by omega) (by omega)
  · intro fs₁ hlater offset length
    rcases FatFs.readAt_spec (w := w) hfs (hlater.coherent hw hco') fuel' offset length with
      ⟨-, hle⟩ | ⟨data, fs₂, rfl, hread, -⟩ | ⟨hbad, -⟩
    · omega
    · have hdata : (slice ((imageVolume image).fileBytes out l) offset length).length < 2 ^ 31 := by
        rw [hbytes, slice, List.length_take, List.length_drop]
        omega
      rw [i32_of_lt hdata, hbytes] at hread
      exact ⟨fs₂, hread⟩
    · exact absurd hbad hw

end Session

end Hausboot

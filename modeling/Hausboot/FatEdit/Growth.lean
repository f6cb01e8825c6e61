import Hausboot.Fat.Snug
import Hausboot.FatEdit.ShortNames

/-! # The fatedit Tool: Can a Directory Always Grow?

    `AppendDirectoryEntry` goes on where the records of the directory end, and
    the constructor `FileWriter(idx, size)` wants that position to be in the
    last cluster. The terminator of the last record may have gone to a cluster
    of its own, though. This is so exactly if the records fill whole clusters,
    and from then on the directory cannot grow. -/

open ByteLib Prog

namespace Hausboot.FatEdit

open FatDirent Session

variable {super : FatSuper} {s s' s₁ : Session}

/-! ## Section 1: Where the records end -/

/-- A directory of `size` bytes fills its clusters. -/
def FillsClusters (super : FatSuper) (size : Nat) : Prop :=
  0 < size ∧ size % bytesPerCluster super = 0

instance (size : Nat) : Decidable (FillsClusters super size) :=
  inferInstanceAs (Decidable (_ ∧ _))

/-- Without spare clusters, the records end early if their terminator alone
    stands in the last cluster. -/
theorem endsEarly_iff {size : Nat} {lP : List Nat} (hcs : 0 < bytesPerCluster super)
    (hdvd : sizeof ∣ bytesPerCluster super) (hsize : sizeof ∣ size)
    (hlen : lP.length = Vol.clustersFor (bytesPerCluster super) (size + sizeof)) :
    EndsEarly super size lP ↔ FillsClusters super size := by
  unfold EndsEarly FillsClusters
  generalize bytesPerCluster super = cs at *
  have hrem : sizeof ∣ size % cs := (Nat.dvd_mod_iff hdvd).mpr hsize
  have hlt := Nat.mod_lt size hcs
  have hsplit : size = size / cs * cs + size % cs := by
    rw [Nat.mul_comm]
    exact (Nat.div_add_mod size cs).symm
  generalize size / cs = q at hsplit
  generalize size % cs = rest at hsplit hrem hlt ⊢
  -- there is room for the terminator in the cluster where the records end
  have hfits : rest + sizeof ≤ cs := by
    obtain ⟨k, rfl⟩ := hrem
    obtain ⟨m, rfl⟩ := hdvd
    rw [← Nat.mul_succ]
    exact Nat.mul_le_mul_left _ (Nat.lt_of_mul_lt_mul_left hlt)
  rw [hsplit, Nat.add_assoc, Vol.clustersFor_eq hcs hfits (.inr (by unfold sizeof; omega))] at hlen
  rw [hlen, Nat.add_sub_cancel, hsplit]
  constructor
  · rintro ⟨hmany, hle⟩
    have hmul : 1 * cs ≤ q * cs := Nat.mul_le_mul_right _ (by omega)
    omega
  · rintro ⟨hpos, rfl⟩
    refine ⟨?_, Nat.le_refl _⟩
    rcases Nat.eq_zero_or_pos q with rfl | hq
    · omega
    · omega

/-- A record is only added where the records do not end early. -/
theorem Added.not_endsEarly {P size : Nat} {lP : List Nat} {r : Nat → FatDirent} {d : Nat → Bytes}
    (ht : Target super s P size lP) (h : Added super s P lP r d s') :
    ¬ EndsEarly super size lP := by
  rintro ⟨hmany, hle⟩
  obtain ⟨-, first, v₁, w, w₁, w₂, hadds, -, hpre⟩ := h
  have hpos : w.pre.length * bytesPerCluster super + w.offset = size :=
    hadds.pos.trans ht.size_eq.symm
  have hlen : lP.length = w.pre.length + 1 := by
    rw [← hadds.cursor, Vol.Cursor.chain, List.length_append]
    rfl
  rw [hlen, Nat.add_sub_cancel] at hle
  rcases hpre with hnil | hoff
  · rw [hnil] at hlen
    rw [hlen] at hmany
    exact absurd hmany (Nat.lt_irrefl 1)
  · omega

/-! ## Section 2: Which commands throw -/

/-- An exception ends the program. -/
def Throws {α : Type} (x : M α) (s : Session) : Prop := ∃ e s', x s = .error (.throw e) s'

theorem handled_ok_iff {x : M Unit} : (∃ s', handled x s = .ok () s') ↔ ¬ Throws x s := by
  unfold handled Throws
  cases x s with
  | ok _ s₁ => simp
  | error e s₁ =>
    cases e with
    | refuse msg => simp
    | throw e => simp

theorem runLine_ok_iff {host : Host} {line args : Bytes} {c : Command}
    (hline : parseLine line = .command c args) :
    (∃ s', runLine super host line s = .ok () s') ↔ ¬ Throws (c.callback super host args) s := by
  unfold runLine
  rw [hline]
  exact handled_ok_iff

/-- With room enough, the end of a command throws exactly if the records of the
    directory end early. -/
theorem throws_iff_endsEarly {x : M Unit} {P m size : Nat} {lP : List Nat} {r : Nat → FatDirent}
    {d : Nat → Bytes} (ht : Target super s P size lP) (hroom : ¬ Crowded super s m size lP)
    (h : Holds x s (fun _ s' => Added super s P lP r d s')
      (fun e _ => AddFails super s m size lP e)) :
    Throws x s ↔ EndsEarly super size lP := by
  constructor
  · rintro ⟨e, s', herror⟩
    rcases h.of_error herror with ⟨-, hcrowded⟩ | ⟨-, hearly⟩
    · exact absurd hcrowded hroom
    · exact hearly
  · intro hearly
    cases hx : x s with
    | ok _ s' => exact absurd hearly ((h.of_ok hx).not_endsEarly ht)
    | error e s' =>
      obtain ⟨y, rfl⟩ := (h.of_error hx).throws
      exact ⟨y, s', hx⟩

/-! ## Section 3: The checks never throw -/

theorem joinLongName_refuses {ls : List FatDirentLong} {e : Fail}
    (h : joinLongName ls = .error e) : ∃ msg, e = .refuse msg := by
  induction ls with
  | nil => cases h
  | cons l ls ih =>
    unfold joinLongName at h
    split at h
    · exact ⟨_, (Except.error.inj h).symm⟩
    · cases hrest : joinLongName ls with
      | error f =>
        rw [hrest] at h
        obtain rfl := Except.error.inj h
        exact ih hrest
      | ok name =>
        rw [hrest] at h
        cases h

theorem makeEntry_refuses {r : FatDirent} {ls : List FatDirentLong} {e : Fail}
    (h : makeEntry r ls = .error e) : ∃ msg, e = .refuse msg := by
  unfold makeEntry at h
  cases hname : r.nameToString with
  | none =>
    rw [hname] at h
    exact ⟨_, (Except.error.inj h).symm⟩
  | some shortName =>
    rw [hname] at h
    dsimp only at h
    split at h
    · cases h
    · cases hlong : joinLongName ls with
      | error f =>
        rw [hlong] at h
        obtain rfl := Except.error.inj h
        exact joinLongName_refuses hlong
      | ok name =>
        rw [hlong] at h
        cases h

theorem makeEntries_refuses {gs : List (List FatDirentLong × FatDirent)} {e : Fail}
    (h : makeEntries gs = .error e) : ∃ msg, e = .refuse msg := by
  induction gs with
  | nil => cases h
  | cons g gs ih =>
    obtain ⟨ls, r⟩ := g
    unfold makeEntries at h
    cases hentry : makeEntry r ls with
    | error f =>
      rw [hentry] at h
      obtain rfl := Except.error.inj h
      exact makeEntry_refuses hentry
    | ok it =>
      rw [hentry] at h
      cases hrest : makeEntries gs with
      | error f =>
        rw [hrest] at h
        obtain rfl := Except.error.inj h
        exact ih hrest
      | ok es =>
        rw [hrest] at h
        cases h

/-- On a well-formed volume, listing a directory throws no exception. -/
theorem scanDirectory_refuses (hs : s.Sound super) {c : Nat} {p : Option Nat}
    (hdir : (memView super s).IsDir c p) {e : Fail}
    (h : scanDirectory super s (dirReader c) = .error e) : ∃ msg, e = .refuse msg := by
  obtain ⟨l, gs, -, -, -, heq⟩ := dir_scan hs.toOk hs.wellFormed hdir
  rw [heq] at h
  cases hmake : makeEntries gs with
  | error f =>
    rw [hmake] at h
    obtain rfl := Except.error.inj h
    exact makeEntries_refuses hmake
  | ok es =>
    rw [hmake] at h
    cases h

/-- Neither as a short nor as a long name does the directory list `name`. -/
def NewIn (super : FatSuper) (s : Session) (P : Nat) (name : Bytes) : Prop :=
  ∀ es size, scanDirectory super s (dirReader P) = .ok (es, size) →
    ∀ it ∈ es, it.shortName ≠ name ∧ it.longName ≠ name

/-- The checks of a command refuse at most, and they do if the directory cannot
    be listed. -/
theorem locate_cases (hs : s.Sound super) {path : List Bytes} {name : Bytes} {parent : DirEntry}
    (hpath : ∀ x ∈ path, Component x) (hparent : findParent super s path = .ok parent)
    (hnew : NewIn super s parent.firstCluster name) :
    (∃ es size, scanDirectory super s (dirReader parent.firstCluster) = .ok (es, size) ∧
      locate super s path name = .ok (parent, size)) ∨
    ((∀ es size, scanDirectory super s (dirReader parent.firstCluster) ≠ .ok (es, size)) ∧
      ∃ msg, locate super s path name = .error (.refuse msg)) := by
  cases hscan : scanDirectory super s (dirReader parent.firstCluster) with
  | ok it =>
    obtain ⟨es, size⟩ := it
    refine .inl ⟨es, size, rfl, locate_ok.mpr ⟨hparent, es, hscan, ?_⟩⟩
    apply List.any_eq_false.mpr
    intro it hit
    obtain ⟨hshort, hlong⟩ := hnew es size hscan it hit
    simp [hshort, hlong]
  | error e =>
    obtain ⟨p, hdir⟩ := findParent_isDir hs.toOk hs.wellFormed hpath hparent
    obtain ⟨msg, rfl⟩ := scanDirectory_refuses hs hdir hscan
    refine .inr ⟨?_, msg, ?_⟩
    · intro es size heq
      cases heq
    · unfold locate
      rw [hparent]
      dsimp only [bind, Except.bind, checkEntryNotInDir]
      rw [hscan]

/-! ## Section 4: mkdir and pack -/

/-- A session on a volume that only `mkdir` and `pack` have worked on. -/
structure Session.Grown (super : FatSuper) (s : Session) : Prop extends s.Started super where
  wellFormed : (memView super s).WellFormed
  snug : (memView super s).Snug
  /-- No record stands in two clusters. -/
  records : sizeof ∣ bytesPerCluster super

theorem Session.Grown.sound (hs : s.Grown super) : s.Sound super := ⟨hs.toOk, hs.wellFormed⟩

theorem Session.Grown.endsEarly_iff (hs : s.Grown super) {P size : Nat} {lP : List Nat}
    (ht : Target super s P size lP) : EndsEarly super size lP ↔ FillsClusters super size := by
  obtain ⟨p, hdir⟩ := ht.dir
  have hlen := hs.snug hdir ht.chain
  rw [← ht.size_eq] at hlen
  exact FatEdit.endsEarly_iff hs.layout.bytesPerCluster_pos hs.records
    (ht.size_eq ▸ Nat.dvd_mul_right _ _) hlen

/-- The free clusters hold a file of `n` bytes, and with those of the directory
    `P` its records, one more, and the terminator. -/
def Enough (super : FatSuper) (s : Session) (P n : Nat) : Prop :=
  ∀ es size l, scanDirectory super s (dirReader P) = .ok (es, size) →
    (memView super s).Chain P l → ¬ Crowded super s n size l

/-- One cluster more than the file takes is enough for any directory. -/
theorem enough_of_card (hs : s.Grown super) {P n : Nat} {p : Option Nat}
    (hdir : (memView super s).IsDir P p)
    (hcard : Vol.clustersFor (bytesPerCluster super) n + 1 ≤ (memView super s).freeSet.card) :
    Enough super s P n := by
  intro es size l hscan hch
  obtain ⟨l', gs, hch', -, -, heq⟩ := dir_scan hs.toOk hs.wellFormed hdir
  obtain rfl := ChainLib.Chain.unique hch hch'
  rw [heq] at hscan
  obtain ⟨-, -, -, rfl⟩ := scanned_ok.mp hscan
  have hlen := hs.snug hdir hch
  have hcs := hs.layout.bytesPerCluster_ge
  have hfit := le_clustersFor_mul (n := sizeof * (body ((memView super s).content l)).length + sizeof)
    hs.layout.bytesPerCluster_pos
  have hclusters : (memView super s).clusterSize = bytesPerCluster super := rfl
  rw [hclusters] at hlen
  rw [← hlen] at hfit
  rintro (hfew | hfull)
  · omega
  · have hmul : (l.length + 1) * bytesPerCluster super ≤
        ((memView super s).freeSet.card - Vol.clustersFor (bytesPerCluster super) n + l.length) *
          bytesPerCluster super := Nat.mul_le_mul_right _ (by omega)
    rw [Nat.succ_mul] at hmul
    have h32 : sizeof = 32 := rfl
    omega

/-- `ScanDirectory` accepts the directory, and its records fill whole clusters. -/
def ListedFull (super : FatSuper) (s : Session) (P : Nat) : Prop :=
  (∃ it, scanDirectory super s (dirReader P) = .ok it) ∧
    ∃ l, (memView super s).Chain P l ∧
      FillsClusters super (sizeof * (body ((memView super s).content l)).length)

theorem throws_bind {α β : Type} {x : M α} {f : α → M β} {a : α} (h : x s = .ok a s₁) :
    Throws (x >>= f) s ↔ Throws (f a) s₁ := by
  have heq : (x >>= f) s = f a s₁ := by
    show EStateM.bind x f s = f a s₁
    unfold EStateM.bind
    rw [h]
  unfold Throws
  rw [heq]

theorem not_throws_reading_bind {α β : Type} {f : Session → Except Fail α} {g : α → M β}
    {msg : Bytes} (h : f s = .error (.refuse msg)) : ¬ Throws (reading f >>= g) s := by
  have heq : (reading f >>= g) s = .error (.refuse msg) s := by
    show EStateM.bind (reading f) g s = _
    unfold EStateM.bind reading
    rw [h]
  rintro ⟨e, s', herror⟩
  rw [heq] at herror
  cases herror

theorem not_throws_refuse {α : Type} {msg : Bytes} : ¬ Throws (throw (.refuse msg) : M α) s := by
  rintro ⟨e, s', herror⟩
  cases herror

/-- Behind the checks, only a directory that fills its clusters makes a command
    throw. -/
theorem located_throws_iff (hs : s.Grown super) {path : List Bytes} {name : Bytes}
    {parent : DirEntry} {n : Nat} {r : Nat → FatDirent} {d : Nat → Bytes}
    {x : DirEntry × Nat → M Unit} (hpath : ∀ x ∈ path, Component x)
    (hparent : findParent super s path = .ok parent)
    (hnew : NewIn super s parent.firstCluster name)
    (henough : Enough super s parent.firstCluster n)
    (hx : ∀ size lP, Target super s parent.firstCluster size lP →
      Holds (x (parent, size)) s (fun _ s' => Added super s parent.firstCluster lP r d s')
        (fun e _ => AddFails super s n size lP e)) :
    Throws (reading (locate super · path name) >>= x) s ↔
      ListedFull super s parent.firstCluster := by
  rcases locate_cases hs.sound hpath hparent hnew with ⟨es, size, hscan, hloc⟩ | ⟨hnone, msg, hloc⟩
  · obtain ⟨lP, ht⟩ := target_of_locate hs.toOk hs.wellFormed hpath hloc
    have hread : reading (locate super · path name) s = .ok (parent, size) s :=
      reading_eq_ok.mpr ⟨hloc, rfl⟩
    rw [throws_bind hread, throws_iff_endsEarly ht (henough es size lP hscan ht.chain)
      (hx size lP ht), hs.endsEarly_iff ht, ht.size_eq]
    constructor
    · intro hfull
      exact ⟨⟨_, hscan⟩, lP, ht.chain, hfull⟩
    · rintro ⟨-, l, hch, hfull⟩
      obtain rfl := ChainLib.Chain.unique hch ht.chain
      exact hfull
  · -- a parent that cannot be listed is reported, not thrown
    constructor
    · intro hthrows
      exact absurd hthrows (not_throws_reading_bind hloc)
    · rintro ⟨⟨it, hscan⟩, -⟩
      exact absurd hscan (hnone it.1 it.2)

/-- The number of bytes that a command writes to the file or directory it makes. -/
def Writes (host : Host) : Command → Bytes → Nat → Prop
  | .mkdir, _, n => n = 3 * sizeof
  | .pack, args, n => ∃ input target contents, splitPackArgs args = some (input, target) ∧
      host (cstr input) = some (contents, false) ∧ n = contents.length
  | .dir, _, _ => False
  | .type, _, _ => False

theorem createDirectory_throws_iff (hs : s.Grown super) {args name : Bytes} {parent : DirEntry}
    (hlast : (splitPath args).getLast? = some name) (hname : isShortName name = true)
    (hparent : findParent super s (splitPath args) = .ok parent)
    (hnew : NewIn super s parent.firstCluster name)
    (henough : Enough super s parent.firstCluster 96) :
    Throws (createDirectory super args) s ↔
      acceptsName .mkdir name = true ∧ ListedFull super s parent.firstCluster := by
  unfold createDirectory
  dsimp only
  rw [hlast]
  dsimp only
  rw [if_neg (by simp [hname]), acceptsName, hname]
  cases hdot : name.contains 0x2E with
  | true =>
    rw [if_pos rfl]
    simp [not_throws_refuse]
  | false =>
    rw [if_neg (by decide), located_throws_iff hs (splitPath_component args) hparent hnew henough]
    · simp only [Bool.not_false, Bool.and_self, true_and]
    · intro size lP ht
      exact makeDirectory_spec hs.toOk hs.wellFormed ht hname

theorem packDirectory_throws_iff (hs : s.Grown super) {host : Host} {args input target name : Bytes}
    {contents : Bytes} {parent : DirEntry} (hargs : splitPackArgs args = some (input, target))
    (hhost : host (cstr input) = some (contents, false))
    (hlast : (splitPath target).getLast? = some name) (hname : isShortName name = true)
    (hparent : findParent super s (splitPath target) = .ok parent)
    (hnew : NewIn super s parent.firstCluster name)
    (henough : Enough super s parent.firstCluster contents.length) :
    Throws (packDirectory super host args) s ↔ ListedFull super s parent.firstCluster := by
  have hne : target ≠ [] := by
    rintro rfl
    cases hlast
  unfold packDirectory
  rw [hargs]
  dsimp only
  rw [if_neg hne, hlast]
  dsimp only
  rw [if_neg (by simp [hname]), hhost,
    located_throws_iff hs (splitPath_component target) hparent hnew henough]
  intro size lP ht
  apply (packFile_spec hs.toOk hs.wellFormed ht hname input contents false).mono
  · intro _ s' h
    exact h.2.2
  · intro e _ h
    rcases h with ⟨hfalse, -⟩ | h
    · cases hfalse
    · exact h

/-! ## Section 5: What is reached from a fresh image -/

/-- The sessions that a freshly formatted image leads to: any number of lines,
    and writing the image back and starting again in between. -/
inductive Reached : FatSuper → Session → Prop where
  | fresh {image : ByteVec} {super : FatSuper} {s : Session} :
      Layout (imageSuper image) image.size →
      (imageSuper image).bytesPerSector ∈ [512, 1024, 2048, 4096] →
      (diskView (imageSuper image) image).Fresh → start image = .ok (super, s) → Reached super s
  | line {super : FatSuper} {s s' : Session} {host : Host} {line : Bytes} :
      Reached super s → runLine super host line s = .ok () s' → Reached super s'
  | again {super super' : FatSuper} {s s' s'' : Session} :
      Reached super s → finish super s = .ok () s' → start s'.file = .ok (super', s'') →
      Reached super' s''

theorem callback_snug (hs : s.Grown super) {host : Host} {c : Command} {args : Bytes}
    (h : c.callback super host args s = .ok () s') : (memView super s').Snug := by
  have hquiet : Quiet s s' → (memView super s').Snug := by
    intro hquiet
    rw [hquiet.view]
    exact hs.snug
  cases c with
  | dir => exact hquiet ((readsOnly_listDirectory super args s).of_ok h)
  | type => exact hquiet ((readsOnly_dumpFile super args s).of_ok h)
  | mkdir =>
    rcases (createDirectory_spec hs.toOk hs.wellFormed args).of_ok h with ⟨-, rfl⟩ | hmakes
    · exact hs.snug
    · obtain ⟨name, parent, size, lP, -, -, -, ht, -, first, v₁, w, w₁, w₂, hadds, hfits, -⟩ :=
        hmakes
      exact hadds.snug hs.wellFormed ht.dir hfits (fun _ => length_dotBytes _ first) hs.snug
  | pack =>
    rcases (packDirectory_spec hs.toOk hs.wellFormed host args).of_ok h with ⟨-, rfl⟩ | hpacks
    · exact hs.snug
    · obtain ⟨target, name, parent, size, lP, contents, -, -, -, -, -, ht, -, first, v₁, w, w₁, w₂,
        hadds, hfits, -⟩ := hpacks
      apply hadds.snug hs.wellFormed ht.dir hfits _ hs.snug
      intro hdir
      rw [isDirectory_entryRecord] at hdir
      cases hdir

theorem Session.Grown.line (hs : s.Grown super) {host : Host} {line : Bytes}
    (h : runLine super host line s = .ok () s') : s'.Grown super := by
  have hstep := runLine_step hs.toOk hs.wellFormed h
  refine ⟨hs.toStarted.kept hstep.kept, hstep.wellFormed hs.toOk hs.wellFormed, ?_, hs.records⟩
  rcases runLine_ok hs.toOk hs.wellFormed h with hquiet | ⟨c, args, -, hrun⟩
  · rw [hquiet.view]
    exact hs.snug
  · exact callback_snug hs hrun

/-- Starting again on the image that was written back. -/
theorem Session.Grown.again (hs : s.Grown super) {super' : FatSuper} {s'' : Session}
    (hfinish : finish super s = .ok () s') (hstart : start s'.file = .ok (super', s'')) :
    s''.Grown super' := by
  obtain ⟨hwritten, hraw⟩ := finish_ok hs.toStarted hfinish
  have hsuper : imageSuper s'.file = super := by rw [imageSuper, hraw]
  have hl : Layout (imageSuper s'.file) s'.file.size := by
    rw [hsuper, hwritten.size]
    exact hs.layout
  obtain ⟨rfl, hstarted, -, hview⟩ := start_ok hl hstart
  rw [hsuper] at hstarted hview ⊢
  rw [hwritten.view hs.toOk] at hview
  refine ⟨hstarted, ?_, ?_, hs.records⟩
  · rw [hview]
    exact hs.wellFormed
  · rw [hview]
    exact hs.snug

theorem Reached.grown (h : Reached super s) : s.Grown super := by
  induction h with
  | @fresh image _ _ hl hsectors hfresh hstart =>
    obtain ⟨rfl, hstarted, -, hview⟩ := start_ok hl hstart
    have hrecords : sizeof ∣ bytesPerCluster (imageSuper image) := by
      apply Nat.dvd_trans _ (Nat.dvd_mul_left _ _)
      have hall : ∀ n ∈ [512, 1024, 2048, 4096], sizeof ∣ n := by decide
      exact hall _ hsectors
    refine ⟨hstarted, ?_, ?_, hrecords⟩
    · rw [hview]
      exact hfresh.wellFormed
    · rw [hview]
      exact hfresh.snug (Nat.le_of_dvd hl.bytesPerCluster_pos hrecords)
  | line _ hrun ih => exact ih.line hrun
  | again _ hfinish hstart ih => exact ih.again hfinish hstart

/-- A freshly formatted image with 24 clusters of 512 bytes. -/
def wideImage : ByteVec :=
  sparseFile (27 * 512) ([(0, smallSuper 2 27 1)] ++ fsInfoParts ++
    [(1024, leBytes 4 0x0FFFFFF8 ++ leBytes 4 0x0FFFFFFF ++ leBytes 4 0x0FFFFFFF)])

set_option maxRecDepth 3000

theorem wideImage_layout : Layout (imageSuper wideImage) wideImage.size where
  sectorsPerCluster_pos := by decide
  bytesPerSector_ge := by decide
  numFats_pos := by decide
  area := by decide
  small := by decide
  fits := by decide
  entries := by decide

theorem wideImage_fresh : (diskView (imageSuper wideImage) wideImage).Fresh where
  clusterSize_pos := wideImage_layout.bytesPerCluster_pos
  count_lt := wideImage_layout.dataClusters_lt
  length_data c hc := length_clusterData hc wideImage
  reserved0 := by decide
  reserved1 := by decide
  root_valid := by
    constructor
    · decide
    · decide
  root_last := by decide
  root_empty := by decide
  free := by
    intro c hc hroot
    have hcount : (diskView (imageSuper wideImage) wideImage).count = 24 := by decide
    have hroot2 : (diskView (imageSuper wideImage) wideImage).root = 2 := by decide
    have hall : ∀ c < 26, 2 < c → (diskView (imageSuper wideImage) wideImage).next c = 0 := by
      decide
    obtain ⟨hlo, hhi⟩ := hc
    exact hall c (by omega) (by omega)

/-- The session after some lines. -/
def sessionAfter (image : ByteVec) (input : List (Bytes × Host)) : Option (FatSuper × Session) :=
  match start image with
  | .error _ => none
  | .ok (super, s) =>
    match runLines super input s with
    | .ok _ s => some (super, s)
    | .error _ _ => none

theorem reached_runLines {input : List (Bytes × Host)} (hr : Reached super s)
    (h : runLines super input s = .ok () s') : Reached super s' := by
  induction input generalizing s with
  | nil =>
    obtain ⟨-, rfl⟩ := pure_eq_ok.mp h
    exact hr
  | cons it input ih =>
    obtain ⟨line, host⟩ := it
    unfold runLines at h
    obtain ⟨_, s₁, hline, hrest⟩ := bind_eq_ok.mp h
    exact ih (hr.line hline) hrest

theorem reached_wideImage {input : List (Bytes × Host)}
    (h : sessionAfter wideImage input = some (super, s)) : Reached super s := by
  unfold sessionAfter at h
  cases hstart : start wideImage with
  | error e =>
    rw [hstart] at h
    cases h
  | ok it =>
    obtain ⟨super₀, s₀⟩ := it
    rw [hstart] at h
    dsimp only at h
    cases hrun : runLines super₀ input s₀ with
    | error e s₁ =>
      rw [hrun] at h
      cases h
    | ok _ s₁ =>
      rw [hrun] at h
      cases h
      exact reached_runLines (.fresh wideImage_layout (by decide) wideImage_fresh hstart) hrun

/-- Whatever the path, there is nothing in the file. -/
def noBytes : Host := fun _ => some ([], false)

/-- A new name for the root directory, and two free clusters. -/
def roomAtRoot (super : FatSuper) (s : Session) (name : Bytes) : Bool :=
  (match scanDirectory super s (dirReader super.rootDirIndex) with
    | .ok (es, _) => es.all fun it => it.shortName ≠ name ∧ it.longName ≠ name
    | .error _ => false) &&
  Vol.clustersFor (bytesPerCluster super) 0 + 1 ≤ (memView super s).freeSet.card

theorem newIn_of_roomAtRoot {name : Bytes} (h : roomAtRoot super s name = true) :
    NewIn super s super.rootDirIndex name := by
  intro es size hscan it hit
  unfold roomAtRoot at h
  rw [hscan, Bool.and_eq_true] at h
  simpa using List.all_eq_true.mp h.1 it hit

theorem enough_of_roomAtRoot (hr : Reached super s) {name : Bytes}
    (h : roomAtRoot super s name = true) : Enough super s super.rootDirIndex 0 := by
  unfold roomAtRoot at h
  rw [Bool.and_eq_true, decide_eq_true_eq] at h
  exact enough_of_card hr.grown .root h.2

/-- Sixteen records fill the cluster of the root directory. -/
def sixteenFiles : List (Bytes × Host) :=
  ["A", "B", "C", "D", "E", "F", "G", "H", "I", "J", "K", "L", "M", "N", "O", "P"].map fun name =>
    (lit "pack x " ++ lit name, noBytes)

end Hausboot.FatEdit

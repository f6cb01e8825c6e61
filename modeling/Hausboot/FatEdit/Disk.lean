import Hausboot.Fat.Fresh
import Hausboot.FatEdit.Sessions

/-! # The fatedit Tool: From Image to Image

    `main` loads the FAT, runs the commands, and writes the FAT back. The
    offsets of the FATs have type `int`; where one does not fit, reading or
    writing throws. So in a run that comes to its end, the volume in memory is
    the one on disk, before the first command and after the last one. -/

open ByteLib Prog

namespace Hausboot.FatEdit

open Session

variable {super : FatSuper} {s s' : Session} {image image' : ByteVec}

/-! ## Section 1: Offsets of type int -/

/-- An offset below 2^32 is kept, or becomes one that no file has. -/
theorem u64OfInt_i32 {a : Nat} (ha : a < 2 ^ 32) :
    u64OfInt (i32 a) = a ∨ 2 ^ 63 ≤ u64OfInt (i32 a) := by
  by_cases hlt : a < 2 ^ 31
  · left
    rw [i32_of_lt hlt, u64OfInt]
    omega
  · right
    have hneg : i32 a = (a : Int) - 2 ^ 32 := by
      unfold i32 Int.bmod
      dsimp only
      rw [if_neg (by omega)]
      omega
    rw [hneg, u64OfInt]
    omega

theorem i32_add (a b : Nat) : Int.bmod (i32 a + b) (2 ^ 32) = i32 (a + b) := by
  unfold i32
  rw [Int.natCast_add]
  exact Int.bmod_add_bmod

theorem readAt_i32_ok {f : ByteVec} {a n : Nat} {d : Bytes} (ha : a < 2 ^ 32) (hn : n ≠ 0)
    (h : f.readAt (u64OfInt (i32 a)) n = .ok d) : d = f.bytes.read a n := by
  rcases u64OfInt_i32 ha with heq | hbad
  · rw [heq] at h
    exact readAt_ok h
  · rw [ByteVec.readAt, if_neg hn, if_pos hbad] at h
    cases h

theorem writeAt_ok {f f' : ByteVec} {offset : Nat} {d : Bytes}
    (hfit : offset + d.length ≤ f.size) (h : f.writeAt offset d = .ok f') :
    f' = { f with bytes := f.bytes.write offset d } := by
  unfold ByteVec.writeAt at h
  split at h
  · next hd =>
    obtain rfl := Except.ok.inj h
    rw [hd, Store.write_nil]
  · split at h
    · cases h
    · obtain rfl := Except.ok.inj h
      rw [Nat.max_eq_left hfit]

/-- A write that fits into the file. -/
theorem writeFile_ok {offset : Nat} {d : Bytes} (hfit : offset + d.length ≤ s.file.size)
    (h : writeFile offset d s = .ok () s') :
    s' = { s with file := { s.file with bytes := s.file.bytes.write offset d } } := by
  unfold writeFile at h
  cases hwrite : s.file.writeAt offset d with
  | error e =>
    rw [hwrite] at h
    cases h
  | ok f =>
    rw [hwrite] at h
    obtain rfl : _ = s' := (EStateM.Result.ok.inj h).2
    rw [writeAt_ok hfit hwrite]

theorem writeFile_i32_ok {a : Nat} {d : Bytes} (ha : a < 2 ^ 32) (hd : d ≠ [])
    (hfit : a + d.length ≤ s.file.size) (h : writeFile (u64OfInt (i32 a)) d s = .ok () s') :
    s' = { s with file := { s.file with bytes := s.file.bytes.write a d } } := by
  rcases u64OfInt_i32 ha with heq | hbad
  · rw [heq] at h
    exact writeFile_ok hfit h
  · have herr : s.file.writeAt (u64OfInt (i32 a)) d = .error (.throw .badOffset) := by
      rw [ByteVec.writeAt, if_neg hd, if_pos hbad]
    unfold writeFile at h
    rw [herr] at h
    cases h

/-! ## Section 2: Loading -/

/-- What else `LoadFromImage` checks and loads. -/
theorem loadFromImage_fsinfo (h : loadFromImage super image = .ok s) :
    super.fsInfoIndex < super.reservedSectors ∧ s.fsinfo.length = 512 := by
  unfold loadFromImage at h
  split at h
  · cases h
  next hindex =>
  obtain ⟨fsinfo, hfsinfo, h⟩ := except_bind_eq_ok.mp h
  split at h
  · cases h
  obtain ⟨raw, -, h⟩ := except_bind_eq_ok.mp h
  obtain rfl := Except.ok.inj h
  refine ⟨by omega, ?_⟩
  show fsinfo.length = 512
  rw [readAt_ok hfsinfo, Store.length_read]

theorem fatStart_lt (hl : Layout super image.size) : fatStart super < 2 ^ 32 := by
  have hfat := hl.fat_le
  have hall := hl.clusters_le
  have hsmall := hl.small
  omega

theorem fat_pos (hl : Layout super image.size) :
    0 < super.sectorsPerFat * super.bytesPerSector := by
  have hentries := hl.entries
  have hmul := Layout.entries_mul_le super
  omega

/-- A new session sees the volume on disk. -/
theorem loadFromImage_view (hl : Layout super image.size)
    (h : loadFromImage super image = .ok s) :
    s.Ok super ∧ s.file = image ∧ memView super s = diskView super image := by
  obtain ⟨raw, hraw, hfile, hbytes, hsize⟩ := loadFromImage_ok h
  have hlt := hl.fat_lt
  rw [u32_of_lt hlt] at hraw hsize
  have hread := readAt_i32_ok (fatStart_lt hl) (Nat.ne_of_gt (fat_pos hl)) hraw
  have hok : s.Ok super := by
    refine ⟨?_, hsize⟩
    rw [hfile]
    exact hl
  refine ⟨hok, hfile, ?_⟩
  have hentry : (memView super s).entry = (diskView super image).entry := by
    funext n
    have hmul := Layout.entries_mul_le super
    show (if n < fatEntries super then s.fatRaw.bytes.readLE (0 + 4 * n) 4 else 0) =
      if n < fatEntries super then image.bytes.readLE (fatStart super + 4 * n) 4 else 0
    by_cases hn : n < fatEntries super
    · rw [if_pos hn, if_pos hn, Store.readLE, Store.readLE, hbytes, hread,
        Store.read_write_copy _ _ (by omega), Nat.zero_add]
    · rw [if_neg hn, if_neg hn]
  have hdata : (memView super s).data = (diskView super image).data := by
    show clusterData super s.file = clusterData super image
    rw [hfile]
  exact congrArg₂ (fun entry data => { diskView super image with entry := entry, data := data })
    hentry hdata

/-! ## Section 3: Writing back -/

/-- Every FAT on disk is the one in memory, and nothing else is changed. -/
theorem writeFats_ok {n a : Nat} (hpos : 0 < s.fatRaw.size)
    (hfit : a + n * s.fatRaw.size ≤ s.file.size) (hsmall : a + n * s.fatRaw.size < 2 ^ 32)
    (h : writeFats n (i32 a) s = .ok () s') :
    ∃ m : Store, s' = { s with file := { s.file with bytes := m } } ∧
      (∀ i, i < a ∨ a + n * s.fatRaw.size ≤ i → m i = s.file.bytes i) ∧
      ∀ k < n, m.read (a + k * s.fatRaw.size) s.fatRaw.size =
        s.fatRaw.bytes.read 0 s.fatRaw.size := by
  induction n generalizing s a with
  | zero =>
    obtain ⟨-, rfl⟩ := pure_eq_ok.mp h
    exact ⟨s.file.bytes, rfl, fun _ _ => rfl, fun k hk => absurd hk (Nat.not_lt_zero k)⟩
  | succ n ih =>
    unfold writeFats at h
    obtain ⟨s₀, s₁, hget, h⟩ := bind_eq_ok.mp h
    obtain ⟨rfl, rfl⟩ : s = s₀ ∧ s = s₁ := EStateM.Result.ok.inj hget
    obtain ⟨_, s₂, hwrite, hrest⟩ := bind_eq_ok.mp h
    rw [Nat.succ_mul] at hfit hsmall
    have hlen : (s.fatRaw.bytes.read 0 s.fatRaw.size).length = s.fatRaw.size :=
      Store.length_read _ _ _
    have hne : s.fatRaw.bytes.read 0 s.fatRaw.size ≠ [] := by
      intro hnil
      rw [hnil] at hlen
      exact absurd hlen (Nat.ne_of_lt hpos)
    obtain rfl := writeFile_i32_ok (by omega) hne (by omega) hwrite
    rw [i32_add] at hrest
    -- the other FATs lie behind this one
    obtain ⟨m, rfl, hframe, hfats⟩ := ih (a := a + s.fatRaw.size)
      (s := { s with file := { s.file with
        bytes := s.file.bytes.write a (s.fatRaw.bytes.read 0 s.fatRaw.size) } })
      hpos (by dsimp only; omega) (by dsimp only; omega) hrest
    dsimp only at hframe hfats
    refine ⟨m, rfl, ?_, ?_⟩
    · intro i hi
      rw [Nat.succ_mul] at hi
      have hkeep := hframe i (show i < a + s.fatRaw.size ∨
        a + s.fatRaw.size + n * s.fatRaw.size ≤ i by omega)
      rw [hkeep]
      exact Store.write_apply_of_not_mem (by omega)
    · intro k hk
      cases k with
      | zero =>
        have hsame := Store.read_write_same s.file.bytes a (s.fatRaw.bytes.read 0 s.fatRaw.size)
        rw [hlen] at hsame
        rw [Nat.zero_mul, Nat.add_zero, ← hsame]
        apply Store.read_congr
        intro i _ hi
        exact hframe i (.inl hi)
      | succ k =>
        have hrest := hfats k (by omega)
        rwa [Nat.succ_mul, Nat.add_comm (k * _), ← Nat.add_assoc]

/-- The sessions that `main` runs its commands in. -/
structure Session.Started (super : FatSuper) (s : Session) : Prop extends s.Ok super where
  fsInfoIndex : super.fsInfoIndex < super.reservedSectors
  fsinfo : s.fsinfo.length = 512
  raw : super.raw.length = 512

theorem Session.Started.kept (hs : s.Started super) (h : Kept super s s') :
    s'.Started super where
  toOk := hs.toOk.kept h
  fsInfoIndex := hs.fsInfoIndex
  fsinfo := by rw [h.fsinfo, hs.fsinfo]
  raw := hs.raw

/-- A sector of the reserved area. -/
theorem reserved_le (hl : Layout super image.size) {i : Nat} (hi : i < super.reservedSectors) :
    i * super.bytesPerSector + 512 ≤ fatStart super := by
  have hmul : (i + 1) * super.bytesPerSector ≤ super.reservedSectors * super.bytesPerSector :=
    Nat.mul_le_mul_right _ hi
  have hge := hl.bytesPerSector_ge
  rw [Nat.succ_mul] at hmul
  rw [fatStart]
  omega

/-- The image file `f` holds what the session has in memory: every FAT, and the
    data clusters. -/
structure Written (super : FatSuper) (s : Session) (f : ByteVec) : Prop where
  size : f.size = s.file.size
  fats : ∀ k < super.numFats,
    f.bytes.read (fatStart super + k * s.fatRaw.size) s.fatRaw.size =
      s.fatRaw.bytes.read 0 s.fatRaw.size
  data : ∀ i, dataStart super ≤ i → f.bytes i = s.file.bytes i

theorem dataStart_eq (hs : s.Ok super) :
    dataStart super = fatStart super + super.numFats * s.fatRaw.size := by
  rw [dataStart, fatStart, hs.fatSize]
  ring

/-- Writing to the reserved area changes nothing of it. -/
theorem Written.reserved {f : ByteVec} (hs : s.Ok super) (h : Written super s f) {a : Nat}
    {d : Bytes} (ha : a + d.length ≤ fatStart super) :
    Written super s { f with bytes := f.bytes.write a d } where
  size := h.size
  fats k hk := by
    rw [← h.fats k hk]
    apply Store.read_congr
    intro i hi _
    exact Store.write_apply_of_not_mem (by omega)
  data i hi := by
    rw [← h.data i hi]
    have hstart := dataStart_eq hs
    exact Store.write_apply_of_not_mem (by omega)

theorem writeToImage_ok (hs : s.Started super) (h : writeToImage super s = .ok () s') :
    Written super s s'.file := by
  have hl := hs.layout
  have hstart := dataStart_eq hs.toOk
  have hall := hl.clusters_le
  have hsmall := hl.small
  have hfits := hl.fits
  unfold writeToImage at h
  obtain ⟨_, s₁, hfats, h⟩ := bind_eq_ok.mp h
  have hpos : 0 < s.fatRaw.size := by
    rw [hs.fatSize]
    exact fat_pos hl
  obtain ⟨m, rfl, hframe, hcopies⟩ :=
    writeFats_ok hpos (show fatStart super + super.numFats * s.fatRaw.size ≤ s.file.size by omega)
      (by omega) hfats
  have hwritten : Written super s { s.file with bytes := m } :=
    ⟨rfl, hcopies, fun i hi => hframe i (.inr (by omega))⟩
  obtain ⟨next, s₂, hnext, h⟩ := bind_eq_ok.mp h
  obtain ⟨-, rfl⟩ := reading_eq_ok.mp hnext
  obtain ⟨free, s₃, hfree, h⟩ := bind_eq_ok.mp h
  obtain ⟨-, rfl⟩ := reading_eq_ok.mp hfree
  obtain ⟨s₄, s₅, hget, h⟩ := bind_eq_ok.mp h
  obtain ⟨rfl, rfl⟩ := EStateM.Result.ok.inj hget
  obtain ⟨_, s₆, hmod, h⟩ := bind_eq_ok.mp h
  obtain rfl := (EStateM.Result.ok.inj hmod).2
  -- the FS info sector lies in front of the FATs
  have hsector := reserved_le hl hs.fsInfoIndex
  have hfs := hs.fsinfo
  have hlen : (splice (splice s.fsinfo 492 (leBytes 4 next)) 488 (leBytes 4 free)).length = 512 := by
    have h₁ : (splice s.fsinfo 492 (leBytes 4 next)).length = 512 := by
      rw [length_splice, hfs]
      rw [length_leBytes, hfs]
      omega
    rw [length_splice, h₁]
    rw [length_leBytes, h₁]
    omega
  generalize splice (splice s.fsinfo 492 (leBytes 4 next)) 488 (leBytes 4 free) = d at h hlen
  have hne : d ≠ [] := by
    intro hnil
    rw [hnil] at hlen
    cases hlen
  obtain rfl := writeFile_i32_ok (a := super.fsInfoIndex * super.bytesPerSector) (by omega) hne
    (by dsimp only; omega) h
  exact hwritten.reserved hs.toOk (by omega)

theorem finish_ok (hs : s.Started super) (h : finish super s = .ok () s') :
    Written super s s'.file ∧ s'.file.bytes.read 0 512 = super.raw := by
  have hl := hs.layout
  have hstart := dataStart_eq hs.toOk
  have hall := hl.clusters_le
  have hsmall := hl.small
  have hfits := hl.fits
  have hraw := hs.raw
  have hfirst := reserved_le hl (Nat.zero_lt_of_lt hs.fsInfoIndex)
  rw [Nat.zero_mul] at hfirst
  unfold finish at h
  obtain ⟨_, s₁, himage, h⟩ := bind_eq_ok.mp h
  have h₁ := writeToImage_ok hs himage
  have hsize := h₁.size
  obtain ⟨_, s₂, hsuper, h⟩ := bind_eq_ok.mp h
  obtain rfl := writeFile_ok (by omega) hsuper
  have h₂ : Written super s { s₁.file with bytes := s₁.file.bytes.write 0 super.raw } :=
    h₁.reserved hs.toOk (by omega)
  have hread : (s₁.file.bytes.write 0 super.raw).read 0 512 = super.raw := by
    have hsame := Store.read_write_same s₁.file.bytes 0 super.raw
    rwa [hraw] at hsame
  split at h
  · next hbackup =>
    simp only [Bool.and_eq_true, decide_eq_true_eq] at hbackup
    -- the backup lies in the reserved area behind the first sector
    have hsector := reserved_le hl hbackup.2
    have hge : super.bytesPerSector ≤ super.backupIndex * super.bytesPerSector :=
      Nat.le_mul_of_pos_left _ hbackup.1
    have hbytes := hl.bytesPerSector_ge
    have hne : super.raw ≠ [] := by
      intro hnil
      rw [hnil] at hraw
      cases hraw
    obtain rfl := writeFile_i32_ok (a := super.backupIndex * super.bytesPerSector) (by omega) hne
      (by dsimp only; omega) h
    refine ⟨h₂.reserved hs.toOk (by omega), ?_⟩
    have hbehind : 0 + 512 ≤ super.backupIndex * super.bytesPerSector := by omega
    exact (Store.read_write_disjoint (.inl hbehind)).trans hread
  · obtain ⟨-, rfl⟩ := pure_eq_ok.mp h
    exact ⟨h₂, hread⟩

/-- The volume on disk is the one that was in memory. -/
theorem Written.view (hs : s.Ok super) {f : ByteVec} (h : Written super s f) :
    diskView super f = memView super s := by
  have hl := hs.layout
  have hfirst := h.fats 0 hl.numFats_pos
  rw [Nat.zero_mul, Nat.add_zero] at hfirst
  have hsize := hs.fatSize
  -- the first copy of the table is the one in memory
  have hentry : (diskView super f).entry = (memView super s).entry := by
    funext n
    have hmul := Layout.entries_mul_le super
    show (if n < fatEntries super then f.bytes.readLE (fatStart super + 4 * n) 4 else 0) =
      if n < fatEntries super then s.fatRaw.bytes.readLE (0 + 4 * n) 4 else 0
    by_cases hn : n < fatEntries super
    · rw [if_pos hn, if_pos hn, Store.readLE, Store.readLE]
      have hwin := Store.slice_read f.bytes (a := fatStart super) (o := 4 * n) (k := 4)
        (n := s.fatRaw.size) (by omega)
      rw [← hwin, hfirst, Store.slice_read _ (by omega)]
    · rw [if_neg hn, if_neg hn]
  -- writing the tables leaves the clusters alone
  have hdata : (diskView super f).data = (memView super s).data := by
    funext c
    show clusterData super f c = clusterData super s.file c
    unfold clusterData
    split
    · rfl
    · apply Store.read_congr
      intro i hi _
      exact h.data i (by omega)
  exact congrArg₂ (fun entry data => { memView super s with entry := entry, data := data })
    hentry hdata

/-! ## Section 4: main -/

/-- A well-formed image of a volume below 4 GiB. -/
structure TidyImage (image : ByteVec) : Prop where
  layout : Layout (imageSuper image) image.size
  tidy : (diskView (imageSuper image) image).Tidy

/-- The session that `main` starts with. -/
theorem start_ok (hl : Layout (imageSuper image) image.size) (h : start image = .ok (super, s)) :
    super = imageSuper image ∧ s.Started super ∧ s.file = image ∧
      memView super s = diskView super image := by
  unfold start at h
  obtain ⟨raw, hraw, h⟩ := except_bind_eq_ok.mp h
  obtain ⟨s₀, hload, h⟩ := except_bind_eq_ok.mp h
  obtain ⟨hsuper, rfl⟩ := Prod.mk.inj (Except.ok.inj h)
  have hraw := readAt_ok hraw
  have heq : super = imageSuper image := by rw [← hsuper, hraw, imageSuper]
  have hlen : super.raw.length = 512 := by rw [heq, imageSuper, Store.length_read]
  rw [hsuper] at hload
  rw [← heq] at hl
  obtain ⟨hok, hfile, hview⟩ := loadFromImage_view hl hload
  obtain ⟨hindex, hfsinfo⟩ := loadFromImage_fsinfo hload
  exact ⟨heq, ⟨hok, hindex, hfsinfo, hlen⟩, hfile, hview⟩

/-- A program that never refuses: its only errors are exceptions. -/
def NeverRefuses {α : Type} (x : M α) : Prop :=
  ∀ s, Holds x s (fun _ _ => True) fun e _ => ∃ x, e = .throw x

theorem NeverRefuses.bind {α β : Type} {x : M α} {f : α → M β} (hx : NeverRefuses x)
    (hf : ∀ a, NeverRefuses (f a)) : NeverRefuses (x >>= f) := by
  intro s
  apply holds_bind
  apply (hx s).mono
  · intro a s₁ _
    exact hf a s₁
  · intro e s₁ h
    exact h

theorem neverRefuses_pure {α : Type} (a : α) : NeverRefuses (pure a) := by
  intro s
  exact holds_pure trivial

theorem neverRefuses_writeFile (offset : Nat) (d : Bytes) : NeverRefuses (writeFile offset d) := by
  intro s
  unfold Holds writeFile ByteVec.writeAt
  split_ifs
  · trivial
  · exact ⟨_, rfl⟩
  · trivial

theorem nextClusterInFile_throws {N : Nat} {e : Fail} (h : nextClusterInFile s N = .error e) :
    ∃ x, e = .throw x := by
  unfold nextClusterInFile at h
  dsimp only at h
  split at h
  · cases h
  · exact ⟨_, (Except.error.inj h).symm⟩

theorem findFreeLoop_throws {n i : Nat} {e : Fail} (h : findFreeLoop s n i = .error e) :
    ∃ x, e = .throw x := by
  induction n generalizing i with
  | zero => cases h
  | succ n ih =>
    unfold findFreeLoop at h
    cases hnext : nextClusterInFile s i with
    | error f =>
      rw [hnext] at h
      obtain rfl := Except.error.inj h
      exact nextClusterInFile_throws hnext
    | ok c =>
      rw [hnext] at h
      dsimp only [bind, Except.bind] at h
      split at h
      · cases h
      · exact ih h

theorem countFreeLoop_throws {n i : Nat} {e : Fail} (h : countFreeLoop s n i = .error e) :
    ∃ x, e = .throw x := by
  induction n generalizing i with
  | zero => cases h
  | succ n ih =>
    unfold countFreeLoop at h
    cases hnext : nextClusterInFile s i with
    | error f =>
      rw [hnext] at h
      obtain rfl := Except.error.inj h
      exact nextClusterInFile_throws hnext
    | ok c =>
      rw [hnext] at h
      cases hrest : countFreeLoop s n (i + 1) with
      | error f =>
        rw [hrest] at h
        obtain rfl := Except.error.inj h
        exact ih hrest
      | ok count =>
        rw [hrest] at h
        cases h

theorem neverRefuses_reading {α : Type} {f : Session → Except Fail α}
    (hf : ∀ s e, f s = .error e → ∃ x, e = .throw x) : NeverRefuses (reading f) := by
  intro s
  apply holds_reading
  · intro a _
    trivial
  · intro e he
    exact hf s e he

theorem neverRefuses_modify (f : Session → Session) : NeverRefuses (modify f) := by
  intro s
  exact holds_modify trivial

theorem neverRefuses_get : NeverRefuses (get : M Session) := by
  intro s
  exact holds_get trivial

theorem neverRefuses_writeFats (n : Nat) (offset : Int) : NeverRefuses (writeFats n offset) := by
  induction n generalizing offset with
  | zero => exact neverRefuses_pure ()
  | succ n ih =>
    unfold writeFats
    exact neverRefuses_get.bind fun _ => (neverRefuses_writeFile _ _).bind fun _ => ih _

theorem numFreeClusters_throws {e : Fail} (h : numFreeClusters s = .error e) :
    ∃ x, e = .throw x := by
  unfold numFreeClusters at h
  cases hcount : countFreeLoop s (s.fatRaw.size / 4) 0 with
  | error f =>
    rw [hcount] at h
    obtain rfl := Except.error.inj h
    exact countFreeLoop_throws hcount
  | ok count =>
    rw [hcount] at h
    cases h

theorem neverRefuses_finish (super : FatSuper) : NeverRefuses (finish super) := by
  unfold finish writeToImage
  apply NeverRefuses.bind
  · apply (neverRefuses_writeFats _ _).bind
    intro _
    apply (neverRefuses_reading fun _ _ h => findFreeLoop_throws h).bind
    intro _
    apply (neverRefuses_reading fun _ _ h => numFreeClusters_throws h).bind
    intro _
    apply neverRefuses_get.bind
    intro _
    exact (neverRefuses_modify _).bind fun _ => neverRefuses_writeFile _ _
  · intro _
    apply (neverRefuses_writeFile _ _).bind
    intro _
    split
    · exact neverRefuses_writeFile _ _
    · exact neverRefuses_pure ()

/-- A run of `main` that comes to its end: loading, the commands, writing back. -/
theorem main_ok {input : List (Bytes × Host)} (h : main image input = .ok () image') :
    ∃ super s s₁ s₂, start image = .ok (super, s) ∧ runLines super input s = .ok () s₁ ∧
      finish super s₁ = .ok () s₂ ∧ image' = s₂.file := by
  unfold main at h
  cases hstart : start image with
  | error e =>
    rw [hstart] at h
    cases e with
    | refuse msg => cases h
    | throw x => cases h
  | ok it =>
    obtain ⟨super, s⟩ := it
    rw [hstart] at h
    dsimp only at h
    split at h
    · next s₂ hrun =>
      obtain ⟨_, s₁, hlines, hfinish⟩ := bind_eq_ok.mp hrun
      have himage := (EStateM.Result.ok.inj h).2
      unfold handled at hfinish
      cases hend : finish super s₁ with
      | ok _ s₃ =>
        rw [hend] at hfinish
        obtain rfl : s₃ = s₂ := (EStateM.Result.ok.inj hfinish).2
        exact ⟨super, s, s₁, s₃, rfl, hlines, hend, himage.symm⟩
      -- an exception passes through `handled`, so `main` does not return
      | error e s₃ =>
        obtain ⟨x, rfl⟩ := (neverRefuses_finish super s₁).of_error hend
        rw [hend] at hfinish
        cases hfinish
    · cases h

/-- What holds in the sessions of a run holds of the volume on disk after it. -/
theorem main_view (hl : Layout (imageSuper image) image.size) {input : List (Bytes × Host)}
    (hwf : (diskView (imageSuper image) image).WellFormed) (h : main image input = .ok () image') :
    imageSuper image' = imageSuper image ∧ image'.size = image.size ∧
      ∃ s s', start image = .ok (imageSuper image, s) ∧ s.Sound (imageSuper image) ∧
        memView (imageSuper image) s = diskView (imageSuper image) image ∧
        runLines (imageSuper image) input s = .ok () s' ∧
        diskView (imageSuper image') image' = memView (imageSuper image) s' := by
  obtain ⟨super, s, s₁, s₂, hstart, hlines, hfinish, rfl⟩ := main_ok h
  obtain ⟨rfl, hstarted, hfile, hview⟩ := start_ok hl hstart
  rw [← hview] at hwf
  have hsound : s.Sound (imageSuper image) := ⟨hstarted.toOk, hwf⟩
  have hkept := runLines_kept hsound hlines
  obtain ⟨hwritten, hraw⟩ := finish_ok (hstarted.kept hkept) hfinish
  have hsuper : imageSuper s₂.file = imageSuper image := by
    rw [imageSuper, hraw]
  refine ⟨hsuper, ?_, s, s₁, hstart, hsound, hview, hlines, ?_⟩
  · rw [hwritten.size, hkept.size, hfile]
  · rw [hsuper]
    exact hwritten.view (hstarted.toOk.kept hkept)

/-- **Sessions keep images well formed**: whatever the commands are, and
    whatever the input files contain, a run of `main` that comes to its end
    makes a well-formed image of a well-formed image. -/
theorem main_tidy {input : List (Bytes × Host)} (himage : TidyImage image)
    (h : main image input = .ok () image') : TidyImage image' := by
  obtain ⟨hsuper, hsize, s, s', -, hsound, hview, hlines, hview'⟩ :=
    main_view himage.layout himage.tidy.toWellFormed h
  have htidy : (memView (imageSuper image) s).Tidy := by
    rw [hview]
    exact himage.tidy
  have htidy' := runLines_tidy hsound.toOk htidy hlines
  refine ⟨?_, ?_⟩
  · rw [hsuper, hsize]
    exact himage.layout
  · rw [hview']
    exact htidy'

/-- A freshly formatted image with six clusters of 512 bytes. -/
def freshImage : ByteVec :=
  sparseFile (9 * 512) ([(0, smallSuper 2 9 1)] ++ fsInfoParts ++
    [(1024, leBytes 4 0x0FFFFFF8 ++ leBytes 4 0x0FFFFFFF ++ leBytes 4 0x0FFFFFFF)])

/-- Behind its end, the FAT has no entries. -/
theorem diskView_entry_of_ge {f : ByteVec} {n : Nat} (hn : fatEntries super ≤ n) :
    (diskView super f).entry n = 0 :=
  if_neg (Nat.not_lt.mpr hn)

set_option maxRecDepth 3000

theorem freshImage_layout : Layout (imageSuper freshImage) freshImage.size where
  sectorsPerCluster_pos := by decide
  bytesPerSector_ge := by decide
  numFats_pos := by decide
  area := by decide
  small := by decide
  fits := by decide
  entries := by decide

theorem length_clusterData {c : Nat} (hc : 2 ≤ c) (f : ByteVec) :
    (clusterData super f c).length = bytesPerCluster super := by
  rw [clusterData, if_neg (by omega), Store.length_read]

theorem freshImage_fresh : (diskView (imageSuper freshImage) freshImage).Fresh where
  clusterSize_pos := freshImage_layout.bytesPerCluster_pos
  count_lt := freshImage_layout.dataClusters_lt
  length_data c hc := length_clusterData hc freshImage
  reserved0 := by decide
  reserved1 := by decide
  root_valid := by
    constructor
    · decide
    · decide
  root_last := by decide
  root_empty := by decide
  free := by
    intro c hc hroot
    have hcount : (diskView (imageSuper freshImage) freshImage).count = 6 := by decide
    have hroot2 : (diskView (imageSuper freshImage) freshImage).root = 2 := by decide
    have hall : ∀ c < 8, 2 < c → (diskView (imageSuper freshImage) freshImage).next c = 0 := by
      decide
    obtain ⟨hlo, hhi⟩ := hc
    exact hall c (by omega) (by omega)

theorem freshImage_tidy : TidyImage freshImage where
  layout := freshImage_layout
  tidy := by
    apply freshImage_fresh.tidy
    intro n
    have htable : ∀ n < 128, (diskView (imageSuper freshImage) freshImage).entry n < 2 ^ 28 := by
      decide
    have hentries : fatEntries (imageSuper freshImage) = 128 := by decide
    by_cases hn : n < 128
    · exact htable n hn
    · rw [diskView_entry_of_ge (by rw [hentries]; omega)]
      exact Nat.two_pow_pos 28

/-- A session that makes two directories. -/
def mkdirSession : List (Bytes × Host) :=
  [(lit "mkdir BOOT", fun _ => none), (lit "mkdir BOOT/SUB", fun _ => none)]

theorem main_tidy_fresh :
    ∃ image', main freshImage mkdirSession = .ok () image' ∧ TidyImage image' := by
  have hend : (result (main freshImage mkdirSession)).isSome = true := by decide +kernel
  obtain ⟨⟨_, image'⟩, hresult⟩ := Option.isSome_iff_exists.mp hend
  have hrun := result_eq_some.mp hresult
  exact ⟨image', hrun, main_tidy freshImage_tidy hrun⟩

end Hausboot.FatEdit

import Hausboot.FatEdit.View
import Hausboot.Install.Runs

/-! # The installfat Tool: All or Nothing

    What a run leaves on the image and what its exit status says about it. An
    exception ends in `EXIT_SUCCESS`, and the first sectors are written before
    the stage 2 file has been read; so a run is all or nothing exactly if
    nothing throws and a refused stage 2 file finds both sectors as they are
    written anyway. -/

open ByteLib

namespace Hausboot.Install

open FatEdit (ByteVec u64OfInt)

/-! ## Section 1: The stage 2 file -/

/-- The header on top of the contents verifies. -/
def HeaderOk (c : Bytes) : Prop :=
  (makeHeader (fileVec c)).verify (makeHeader (fileVec c)).sectorCount = true

/-- What goes to the image. -/
def stage2Bytes (c : Bytes) : Bytes := (makeHeader (fileVec c)).raw.take c.length

def Accepted (super : FatSuper) (f : HostFile) : Prop :=
  f.Fits (maxSize super) ∧ HeaderOk f.contents

def Refused (super : FatSuper) (f : HostFile) : Prop :=
  f.TooBig (maxSize super) ∨ f.Fits (maxSize super) ∧ ¬ HeaderOk f.contents

/-- The run has given up the stage 2 file. -/
def Stop.rejectsStage2 : Stop → Bool
  | .tooBig .stage2 _ | .verification | .openFile .stage2 | .readFile .stage2 => true
  | _ => false

variable {h : Host} {super : FatSuper}

theorem length_fileVec (c : Bytes) : (fileVec c).storage.length = c.length + 1024 := by
  rw [fileVec, List.length_append, List.length_replicate]

theorem length_makeHeader (c : Bytes) :
    (makeHeader (fileVec c)).raw.length = c.length + 1024 := by
  have hlen : Stage2Header.sizeof ≤ (fileVec c).storage.length := by
    rw [length_fileVec, show Stage2Header.sizeof = 28 from rfl]
    omega
  have hinit := @Stage2Header.length_init ⟨(fileVec c).storage⟩ hlen
  have hcount := Stage2Header.length_setSectorCount (hinit ▸ hlen) (fileVec c).size
  rw [makeHeader, Stage2Header.length_updateChecksum (by rw [hcount, hinit]; exact hlen), hcount,
    hinit, length_fileVec]

theorem length_stage2Bytes (c : Bytes) : (stage2Bytes c).length = c.length := by
  rw [stage2Bytes, List.length_take, length_makeHeader]
  omega

theorem loadStage2_of_fits {f : HostFile} (hf : h.stage2 = some f) (hfits : f.Fits (maxSize super)) :
    loadStage2 h super =
      if !(makeHeader (fileVec f.contents)).verify (makeHeader (fileVec f.contents)).sectorCount then
        .error .verification
      else .ok (stage2Bytes f.contents) := by
  rw [loadStage2, hf, readAll_of_fits hfits]
  simp only [bind, Except.bind, stage2Bytes, fileVec]

theorem loadStage2_of_accepted {f : HostFile} (hf : h.stage2 = some f) (hacc : Accepted super f) :
    loadStage2 h super = .ok (stage2Bytes f.contents) := by
  have hok : (makeHeader (fileVec f.contents)).verify
      (makeHeader (fileVec f.contents)).sectorCount = true := hacc.2
  rw [loadStage2_of_fits hf hacc.1, hok, if_neg (by decide)]

theorem loadStage2_of_refused {f : HostFile} (hf : h.stage2 = some f) (href : Refused super f) :
    ∃ e, loadStage2 h super = .error e ∧ e.isException = false ∧ e.rejectsStage2 = true := by
  rcases href with hbig | ⟨hfits, hbad⟩
  · rw [loadStage2, hf, readAll_of_tooBig hbig]
    exact ⟨_, rfl, rfl, rfl⟩
  · rw [loadStage2_of_fits hf hfits, if_pos (by simpa [HeaderOk] using hbad)]
    exact ⟨.verification, rfl, rfl, rfl⟩

/-- The three ways in which the stage 2 file is taken. -/
theorem stage2_cases (h : Host) (super : FatSuper) :
    (∃ f, h.stage2 = some f ∧ Accepted super f) ∨ (∃ f, h.stage2 = some f ∧ Refused super f) ∨
    (∀ f, h.stage2 = some f → ¬ Accepted super f ∧ ¬ Refused super f) ∧
      ∃ e, loadStage2 h super = .error e ∧ e.isException = true := by
  rcases readAll_cases .stage2 h.stage2 (maxSize super) with
    ⟨f, hf, hfits⟩ | ⟨f, hf, hbig⟩ | ⟨hneither, e, hread, he⟩
  · by_cases hok : HeaderOk f.contents
    · exact .inl ⟨f, hf, hfits, hok⟩
    · exact .inr (.inl ⟨f, hf, .inr ⟨hfits, hok⟩⟩)
  · exact .inr (.inl ⟨f, hf, .inl hbig⟩)
  · refine .inr (.inr ⟨?_, e, ?_, ?_⟩)
    · intro f hf
      obtain ⟨hfits, hbig⟩ := hneither f hf
      refine ⟨fun hacc => hfits hacc.1, ?_⟩
      rintro (hbig' | ⟨hfits', -⟩)
      · exact hbig hbig'
      · exact hfits hfits'
    · rw [loadStage2, hread]
      rfl
    · rcases he with rfl | rfl
      · rfl
      · rfl

/-! ## Section 2: All or nothing -/

/-- The super block, the FS info sector and stage 2 have been written, and the
    header of stage 2 verifies. -/
def Installed (h : Host) (s : State) : Prop :=
  ∃ super fsinfo vbr stage2, ImageRead h super fsinfo ∧ h.vbr = some vbr ∧
    h.stage2 = some stage2 ∧ HeaderOk stage2.contents ∧
    s.written = [(0, (newSuper super vbr.contents).raw), (super.bytesPerSector, fsinfo),
      (2 * super.bytesPerSector, stage2Bytes stage2.contents)]

structure AllOrNothing (h : Host) : Prop where
  success : (main h).1 = .success → Installed h (main h).2
  rejected : ∀ e s, install h (start h) = .error e s → e.rejectsStage2 = true → s.image = h.image

/-- The `i`th write, of `n` bytes, does not fail. -/
def Host.WritesAll (h : Host) (i n : Nat) : Prop := h.transfers i n = n

/-- Nothing throws, and where the stage 2 file is refused, writing the super
    block and the FS info sector changes nothing. -/
def Clean (h : Host) : Prop :=
  ∃ super fsinfo vbr, ImageRead h super fsinfo ∧ h.vbr = some vbr ∧
    (vbr.TooBig 420 ∨ vbr.Fits 420 ∧ h.WritesAll 0 512 ∧ h.WritesAll 1 512 ∧
      ∃ stage2, h.stage2 = some stage2 ∧
        (Accepted super stage2 ∧ h.WritesAll 2 stage2.contents.length ∨
          Refused super stage2 ∧
            (withFsInfo h (newSuper super vbr.contents) fsinfo).image = h.image))

theorem ImageRead.unique {super' : FatSuper} {fsinfo fsinfo' : Bytes}
    (hr : ImageRead h super fsinfo) (hr' : ImageRead h super' fsinfo') :
    super' = super ∧ fsinfo' = fsinfo := by
  have hraw := Except.ok.inj (hr'.superBytes.symm.trans hr.superBytes)
  obtain rfl : super' = super := by
    cases super'
    cases super
    exact congrArg FatSuper.mk hraw
  exact ⟨rfl, Except.ok.inj (hr'.fsinfoBytes.symm.trans hr.fsinfoBytes)⟩

theorem ImageRead.length_super {fsinfo : Bytes} (hr : ImageRead h super fsinfo) :
    super.raw.length = 512 := by
  rw [FatEdit.readAt_ok hr.superBytes, Store.length_read]

theorem ImageRead.length_fsinfo {fsinfo : Bytes} (hr : ImageRead h super fsinfo) :
    fsinfo.length = 512 := by
  rw [FatEdit.readAt_ok hr.fsinfoBytes, Store.length_read]

theorem maxSize_newSuper (hlen : super.raw.length = 512) (vbr : Bytes) :
    maxSize (newSuper super vbr) = maxSize super := by
  rw [maxSize, maxSize, bytesPerSector_newSuper hlen, reservedSectors_newSuper hlen]

theorem main_of_error {e : Stop} {s : State} (hrun : install h (start h) = .error e s) :
    main h = (if e.isException then .success else .failure, s) := by
  unfold main
  rw [hrun]

/-- An exception is reported as a success. -/
theorem not_allOrNothing {e : Stop} {s : State} (hrun : install h (start h) = .error e s)
    (he : e.isException = true) (hs : ¬ Installed h s) : ¬ AllOrNothing h := by
  intro hall
  have hsuccess := hall.success
  rw [main_of_error hrun, if_pos he] at hsuccess
  exact hs (hsuccess rfl)

/-- A run that is refused has to leave the image alone. -/
theorem allOrNothing_of_failure {e : Stop} {s : State} (hrun : install h (start h) = .error e s)
    (he : e.isException = false) :
    AllOrNothing h ↔ (e.rejectsStage2 = true → s.image = h.image) := by
  constructor
  · intro hall hrej
    exact hall.rejected e s hrun hrej
  · intro himage
    refine ⟨?_, ?_⟩
    · rw [main_of_error hrun, he]
      intro hsuccess
      cases hsuccess
    · intro e' s' hrun' hrej
      rw [hrun] at hrun'
      cases hrun'
      exact himage hrej

theorem allOrNothing_of_ok {s : State} (hrun : install h (start h) = .ok () s)
    (hs : Installed h s) : AllOrNothing h := by
  have hmain : main h = (.success, s) := by
    unfold main
    rw [hrun]
  refine ⟨?_, ?_⟩
  · intro _
    rw [hmain]
    exact hs
  · intro e s' hrun'
    rw [hrun] at hrun'
    cases hrun'

theorem Installed.length_written {s : State} (hs : Installed h s) : s.written.length = 3 := by
  obtain ⟨_, _, _, _, -, -, -, -, hwritten⟩ := hs
  rw [hwritten]
  rfl

section Prepared

variable {fsinfo : Bytes} {vbr : HostFile}

/-- Behind a VBR file that fits, the condition is about the rest of the run. -/
theorem clean_of_fits (hr : ImageRead h super fsinfo) (hv : h.vbr = some vbr)
    (hfits : vbr.Fits 420) :
    Clean h ↔ h.WritesAll 0 512 ∧ h.WritesAll 1 512 ∧ ∃ stage2, h.stage2 = some stage2 ∧
      (Accepted super stage2 ∧ h.WritesAll 2 stage2.contents.length ∨ Refused super stage2 ∧
        (withFsInfo h (newSuper super vbr.contents) fsinfo).image = h.image) := by
  constructor
  · rintro ⟨super', fsinfo', vbr', hr', hv', hclean⟩
    obtain ⟨rfl, rfl⟩ := hr.unique hr'
    obtain rfl := Option.some.inj (hv.symm.trans hv')
    exact (hclean.resolve_left (HostFile.not_tooBig_of_fits hfits)).2
  · intro hrest
    exact ⟨super, fsinfo, vbr, hr, hv, .inr ⟨hfits, hrest⟩⟩

theorem prepare_of_fits (hr : ImageRead h super fsinfo) (hv : h.vbr = some vbr)
    (hfits : vbr.Fits 420) : prepare h = .ok (newSuper super vbr.contents, fsinfo) := by
  rw [hr.prepare_eq, hv, readAll_of_fits hfits]
  show Except.ok (newSuper super (fileVec vbr.contents).contents, fsinfo) = _
  rw [Vec.contents, fileVec, List.take_left]

theorem refused_newSuper (hr : ImageRead h super fsinfo) (vbr : Bytes) (f : HostFile) :
    (Accepted (newSuper super vbr) f ↔ Accepted super f) ∧
    (Refused (newSuper super vbr) f ↔ Refused super f) := by
  unfold Accepted Refused
  rw [maxSize_newSuper hr.length_super]
  exact ⟨Iff.rfl, Iff.rfl⟩

theorem not_refused_of_accepted {f : HostFile} (hacc : Accepted super f) : ¬ Refused super f := by
  rintro (hbig | ⟨-, hbad⟩)
  · exact HostFile.not_tooBig_of_fits hacc.1 hbig
  · exact hbad hacc.2

/-- What has been written once stage 2 has been written, or a part of it. -/
theorem written_withStage2 (hr : ImageRead h super fsinfo) (v d : Bytes)
    (h0 : h.WritesAll 0 512) (h1 : h.WritesAll 1 512) :
    (withStage2 h (newSuper super v) fsinfo d).written =
      [(0, (newSuper super v).raw), (super.bytesPerSector, fsinfo),
        (2 * super.bytesPerSector, d.take (h.transfers 2 d.length))] := by
  have hlen := length_newSuper hr.length_super v
  have hlen' := hr.length_fsinfo
  have hbps := bytesPerSector_newSuper hr.length_super v
  rw [Host.WritesAll] at h0 h1
  simp only [withStage2, withFsInfo, withSuper, State.after, start, List.length_nil,
    List.nil_append, List.length_cons,
    List.cons_append, Nat.zero_add, Nat.reduceAdd, hlen, hlen', hbps, h0, h1]
  rw [List.take_of_length_le (Nat.le_of_eq hlen), List.take_of_length_le (Nat.le_of_eq hlen')]

theorem exact_allOrNothing (hr : ImageRead h super fsinfo) (hv : h.vbr = some vbr)
    (hfits : vbr.Fits 420) : AllOrNothing h ↔ Clean h := by
  rw [clean_of_fits hr hv hfits]
  have hlen := length_newSuper hr.length_super vbr.contents
  have hlen' := hr.length_fsinfo
  have hrun := install_eq h
  rw [prepare_of_fits hr hv hfits] at hrun
  simp only [hlen, hlen'] at hrun
  have hle0 := transfers_le h 0 512
  have hle1 := transfers_le h 1 512
  by_cases h0 : h.transfers 0 512 < 512
  · -- the super block is cut off
    rw [if_pos h0] at hrun
    have hnot := not_allOrNothing hrun rfl fun hs => nomatch hs.length_written
    exact iff_of_false hnot fun hclean => by have := hclean.1; rw [Host.WritesAll] at this; omega
  by_cases h1 : h.transfers 1 512 < 512
  · -- the FS info sector is cut off
    rw [if_neg h0, if_pos h1] at hrun
    have hnot := not_allOrNothing hrun rfl fun hs => nomatch hs.length_written
    exact iff_of_false hnot fun hclean => by have := hclean.2.1; rw [Host.WritesAll] at this; omega
  have hw0 : h.WritesAll 0 512 := by
    rw [Host.WritesAll]
    omega
  have hw1 : h.WritesAll 1 512 := by
    rw [Host.WritesAll]
    omega
  rw [if_neg h0, if_neg h1] at hrun
  obtain ⟨hacc_iff, href_iff⟩ := And.intro
    (fun f => (refused_newSuper hr vbr.contents f).1) fun f => (refused_newSuper hr vbr.contents f).2
  rcases stage2_cases h (newSuper super vbr.contents) with
    ⟨f, hf, hacc⟩ | ⟨f, hf, href⟩ | ⟨hneither, e, hload, he⟩
  · rw [loadStage2_of_accepted hf hacc] at hrun
    simp only [length_stage2Bytes] at hrun
    have hwritten := written_withStage2 hr vbr.contents (stage2Bytes f.contents) hw0 hw1
    have hle2 := transfers_le h 2 f.contents.length
    rw [length_stage2Bytes] at hwritten
    by_cases h2 : h.transfers 2 f.contents.length < f.contents.length
    · rw [if_pos h2] at hrun
      have hnot : ¬ Installed h (withStage2 h (newSuper super vbr.contents) fsinfo
          (stage2Bytes f.contents)) := by
        rintro ⟨_, _, _, f', -, -, hf', -, hwritten'⟩
        obtain rfl := Option.some.inj (hf.symm.trans hf')
        rw [hwritten] at hwritten'
        have hthird := (List.cons.inj (List.cons.inj (List.cons.inj hwritten').2).2).1
        have hcut := congrArg List.length (Prod.mk.inj hthird).2
        rw [List.length_take, length_stage2Bytes] at hcut
        omega
      refine iff_of_false (not_allOrNothing hrun rfl hnot) ?_
      rintro ⟨-, -, f', hf', hrest⟩
      obtain rfl := Option.some.inj (hf.symm.trans hf')
      rcases hrest with ⟨-, hw2⟩ | ⟨href, -⟩
      · rw [Host.WritesAll] at hw2
        omega
      · exact not_refused_of_accepted ((hacc_iff f).mp hacc) href
    · rw [if_neg h2] at hrun
      have hw2 : h.WritesAll 2 f.contents.length := by
        rw [Host.WritesAll]
        omega
      rw [hw2, List.take_of_length_le (Nat.le_of_eq (length_stage2Bytes _))] at hwritten
      refine iff_of_true ?_ ⟨hw0, hw1, f, hf, .inl ⟨(hacc_iff f).mp hacc, hw2⟩⟩
      exact allOrNothing_of_ok hrun ⟨super, fsinfo, vbr, f, hr, hv, hf, hacc.2, hwritten⟩
  · obtain ⟨e, hload, he, hrej⟩ := loadStage2_of_refused hf href
    rw [hload] at hrun
    rw [allOrNothing_of_failure hrun he]
    constructor
    · intro himage
      exact ⟨hw0, hw1, f, hf, .inr ⟨(href_iff f).mp href, himage hrej⟩⟩
    · rintro ⟨-, -, f', hf', hrest⟩ -
      obtain rfl := Option.some.inj (hf.symm.trans hf')
      rcases hrest with ⟨hacc, -⟩ | ⟨-, himage⟩
      · exact absurd ((href_iff f).mp href) (not_refused_of_accepted hacc)
      · exact himage
  · rw [hload] at hrun
    have hnot := not_allOrNothing hrun he fun hs => nomatch hs.length_written
    refine iff_of_false hnot ?_
    rintro ⟨-, -, f, hf, ⟨hacc, -⟩ | ⟨href, -⟩⟩
    · exact (hneither f hf).1 ((hacc_iff f).mpr hacc)
    · exact (hneither f hf).2 ((href_iff f).mpr href)

end Prepared

/-- **All or nothing**: the exit status and the image tell the truth if and
    only if the run is clean. -/
theorem allOrNothing_iff (h : Host) : AllOrNothing h ↔ Clean h := by
  rcases imageRead_cases h with ⟨super, fsinfo, hr⟩ | ⟨hnone, e, hprep, he⟩
  · rcases readAll_cases .vbr h.vbr 420 with ⟨f, hf, hfits⟩ | ⟨f, hf, hbig⟩ |
      ⟨hneither, e, hread, he⟩
    · exact exact_allOrNothing hr hf hfits
    · -- the VBR file is too big
      have hrun : install h (start h) = .error (.tooBig .vbr 420) (start h) := by
        rw [install_eq, hr.prepare_eq, hf, readAll_of_tooBig hbig]
        rfl
      rw [allOrNothing_of_failure hrun rfl]
      constructor
      · intro _
        exact ⟨super, fsinfo, f, hr, hf, .inl hbig⟩
      · intro _ hrej
        cases hrej
    · -- the VBR file cannot be read
      have hrun : install h (start h) = .error e (start h) := by
        rw [install_eq, hr.prepare_eq, hread]
        rfl
      have hex : e.isException = true := by
        rcases he with rfl | rfl
        · rfl
        · rfl
      have hnot := not_allOrNothing hrun hex fun hs => nomatch hs.length_written
      refine iff_of_false hnot ?_
      rintro ⟨_, _, vbr, -, hv, hclean⟩
      obtain ⟨hfits, hbig⟩ := hneither vbr hv
      rcases hclean with hbig' | ⟨hfits', -⟩
      · exact hbig hbig'
      · exact hfits hfits'
  · -- the image cannot be read
    have hrun : install h (start h) = .error e (start h) := by rw [install_eq, hprep]
    have hex : e.isException = true := by
      rcases he with rfl | rfl
      · rfl
      · rfl
    have hnot := not_allOrNothing hrun hex fun hs => nomatch hs.length_written
    refine iff_of_false hnot ?_
    rintro ⟨super, fsinfo, _, hr, -⟩
    exact hnone super fsinfo hr

/-- A host on which nothing fails. -/
def sampleHost (image : ByteVec) (stage2 : Option HostFile) : Host where
  image := image
  imageOpens := true
  vbr := some ⟨[], false⟩
  stage2 := stage2
  readFault _ := false
  writeFault _ := none

/-- An image with so many reserved sectors. -/
def sampleImage (reserved : Nat) : ByteVec :=
  FatEdit.sparseFile 32768 ((0, FatEdit.smallSuper reserved 64 1) :: FatEdit.fsInfoParts)

set_option maxRecDepth 3000

/-- Without a stage 2 file the run is a success, and has changed the image. -/
theorem success_without_stage2 :
    (main (sampleHost (sampleImage 32) none)).1 = .success ∧
    (main (sampleHost (sampleImage 32) none)).2.image.bytes 0 ≠ (sampleImage 32).bytes 0 ∧
    ¬ AllOrNothing (sampleHost (sampleImage 32) none) := by
  have hexit : (main (sampleHost (sampleImage 32) none)).1 = .success := by decide
  refine ⟨hexit, by decide, ?_⟩
  intro hall
  obtain ⟨_, _, _, _, -, -, hstage2, -⟩ := hall.success hexit
  cases hstage2

/-! ## Section 3: The reserved area -/

/-- Every byte that has been written lies in the reserved sectors. -/
def WritesInside (h : Host) : Prop :=
  ∀ super fsinfo, ImageRead h super fsinfo → ∀ w ∈ (main h).2.written,
    w.2 ≠ [] → w.1 + w.2.length ≤ super.reservedSectors * super.bytesPerSector

/-- As far as the run gets, there is a reserved sector for the super block, one
    for the FS info sector, and room for stage 2: the limit has not overflowed,
    or the file is short enough. -/
def StaysInside (h : Host) : Prop :=
  ∀ super fsinfo vbr, ImageRead h super fsinfo → h.vbr = some vbr → vbr.Fits 420 →
    (0 < h.transfers 0 512 → 1 ≤ super.reservedSectors) ∧
    (h.WritesAll 0 512 → 0 < h.transfers 1 512 → 2 ≤ super.reservedSectors) ∧
    (h.WritesAll 0 512 → h.WritesAll 1 512 → ∀ f, h.stage2 = some f → Accepted super f →
      (super.reservedSectors - 2) * super.bytesPerSector < 2 ^ 31 ∨
      h.transfers 2 f.contents.length ≤ (super.reservedSectors - 2) * super.bytesPerSector)

theorem maxSize_eq (h2 : 2 ≤ super.reservedSectors)
    (hsmall : (super.reservedSectors - 2) * super.bytesPerSector < 2 ^ 31) :
    maxSize super = (super.reservedSectors - 2) * super.bytesPerSector := by
  have hint : ((super.reservedSectors : Int) - 2) * super.bytesPerSector =
      ((super.reservedSectors - 2) * super.bytesPerSector : Nat) := by
    push_cast [Nat.cast_sub h2]
    rfl
  rw [maxSize, hint]
  generalize (super.reservedSectors - 2) * super.bytesPerSector = n at hsmall
  have hi32 := i32_of_lt hsmall
  unfold i32 at hi32
  rw [hi32, u64OfInt]
  omega

theorem main_state (h : Host) :
    (main h).2 = match install h (start h) with
      | .ok _ s => s
      | .error _ s => s := by
  unfold main
  cases install h (start h) with
  | ok _ s => rfl
  | error e s => rfl

/-- A write of `n` bytes that starts `k` sectors behind the start of the image,
    in a sector of at least `n` bytes. -/
theorem sector_inside_iff {k n r bps : Nat} (hn : n ≤ bps) :
    (0 < n → k * bps + n ≤ r * bps) ↔ (0 < n → k + 1 ≤ r) := by
  constructor
  · intro h hpos
    by_contra hlt
    have hle : r * bps ≤ k * bps := Nat.mul_le_mul_right _ (by omega)
    have hend := h hpos
    omega
  · intro h hpos
    have hle : (k + 1) * bps ≤ r * bps := Nat.mul_le_mul_right _ (h hpos)
    rw [Nat.succ_mul] at hle
    omega

/-- The same for the part of `d` that a write has transferred. -/
theorem take_inside_iff {o t x : Nat} {d : Bytes} (ht : t ≤ d.length) :
    (d.take t ≠ [] → o + (d.take t).length ≤ x) ↔ (0 < t → o + t ≤ x) := by
  have hlen : (d.take t).length = t := by
    rw [List.length_take]
    omega
  rw [← List.length_pos_iff, hlen]

theorem writesInside_of_nil (hnil : (main h).2.written = []) : WritesInside h := by
  intro super fsinfo _ w hw
  rw [hnil] at hw
  cases hw

/-- A run that ends before the first write. -/
theorem written_of_error {e : Stop} (hprep : prepare h = .error e) : (main h).2.written = [] := by
  rw [main_state, install_eq, hprep]
  rfl

section Prepared

variable {fsinfo : Bytes} {vbr : HostFile}

/-- The writes of a run that gets to its first one. -/
theorem written_of_fits (hr : ImageRead h super fsinfo) (hv : h.vbr = some vbr)
    (hfits : vbr.Fits 420) :
    (main h).2.written =
      (0, (newSuper super vbr.contents).raw.take (h.transfers 0 512)) ::
      if h.transfers 0 512 < 512 then [] else
        (super.bytesPerSector, fsinfo.take (h.transfers 1 512)) ::
        if h.transfers 1 512 < 512 then [] else
          match loadStage2 h (newSuper super vbr.contents) with
          | .error _ => []
          | .ok d => [(2 * super.bytesPerSector, d.take (h.transfers 2 d.length))] := by
  have hlen := length_newSuper hr.length_super vbr.contents
  have hbps := bytesPerSector_newSuper hr.length_super vbr.contents
  rw [main_state, install_eq, prepare_of_fits hr hv hfits]
  simp only [hlen, hr.length_fsinfo]
  -- a short transfer ends the run, and later ones do not happen
  by_cases h0 : h.transfers 0 512 < 512
  · simp only [if_pos h0, withSuper, State.after, start, hlen, List.length_nil, List.nil_append]
  simp only [if_neg h0]
  by_cases h1 : h.transfers 1 512 < 512
  · simp only [if_pos h1, withFsInfo, withSuper, State.after, start, hlen, hbps, hr.length_fsinfo,
      List.length_nil, List.nil_append, List.singleton_append, List.length_singleton]
  simp only [if_neg h1]
  cases loadStage2 h (newSuper super vbr.contents) with
  | error e =>
    simp only [withFsInfo, withSuper, State.after, start, hlen, hbps, hr.length_fsinfo,
      List.length_nil, List.nil_append, List.singleton_append, List.length_singleton]
  | ok d =>
    have hle0 := transfers_le h 0 512
    have hle1 := transfers_le h 1 512
    have hw0 : h.transfers 0 512 = 512 := by omega
    have hw1 : h.transfers 1 512 = 512 := by omega
    rw [hw0, hw1, List.take_of_length_le (Nat.le_of_eq hlen),
      List.take_of_length_le (Nat.le_of_eq hr.length_fsinfo),
      ← written_withStage2 hr vbr.contents d hw0 hw1]
    by_cases h2 : h.transfers 2 d.length < d.length
    · simp only [if_pos h2]
    · simp only [if_neg h2]

/-- Behind two reserved sectors, stage 2 has to fit. -/
theorem stage2_inside_iff (hr : ImageRead h super fsinfo) (h2 : 2 ≤ super.reservedSectors) :
    (∀ w ∈ (match loadStage2 h (newSuper super vbr.contents) with
      | .error _ => []
      | .ok d => [(2 * super.bytesPerSector, d.take (h.transfers 2 d.length))]),
      w.2 ≠ [] → w.1 + w.2.length ≤ super.reservedSectors * super.bytesPerSector) ↔
    ∀ f, h.stage2 = some f → Accepted super f →
      (super.reservedSectors - 2) * super.bytesPerSector < 2 ^ 31 ∨
      h.transfers 2 f.contents.length ≤ (super.reservedSectors - 2) * super.bytesPerSector := by
  have hroom : (super.reservedSectors - 2) * super.bytesPerSector + 2 * super.bytesPerSector =
      super.reservedSectors * super.bytesPerSector := by
    rw [← Nat.add_mul, Nat.sub_add_cancel h2]
  rcases stage2_cases h (newSuper super vbr.contents) with
    ⟨f, hf, hacc⟩ | ⟨f, hf, href⟩ | ⟨hneither, e, hload, -⟩
  · have hacc' := (refused_newSuper hr vbr.contents f).1.mp hacc
    have hle := transfers_le h 2 f.contents.length
    rw [loadStage2_of_accepted hf hacc]
    simp only [List.forall_mem_singleton, length_stage2Bytes]
    rw [take_inside_iff (by rw [length_stage2Bytes]; exact hle)]
    constructor
    · intro hin f' hf' _
      obtain rfl := Option.some.inj (hf.symm.trans hf')
      right
      -- a transfer of nothing is inside wherever it starts
      rcases Nat.eq_zero_or_pos (h.transfers 2 f.contents.length) with hzero | hpos
      · omega
      · have hend := hin hpos
        omega
    · intro hin _
      -- the size check is exact below 2 GiB
      rcases hin f hf hacc' with hsmall | hshort
      · have hmax := hacc'.1.2
        rw [maxSize_eq h2 hsmall] at hmax
        omega
      · omega
  · -- a refused file is not written
    obtain ⟨e, hload, -⟩ := loadStage2_of_refused hf href
    rw [hload]
    refine iff_of_true (fun w hw => nomatch hw) ?_
    intro f' hf' hacc
    obtain rfl := Option.some.inj (hf.symm.trans hf')
    exact absurd ((refused_newSuper hr vbr.contents f).2.mp href) (not_refused_of_accepted hacc)
  · rw [hload]
    refine iff_of_true (fun w hw => nomatch hw) ?_
    intro f hf hacc
    exact absurd ((refused_newSuper hr vbr.contents f).1.mpr hacc) (hneither f hf).1

theorem writesInside_of_fits (hr : ImageRead h super fsinfo) (hv : h.vbr = some vbr)
    (hfits : vbr.Fits 420) (hbps : 512 ≤ super.bytesPerSector) :
    WritesInside h ↔ StaysInside h := by
  have hle0 := transfers_le h 0 512
  have hle1 := transfers_le h 1 512
  have hlen := length_newSuper hr.length_super vbr.contents
  have hin : WritesInside h ↔ ∀ w ∈ (main h).2.written, w.2 ≠ [] →
      w.1 + w.2.length ≤ super.reservedSectors * super.bytesPerSector := by
    constructor
    · exact fun hall => hall super fsinfo hr
    · intro hall super' fsinfo' hr'
      obtain ⟨rfl, rfl⟩ := hr.unique hr'
      exact hall
  -- the first two writes, in sectors
  have hfirst := take_inside_iff (o := 0) (t := h.transfers 0 512)
    (x := super.reservedSectors * super.bytesPerSector) (d := (newSuper super vbr.contents).raw)
    (by omega)
  have hsecond := take_inside_iff (o := super.bytesPerSector) (t := h.transfers 1 512)
    (x := super.reservedSectors * super.bytesPerSector) (d := fsinfo)
    (by rw [hr.length_fsinfo]; exact hle1)
  have hsector0 := sector_inside_iff (k := 0) (r := super.reservedSectors)
    (show h.transfers 0 512 ≤ super.bytesPerSector by omega)
  have hsector1 := sector_inside_iff (k := 1) (r := super.reservedSectors)
    (show h.transfers 1 512 ≤ super.bytesPerSector by omega)
  rw [Nat.zero_mul] at hsector0
  rw [Nat.one_mul] at hsector1
  rw [hin, written_of_fits hr hv hfits, List.forall_mem_cons, hfirst, hsector0]
  have hstay : StaysInside h ↔ (0 < h.transfers 0 512 → 1 ≤ super.reservedSectors) ∧
      (h.WritesAll 0 512 → 0 < h.transfers 1 512 → 2 ≤ super.reservedSectors) ∧
      (h.WritesAll 0 512 → h.WritesAll 1 512 → ∀ f, h.stage2 = some f → Accepted super f →
        (super.reservedSectors - 2) * super.bytesPerSector < 2 ^ 31 ∨
        h.transfers 2 f.contents.length ≤
          (super.reservedSectors - 2) * super.bytesPerSector) := by
    constructor
    · exact fun hall => hall super fsinfo vbr hr hv hfits
    · intro hall super' fsinfo' vbr' hr' hv' _
      obtain ⟨rfl, rfl⟩ := hr.unique hr'
      exact hall
  rw [hstay]
  apply and_congr Iff.rfl
  unfold Host.WritesAll
  by_cases h0 : h.transfers 0 512 < 512
  · rw [if_pos h0]
    refine iff_of_true (fun w hw => nomatch hw) ⟨?_, ?_⟩
    · omega
    · omega
  rw [if_neg h0, List.forall_mem_cons, hsecond, hsector1]
  have hw0 : h.transfers 0 512 = 512 := by omega
  simp only [hw0, forall_const]
  apply and_congr_right
  intro hreserved
  by_cases h1 : h.transfers 1 512 < 512
  · rw [if_pos h1]
    refine iff_of_true (fun w hw => nomatch hw) ?_
    omega
  have hw1 : h.transfers 1 512 = 512 := by omega
  simp only [hw1, forall_const]
  exact stage2_inside_iff hr (hreserved (by omega))

end Prepared

/-- **The extent of the writes**: all bytes that are written lie in the reserved
    area if and only if, as far as the run gets, there is room for them. -/
theorem writesInside_iff
    (hbps : ∀ super fsinfo, ImageRead h super fsinfo → 512 ≤ super.bytesPerSector) :
    WritesInside h ↔ StaysInside h := by
  rcases imageRead_cases h with ⟨super, fsinfo, hr⟩ | ⟨hnone, e, hprep, -⟩
  · rcases readAll_cases .vbr h.vbr 420 with ⟨vbr, hv, hfits⟩ | ⟨vbr, hv, hbig⟩ |
      ⟨hneither, e, hread, -⟩
    · exact writesInside_of_fits hr hv hfits (hbps super fsinfo hr)
    · -- the VBR file is too big
      have hprep : prepare h = .error (.tooBig .vbr 420) := by
        rw [hr.prepare_eq, hv, readAll_of_tooBig hbig]
        rfl
      refine iff_of_true (writesInside_of_nil (written_of_error hprep)) ?_
      intro super' fsinfo' vbr' _ hv' hfits
      obtain rfl := Option.some.inj (hv.symm.trans hv')
      exact absurd hbig (HostFile.not_tooBig_of_fits hfits)
    · -- the VBR file cannot be read
      have hprep : prepare h = .error e := by
        rw [hr.prepare_eq, hread]
        rfl
      refine iff_of_true (writesInside_of_nil (written_of_error hprep)) ?_
      intro super' fsinfo' vbr' _ hv' hfits
      exact absurd hfits (hneither vbr' hv').1
  · -- the image cannot be read
    refine iff_of_true (writesInside_of_nil (written_of_error hprep)) ?_
    intro super fsinfo _ hr
    exact absurd hr (hnone super fsinfo)

theorem imageRead_sample {reserved : Nat} {stage2 : Option HostFile} {super : FatSuper}
    {fsinfo : Bytes} (hr : ImageRead (sampleHost (sampleImage reserved) stage2) super fsinfo) :
    super = ⟨(sampleImage reserved).bytes.read 0 512⟩ := by
  have hraw := FatEdit.readAt_ok hr.superBytes
  cases super
  exact congrArg FatSuper.mk hraw

/-- A short stage 2 file stays inside 32 reserved sectors. -/
theorem writesInside_short :
    WritesInside (sampleHost (sampleImage 32) (some ⟨List.replicate 100 0xAA, false⟩)) := by
  have hbps : 512 ≤ (⟨(sampleImage 32).bytes.read 0 512⟩ : FatSuper).bytesPerSector := by
    decide
  refine (writesInside_iff fun super fsinfo hr => ?_).mpr ?_
  · rw [imageRead_sample hr]
    exact hbps
  · intro super fsinfo vbr hr _ _
    rw [imageRead_sample hr]
    have hreserved : 2 ≤ (⟨(sampleImage 32).bytes.read 0 512⟩ : FatSuper).reservedSectors := by
      decide
    refine ⟨fun _ => by omega, fun _ _ => hreserved, fun _ _ f _ _ => .inl ?_⟩
    decide

/-- With one reserved sector, the FS info sector goes to the FAT. -/
theorem writes_over_fat :
    512 ≤ (⟨(sampleImage 1).bytes.read 0 512⟩ : FatSuper).bytesPerSector ∧
    ¬ WritesInside (sampleHost (sampleImage 1) none) := by
  refine ⟨by decide, ?_⟩
  intro hall
  have hr : ImageRead (sampleHost (sampleImage 1) none) ⟨(sampleImage 1).bytes.read 0 512⟩
      ((sampleImage 1).bytes.read 512 512) :=
    ⟨rfl, rfl, by decide, rfl, by decide +kernel⟩
  have hover : (main (sampleHost (sampleImage 1) none)).2.written.any
      (fun w => w.1 = 512 && w.2.length = 512) = true := by decide
  obtain ⟨w, hw, hplace⟩ := List.any_eq_true.mp hover
  simp only [Bool.and_eq_true, decide_eq_true_eq] at hplace
  have hend := hall _ _ hr w hw (List.length_pos_iff.mp (by omega))
  rw [hplace.1, hplace.2] at hend
  exact absurd hend (by decide)

end Hausboot.Install

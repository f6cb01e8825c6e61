import Hausboot.Install.ReadAll
import Hausboot.Lib.Prog

/-! # The installfat Tool: Runs

    What a run can do is said once (`install_eq`): nothing is written before
    the image and the VBR file have been read, then come the super block and
    the FS info sector, and only then is the stage 2 file looked at. -/

open ByteLib Prog

namespace Hausboot.Install

open FatEdit (ByteVec u64OfInt)

/-! ## Section 1: The new super block -/

section Setters

variable {super : FatSuper}

theorem length_setBackupIndex (h : super.raw.length = 512) (value : Nat) :
    (super.setBackupIndex value).raw.length = 512 := by
  rw [FatSuper.setBackupIndex, length_splice (by rw [h, length_leBytes]; decide), h]

theorem length_setFsInfoIndex (h : super.raw.length = 512) (value : Nat) :
    (super.setFsInfoIndex value).raw.length = 512 := by
  rw [FatSuper.setFsInfoIndex, length_splice (by rw [h, length_leBytes]; decide), h]

theorem length_setOEMName (h : super.raw.length = 512) (name : Bytes) :
    (super.setOEMName name).raw.length = 512 := by
  rw [FatSuper.setOEMName, length_splice (by rw [h, FatDirent.length_fixedLength]; decide), h]

theorem length_code (h : super.raw.length = 512) (code : Bytes) :
    90 + (code.take 420).length ≤ super.raw.length := by
  rw [List.length_take]
  omega

theorem length_setBootCode (h : super.raw.length = 512) (code : Bytes) :
    (super.setBootCode code).raw.length = 512 := by
  have hcode := length_splice (length_code h code)
  rw [FatSuper.setBootCode, length_splice (by rw [hcode, h]; decide), hcode, h]

theorem length_newSuper (h : super.raw.length = 512) (vbr : Bytes) :
    (newSuper super vbr).raw.length = 512 :=
  length_setBootCode (length_setOEMName (length_setFsInfoIndex (length_setBackupIndex h 0) 1) _) vbr

/-- The fields between the OEM name and the FS info index stay as they are. -/
theorem slice_newSuper (h : super.raw.length = 512) (vbr : Bytes) {o n : Nat} (ho : 11 ≤ o)
    (hn : o + n ≤ 48) : slice (newSuper super vbr).raw o n = slice super.raw o n := by
  have h1 := length_setBackupIndex h 0
  have h2 := length_setFsInfoIndex h1 1
  have h3 := length_setOEMName h2 (str "Goliath")
  have hcode := length_splice (length_code h3 vbr)
  rw [newSuper, FatSuper.setBootCode, slice_splice_after (by rw [hcode, h3]; decide) (by simp; omega),
    slice_splice_before (by omega) (by omega), FatSuper.setOEMName,
    slice_splice_after (by rw [h2, FatDirent.length_fixedLength]; decide)
      (by rw [FatDirent.length_fixedLength]; omega),
    FatSuper.setFsInfoIndex, slice_splice_before (by omega) hn, FatSuper.setBackupIndex,
    slice_splice_before (by omega) (by omega)]

theorem bytesPerSector_newSuper (h : super.raw.length = 512) (vbr : Bytes) :
    (newSuper super vbr).bytesPerSector = super.bytesPerSector := by
  rw [FatSuper.bytesPerSector, FatSuper.field, slice_newSuper h vbr (by decide) (by decide)]
  rfl

theorem reservedSectors_newSuper (h : super.raw.length = 512) (vbr : Bytes) :
    (newSuper super vbr).reservedSectors = super.reservedSectors := by
  rw [FatSuper.reservedSectors, FatSuper.field, slice_newSuper h vbr (by decide) (by decide)]
  rfl

end Setters

/-! ## Section 2: Before the first write -/

variable {h : Host}

theorem readAt_ok {i offset n : Nat} {d : Bytes} (hread : readAt h i offset n = .ok d) :
    h.readFault i = false ∧ h.image.readAt offset n = .ok d := by
  unfold readAt at hread
  by_cases hfault : h.readFault i = true
  · rw [if_pos hfault] at hread
    cases hread
  · rw [if_neg hfault] at hread
    cases hd : h.image.readAt offset n with
    | error e =>
      rw [hd] at hread
      cases hread
    | ok d' =>
      rw [hd] at hread
      obtain rfl := Except.ok.inj hread
      exact ⟨by simpa using hfault, rfl⟩

theorem readAt_of_ok {i offset n : Nat} {d : Bytes} (hfault : h.readFault i = false)
    (hd : h.image.readAt offset n = .ok d) : readAt h i offset n = .ok d := by
  rw [readAt, if_neg (by simp [hfault]), hd]

theorem readAt_error {i offset n : Nat} {e : Stop} (hread : readAt h i offset n = .error e) :
    e = .readImage := by
  unfold readAt at hread
  split at hread
  · exact (Except.error.inj hread).symm
  · split at hread
    · cases hread
    · exact (Except.error.inj hread).symm

/-- Both sectors can be read: the super block and the FS info sector. -/
structure ImageRead (h : Host) (super : FatSuper) (fsinfo : Bytes) : Prop where
  opens : h.imageOpens = true
  superFault : h.readFault 0 = false
  superBytes : h.image.readAt 0 512 = .ok super.raw
  fsinfoFault : h.readFault 1 = false
  fsinfoBytes : h.image.readAt (u64OfInt (i32 (super.fsInfoIndex * super.bytesPerSector))) 512 =
    .ok fsinfo

theorem ImageRead.prepare_eq {super : FatSuper} {fsinfo : Bytes} (hr : ImageRead h super fsinfo) :
    prepare h = (readAll .vbr h.vbr 420).map fun vbr => (newSuper super vbr.contents, fsinfo) := by
  have hsuper := readAt_of_ok hr.superFault hr.superBytes
  have hfsinfo := readAt_of_ok hr.fsinfoFault hr.fsinfoBytes
  rw [prepare, hr.opens, hsuper]
  show (readAt h 1 _ 512 >>= _) = _
  rw [hfsinfo]
  show (readAll .vbr h.vbr 420 >>= _) = _
  cases readAll .vbr h.vbr 420 with
  | error e => rfl
  | ok vbr => rfl

/-- The image can be read, or the run ends with an exception. -/
theorem imageRead_cases (h : Host) :
    (∃ super fsinfo, ImageRead h super fsinfo) ∨
    (∀ super fsinfo, ¬ ImageRead h super fsinfo) ∧
      ∃ e, prepare h = .error e ∧ (e = .openImage ∨ e = .readImage) := by
  by_cases hread : ∃ super fsinfo, ImageRead h super fsinfo
  · exact .inl hread
  refine .inr ⟨fun super fsinfo hr => hread ⟨super, fsinfo, hr⟩, ?_⟩
  unfold prepare
  cases hopens : h.imageOpens with
  | false => exact ⟨.openImage, rfl, .inl rfl⟩
  | true =>
    rw [if_neg (by decide)]
    cases hsuper : readAt h 0 0 512 with
    | error e => exact ⟨e, rfl, .inr (readAt_error hsuper)⟩
    | ok raw =>
      show ∃ e, (readAt h 1 _ 512 >>= _) = .error e ∧ _
      cases hfsinfo : readAt h 1 (u64OfInt (i32 ((⟨raw⟩ : FatSuper).fsInfoIndex *
          (⟨raw⟩ : FatSuper).bytesPerSector))) 512 with
      | error e => exact ⟨e, rfl, .inr (readAt_error hfsinfo)⟩
      | ok fsinfo =>
        obtain ⟨hfault0, hbytes0⟩ := readAt_ok hsuper
        obtain ⟨hfault1, hbytes1⟩ := readAt_ok hfsinfo
        exact absurd ⟨⟨raw⟩, fsinfo, hopens, hfault0, hbytes0, hfault1, hbytes1⟩ hread

/-! ## Section 3: The writes -/

/-- The image behind a write. -/
def store (f : ByteVec) (offset : Nat) (d : Bytes) : ByteVec :=
  if d = [] then f
  else { bytes := f.bytes.write offset d, size := max f.size (offset + d.length) }

theorem bytes_store (f : ByteVec) (offset : Nat) (d : Bytes) :
    (store f offset d).bytes = f.bytes.write offset d := by
  unfold store
  split
  · next hd => rw [hd, Store.write_nil]
  · rfl

/-- The state behind a `WriteAt`, whether it fails or not. -/
def State.after (s : State) (h : Host) (offset : Nat) (d : Bytes) : State :=
  let done := d.take (h.transfers s.written.length d.length)
  ⟨store s.image offset done, s.written ++ [(offset, done)]⟩

theorem transfers_le (h : Host) (i n : Nat) : h.transfers i n ≤ n := by
  unfold Host.transfers
  split
  · exact Nat.le_refl n
  · exact Nat.min_le_right _ _

theorem writeAt_eq {offset : Nat} (hoff : offset < 2 ^ 63) (d : Bytes) (s : State) :
    writeAt h offset d s =
      if h.transfers s.written.length d.length < d.length then
        .error .writeImage (s.after h offset d)
      else .ok () (s.after h offset d) := by
  have hle := transfers_le h s.written.length d.length
  have hlen : (d.take (h.transfers s.written.length d.length)).length =
      h.transfers s.written.length d.length := by
    rw [List.length_take]
    omega
  have hstore : ∀ done : Bytes, s.image.writeAt offset done = .ok (store s.image offset done) := by
    intro done
    unfold ByteVec.writeAt store
    split
    · rfl
    · rw [if_neg (by omega)]
  unfold writeAt State.after
  simp only [hstore, hlen]

theorem writeAt_bind {offset : Nat} (hoff : offset < 2 ^ 63) (d : Bytes) (f : Unit → M Unit)
    (s : State) :
    (writeAt h offset d >>= f) s =
      if h.transfers s.written.length d.length < d.length then
        .error .writeImage (s.after h offset d)
      else f () (s.after h offset d) := by
  show EStateM.bind (writeAt h offset d) f s = _
  rw [EStateM.bind, writeAt_eq hoff]
  by_cases hcut : h.transfers s.written.length d.length < d.length
  · rw [if_pos hcut, if_pos hcut]
  · rw [if_neg hcut, if_neg hcut]

/-- The state with the super block on the image, and with the FS info sector
    on the image as well. -/
def withSuper (h : Host) (super : FatSuper) : State := (start h).after h 0 super.raw

def withFsInfo (h : Host) (super : FatSuper) (fsinfo : Bytes) : State :=
  (withSuper h super).after h super.bytesPerSector fsinfo

def withStage2 (h : Host) (super : FatSuper) (fsinfo stage2 : Bytes) : State :=
  (withFsInfo h super fsinfo).after h (2 * super.bytesPerSector) stage2

/-- **A run of installfat**, behind what it reads first. -/
theorem install_eq (h : Host) :
    install h (start h) =
      match prepare h with
      | .error e => .error e (start h)
      | .ok (super, fsinfo) =>
        if h.transfers 0 super.raw.length < super.raw.length then
          .error .writeImage (withSuper h super)
        else if h.transfers 1 fsinfo.length < fsinfo.length then
          .error .writeImage (withFsInfo h super fsinfo)
        else
          match loadStage2 h super with
          | .error e => .error e (withFsInfo h super fsinfo)
          | .ok stage2 =>
            if h.transfers 2 stage2.length < stage2.length then
              .error .writeImage (withStage2 h super fsinfo stage2)
            else .ok () (withStage2 h super fsinfo stage2) := by
  unfold install
  show EStateM.bind (ofExcept (prepare h)) _ (start h) = _
  unfold EStateM.bind ofExcept
  cases prepare h with
  | error e => rfl
  | ok both =>
    obtain ⟨super, fsinfo⟩ := both
    have hlt := super.bytesPerSector_lt
    dsimp only
    -- the boot record
    rw [writeAt_bind (by decide)]
    show (if h.transfers 0 super.raw.length < super.raw.length then _ else _) = _
    by_cases hsuper : h.transfers 0 super.raw.length < super.raw.length
    · rw [if_pos hsuper, if_pos hsuper]
      rfl
    -- the FSInfo sector behind it
    rw [if_neg hsuper, if_neg hsuper, writeAt_bind (by omega)]
    show (if h.transfers 1 fsinfo.length < fsinfo.length then _ else _) = _
    by_cases hfsinfo : h.transfers 1 fsinfo.length < fsinfo.length
    · rw [if_pos hfsinfo, if_pos hfsinfo]
      rfl
    rw [if_neg hfsinfo, if_neg hfsinfo]
    show EStateM.bind (fun s => _) _ _ = _
    unfold EStateM.bind
    -- stage 2 is read only now, with both sectors written
    cases loadStage2 h super with
    | error e => rfl
    | ok stage2 =>
      dsimp only
      rw [writeAt_eq (by omega)]
      rfl

end Hausboot.Install

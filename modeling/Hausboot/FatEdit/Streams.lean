import Hausboot.FatEdit.FreeClusters
import Hausboot.FatEdit.ScanInverse

/-! # The fatedit Tool: Directory Streams

    `ScanDirectory` over the byte stream of any directory. A well-formed stream
    is understood as a whole (`scanDirectory_wellFormed`). Of any other stream
    that is accepted, only what lies in front of the terminator has been
    listed, and only live records, exactly if every long name there is followed
    by a live record (`scanDirectory_safe_iff`): the record behind a long name
    is not looked at as the others are. -/

open ByteLib Prog

namespace Hausboot.FatEdit

open FatDirent Session

variable {super : FatSuper} {s : Session}

/-! ## Section 1: What a reader delivers -/

/-- Reading record by record, `rd` delivers the bytes `d`. -/
def Streams (super : FatSuper) (s : Session) (rd : FileReader) (d : Bytes) : Prop :=
  ∀ k, ∃ rd', readEach super s rd (List.replicate k sizeof) =
    .ok (pieces d (List.replicate k sizeof), rd')

theorem Streams.read {rd : FileReader} {d : Bytes} (h : Streams super s rd d) :
    ∃ rd', rd.read super s sizeof = .ok (d.take sizeof, rd') ∧ Streams super s rd' (d.drop sizeof) := by
  obtain ⟨rd', hone⟩ := h 1
  obtain ⟨out, rd₁, outs, hread, -, heq⟩ := readEach_cons_ok.mp hone
  obtain ⟨rfl, -⟩ := List.cons.inj heq
  refine ⟨rd₁, hread, fun k => ?_⟩
  -- the reads behind the first one
  obtain ⟨rd₂, hmore⟩ := h (k + 1)
  rw [List.replicate_succ] at hmore
  obtain ⟨out, rd₃, outs, hread', hreads, heq⟩ := readEach_cons_ok.mp hmore
  obtain ⟨-, rfl⟩ := Prod.mk.inj (Except.ok.inj (hread.symm.trans hread'))
  obtain ⟨-, rfl⟩ := List.cons.inj heq
  exact ⟨rd₂, hreads⟩

theorem serves_streams (super : FatSuper) (s : Session) :
    Serves (fileRecords super s) fun rd d t => Streams super s rd d ∧ rd.totalRead = t where
  read h := by
    obtain ⟨rd', hread, hstreams⟩ := h.1.read
    exact ⟨rd', hread, hstreams, by rw [(read_bounds hread).2, h.2]⟩
  total h := h.2

/-- The stream of a directory on a terminated chain. -/
theorem Streams.of_chain (hs : s.Ok super) {c : Nat} {l : List Nat}
    (hch : (memView super s).Chain c l) (hne : l ≠ []) :
    Streams super s (dirReader c) ((memView super s).content l) := by
  intro k
  have hlt := chain_bytes_lt hs hch
  have hdel : Delivers super s (dirReader c)
      (((memView super s).content l).take 0xFFFFFFFF) := Delivers.new hch hne
  rw [List.take_of_length_le (by rw [length_content_chain hch]; omega)] at hdel
  obtain ⟨rd', hreads, -⟩ := readEach_pieces hs hdel (List.replicate k sizeof)
  exact ⟨rd', hreads⟩

/-! ## Section 2: Names -/

/-- The 16 bit units of a piece of a long name. -/
def nameUnits (e : FatDirentLong) : List Nat :=
  [1, 3, 5, 7, 9, 14, 16, 18, 20, 22, 24, 28, 30].map fun off => leNat (slice e.raw off 2)

/-- The piece up to its first zero unit. -/
def pieceName (e : FatDirentLong) : Bytes :=
  ((nameUnits e).takeWhile (· ≠ 0)).map FatDirentLong.unitToChar

theorem unitToChar_eq_zero {x : Nat} : FatDirentLong.unitToChar x = 0 ↔ x = 0 := by
  constructor
  · intro h
    unfold FatDirentLong.unitToChar at h
    split at h
    · cases h
    · next hplain =>
      simp only [Bool.or_eq_true, Bool.and_eq_true, decide_eq_true_eq, not_or, not_and,
        Nat.not_lt, Nat.not_le, ge_iff_le] at hplain
      have hx := congrArg UInt8.toNat h
      rw [UInt8.toNat_ofNat', Nat.mod_eq_of_lt (by omega)] at hx
      exact hx
  · rintro rfl
    rfl

theorem cstr_nameToString (e : FatDirentLong) : cstr e.nameToString = pieceName e := by
  have hunits : e.nameToString = (nameUnits e).map FatDirentLong.unitToChar := rfl
  rw [hunits, cstr, List.takeWhile_map, pieceName]
  congr 2
  funext x
  simp [unitToChar_eq_zero]

theorem joinLongName_eq {ls : List FatDirentLong} (h : ∀ e ∈ ls, pieceName e ≠ []) :
    joinLongName ls = .ok (ls.flatMap pieceName) := by
  induction ls with
  | nil => rfl
  | cons e ls ih =>
    obtain ⟨he, hls⟩ := List.forall_mem_cons.mp h
    rw [joinLongName, cstr_nameToString, if_neg he, ih hls]
    rfl

/-- The entry for a live record and the pieces of its long name, from the first
    one on. -/
def shownEntry (g : List FatDirentLong × FatDirent) : DirEntry where
  shortName := g.2.shortName.getD []
  longName := if g.1 = [] then g.2.shortName.getD [] else g.1.flatMap pieceName
  size := g.2.size
  firstCluster := g.2.clusterIndex
  isDirectory := g.2.isDirectory

theorem makeEntry_eq {ls : List FatDirentLong} {r : FatDirent} (hr : r.shortName.isSome = true)
    (hls : ∀ e ∈ ls, pieceName e ≠ []) : makeEntry r ls = .ok (shownEntry (ls, r)) := by
  unfold makeEntry shownEntry
  rw [shortName] at hr ⊢
  cases hname : r.nameToString with
  | none =>
    rw [hname] at hr
    cases hr
  | some str =>
    by_cases hnil : ls = []
    · simp only [hnil, if_true]
      rfl
    · simp only [hnil, if_false, joinLongName_eq hls]
      rfl

theorem makeEntries_eq {gs : List (List FatDirentLong × FatDirent)}
    (hnames : ∀ g ∈ gs, g.2.shortName.isSome = true)
    (hpieces : ∀ g ∈ gs, ∀ e ∈ g.1, pieceName e ≠ []) :
    makeEntries gs = .ok (gs.map shownEntry) := by
  induction gs with
  | nil => rfl
  | cons g gs ih =>
    obtain ⟨hname, hnames⟩ := List.forall_mem_cons.mp hnames
    obtain ⟨hpiece, hpieces⟩ := List.forall_mem_cons.mp hpieces
    exact makeEntries_cons_ok.mpr
      ⟨shownEntry g, _, makeEntry_eq hname hpiece, ih hnames hpieces, rfl⟩

/-! ## Section 3: Well-formed streams -/

/-- The bytes `d` are the records `rs` and an end. Each record is a deleted
    one, a live one with a name, or a piece of a long name that is complete,
    nowhere empty, and directly followed by its live record; `gs` are the live
    records with their long names. -/
structure WellFormedStream (d : Bytes) (rs : List FatDirent)
    (gs : List (List FatDirentLong × FatDirent)) : Prop where
  bytes : ∃ tail, d = rawBytes rs ++ tail ∧ Ends tail
  complete : ∀ r ∈ rs, r.raw.length = sizeof
  noTerminator : NoTerminator rs
  groups : Groups rs gs
  named : ∀ g ∈ gs, g.2.shortName.isSome = true
  pieces : ∀ g ∈ gs, ∀ e ∈ g.1, pieceName e ≠ []

/-- **A well-formed directory is understood**: there is one entry for each live
    record, in order, and the count ends at the terminator. -/
theorem scanDirectory_wellFormed {c : Nat} {d : Bytes} {rs : List FatDirent}
    {gs : List (List FatDirentLong × FatDirent)} (hd : Streams super s (dirReader c) d)
    (hlen : d.length < 2 ^ 32 - 32) (hwf : WellFormedStream d rs gs) :
    scanDirectory super s (dirReader c) = .ok (gs.map shownEntry, (rawBytes rs).length) ∧
      gs.map Prod.snd = rs.filter isLive := by
  obtain ⟨tail, rfl, htail⟩ := hwf.bytes
  have hbytes : (rawBytes rs).length = sizeof * rs.length := length_rawBytes hwf.complete
  -- the size of the reader is enough rounds
  have hfuel : rs.length < 0xFFFFFFFF / sizeof + 1 := by
    rw [List.length_append, hbytes] at hlen
    rw [show sizeof = 32 from rfl] at hlen ⊢
    omega
  have hscan := scanLoop_spec (serves_streams super s) hwf.groups hwf.complete hwf.noTerminator
    htail ⟨hd, rfl⟩ (0xFFFFFFFF / sizeof + 1) [] hfuel
  rw [show (dirReader c).totalRead = 0 from rfl, Nat.zero_add,
    makeEntries_eq hwf.named hwf.pieces, ← hbytes] at hscan
  exact ⟨hscan, hwf.groups.map_snd⟩

/-- A session in which cluster 2 is a directory with these records. -/
def recordSession (rs : List FatDirent) : Session :=
  { tableSession [endMark, endMark, endMark] with file := sparseFile 4096 [(1536, rawBytes rs)] }

/-- A long name of one letter, for a record with this checksum. -/
def onePiece (chksum : Nat) : FatDirentLong :=
  ⟨[0x41, 0x61] ++ List.replicate 9 0 ++ [0x0F, 0] ++ leBytes 1 chksum ++ List.replicate 18 0⟩

def liveRecord : FatDirent := entryRecord false (lit "A") 0 0

def namedRecords : List FatDirent := [⟨(onePiece liveRecord.checksum).raw⟩, liveRecord]

theorem longName_sample : LongName [onePiece liveRecord.checksum] liveRecord where
  first := ⟨_, [], rfl, by decide, by decide, by simp⟩
  long := by decide
  numbers := by decide
  checksum := by decide

set_option maxRecDepth 3000

/-- One record with a long name. -/
theorem scanDirectory_wellFormed_named :
    scanDirectory (tableSuper 3) (recordSession namedRecords) (dirReader 2) =
      .ok ([⟨lit "A", lit "a", 0, 0, false⟩], 64) := by
  have hs : (recordSession namedRecords).Ok (tableSuper 3) :=
    { layout := ⟨by decide, by decide, by decide, by decide,
        by decide, by decide, by decide⟩
      fatSize := by decide }
  have hch : (memView (tableSuper 3) (recordSession namedRecords)).Chain 2 [2] :=
    .link (by decide) ⟨by decide, by decide⟩ (.done (by decide))
  have hwf : WellFormedStream ((memView (tableSuper 3) (recordSession namedRecords)).content [2])
      namedRecords [([onePiece liveRecord.checksum], liveRecord)] :=
    { bytes := ⟨List.replicate 448 0, by decide, .inr rfl⟩
      complete := by decide
      noTerminator := by
        unfold NoTerminator
        decide
      groups := .long longName_sample (by decide) .nil
      named := by decide
      pieces := by decide }
  have hscan := scanDirectory_wellFormed (Streams.of_chain hs hch (by simp)) (by decide) hwf
  rw [hscan.1]
  decide

/-! ## Section 4: Any stream -/

/-- Reading the complete records `rs` leads from `rd` to `rd'`. -/
inductive ReadsRecords (super : FatSuper) (s : Session) :
    FileReader → List FatDirent → FileReader → Prop where
  | nil {rd : FileReader} : ReadsRecords super s rd [] rd
  | cons {rd rd₁ rd' : FileReader} {r : FatDirent} {rs : List FatDirent} :
      rd.read super s sizeof = .ok (r.raw, rd₁) → ¬ r.raw.length < sizeof →
      ReadsRecords super s rd₁ rs rd' → ReadsRecords super s rd (r :: rs) rd'

namespace ReadsRecords

variable {rd rd₁ rd₂ : FileReader} {rs rs₁ rs₂ : List FatDirent}

theorem snoc {r : FatDirent} (h : ReadsRecords super s rd rs rd₁)
    (hread : rd₁.read super s sizeof = .ok (r.raw, rd₂)) (hlen : ¬ r.raw.length < sizeof) :
    ReadsRecords super s rd (rs ++ [r]) rd₂ := by
  induction h with
  | nil => exact .cons hread hlen .nil
  | cons hfirst hr _ ih => exact .cons hfirst hr (ih hread)

/-- The records behind the ones that have been read. -/
theorem drop (h : ReadsRecords super s rd rs rd₁)
    (h' : ReadsRecords super s rd (rs ++ rs₂) rd₂) : ReadsRecords super s rd₁ rs₂ rd₂ := by
  induction h with
  | nil => exact h'
  | cons hread _ _ ih =>
    cases h' with
    | cons hread' _ hrest =>
      obtain ⟨-, rfl⟩ := Prod.mk.inj (Except.ok.inj (hread.symm.trans hread'))
      exact ih hrest

theorem front (h : ReadsRecords super s rd (rs ++ rs₂) rd₂) :
    ∃ rd₁, ReadsRecords super s rd rs rd₁ := by
  induction rs generalizing rd with
  | nil => exact ⟨rd, .nil⟩
  | cons r rs ih =>
    cases h with
    | cons hread hlen hrest =>
      obtain ⟨rd₁, hrs⟩ := ih hrest
      exact ⟨rd₁, .cons hread hlen hrs⟩

/-- Of two lists of records that are read, one is the front of the other. -/
theorem comparable (h₁ : ReadsRecords super s rd rs₁ rd₁)
    (h₂ : ReadsRecords super s rd rs₂ rd₂) : rs₁ <+: rs₂ ∨ rs₂ <+: rs₁ := by
  induction h₁ generalizing rs₂ with
  | nil => exact .inl List.nil_prefix
  | @cons _ _ _ r rs hread _ _ ih =>
    cases h₂ with
    | nil => exact .inr List.nil_prefix
    | @cons _ _ _ r' rs' hread' _ hrest =>
      obtain ⟨hraw, rfl⟩ := Prod.mk.inj (Except.ok.inj (hread.symm.trans hread'))
      obtain rfl : r = r' := by
        cases r
        cases r'
        exact congrArg _ hraw
      exact (ih hrest).imp (List.prefix_cons_inj r).mpr (List.prefix_cons_inj r).mpr

theorem unique (h₁ : ReadsRecords super s rd rs₁ rd₁) (h₂ : ReadsRecords super s rd rs₂ rd₂)
    (hlen : rs₁.length = rs₂.length) : rs₁ = rs₂ :=
  (h₁.comparable h₂).elim (fun h => h.eq_of_length hlen) fun h => (h.eq_of_length hlen.symm).symm

theorem totalRead (h : ReadsRecords super s rd rs rd₁) :
    rd₁.totalRead = rd.totalRead + sizeof * rs.length := by
  induction h with
  | nil => rfl
  | cons hread hlen _ ih =>
    obtain ⟨hle, htotal⟩ := read_bounds hread
    rw [ih, htotal, List.length_cons, Nat.mul_succ]
    omega

theorem of_readEach {rs : List FatDirent}
    (h : readEach super s rd (List.replicate rs.length sizeof) = .ok (rs.map raw, rd₁))
    (hlen : ∀ r ∈ rs, ¬ r.raw.length < sizeof) : ReadsRecords super s rd rs rd₁ := by
  induction rs generalizing rd with
  | nil =>
    obtain ⟨-, rfl⟩ := Prod.mk.inj (Except.ok.inj h)
    exact .nil
  | cons r rs ih =>
    obtain ⟨hr, hrs⟩ := List.forall_mem_cons.mp hlen
    obtain ⟨out, rd₂, outs, hread, hreads, heq⟩ := readEach_cons_ok.mp h
    obtain ⟨rfl, rfl⟩ := List.cons.inj heq
    exact .cons hread hr (ih hreads hrs)

end ReadsRecords

/-- No complete record is left behind these. -/
def ReadsShort (super : FatSuper) (s : Session) (rd : FileReader) (rs : List FatDirent) : Prop :=
  ∃ rd₁ raw rd₂, ReadsRecords super s rd rs rd₁ ∧ rd₁.read super s sizeof = .ok (raw, rd₂) ∧
    raw.length < sizeof

theorem reads_stream (super : FatSuper) (s : Session) (rd : FileReader) :
    Reads (fileRecords super s) (ReadsRecords super s rd) (ReadsShort super s rd) := by
  intro rs rd₁ raw rd₂ hat hread
  by_cases hlen : raw.length < sizeof
  · exact .inr ⟨hlen, rd₁, raw, rd₂, hat, hread, hlen⟩
  · exact .inl ⟨hlen, hat.snoc hread hlen⟩

/-- A round that stops has read a part of a record, or one whole one. -/
theorem scanRound_stop {rd rd' : FileReader} {overread : Nat}
    (h : scanRound (fileRecords super s) rd = .ok (.stop overread, rd')) :
    rd'.totalRead - overread = rd.totalRead := by
  unfold scanRound at h
  obtain ⟨⟨d, rd₁⟩, hread, h⟩ := except_bind_eq_ok.mp h
  have htotal := (read_bounds hread).2
  -- it stops with the length of what it has just read
  have hstop : (Round.stop d.length, rd₁) = (Round.stop overread, rd') →
      rd'.totalRead - overread = rd.totalRead := by
    rintro ⟨⟩
    omega
  dsimp only at h
  split at h
  · exact hstop (Except.ok.inj h)
  split at h
  · cases h
  split at h
  · exact hstop (Except.ok.inj h)
  split at h
  · obtain ⟨_, -, h⟩ := except_bind_eq_ok.mp h
    obtain ⟨_, -, h⟩ := except_bind_eq_ok.mp h
    cases h
  · obtain ⟨_, -, h⟩ := except_bind_eq_ok.mp h
    cases h

/-- What has been listed and counted lies in front of the first terminator: it
    consists of deleted records, live ones that have an entry each, and
    complete long names in front of their live record. -/
def ScanSafe (super : FatSuper) (s : Session) (rd : FileReader) (es : List DirEntry)
    (total : Nat) : Prop :=
  ∃ rs gs rd', ReadsRecords super s rd rs rd' ∧ NoTerminator rs ∧ Groups rs gs ∧
    makeEntries gs = .ok es ∧ total = sizeof * rs.length

/-- The scan stops where there is a terminator or no complete record. -/
theorem next_is_last {rd : FileReader} {rs more : List FatDirent} {x : FatDirent}
    (h : Stopped (ReadsRecords super s rd) (ReadsShort super s rd) rs) {rd' : FileReader}
    (hmore : ReadsRecords super s rd (rs ++ x :: more) rd') : x.isLastInList = true := by
  rcases h with ⟨r, rd₁, hlast, hr⟩ | ⟨rd₁, raw, rd₂, hrs, hread, hlen⟩
  · rcases hr.comparable hmore with hpre | hpre
    · obtain ⟨rest, hrest⟩ := (List.prefix_append_right_inj rs).mp hpre
      rw [← (List.cons.inj hrest).1]
      exact hlast
    · obtain ⟨rest, hrest⟩ := (List.prefix_append_right_inj rs).mp hpre
      rw [(List.cons.inj hrest).1]
      exact hlast
  · cases hrs.drop hmore with
    | cons hread' hfull _ =>
      obtain ⟨rfl, -⟩ := Prod.mk.inj (Except.ok.inj (hread.symm.trans hread'))
      exact absurd hlen hfull

/-- A scan that has gone over live records with their long names only has met
    every piece of a long name in front of the terminator. -/
theorem followed_of_groups {rd rd₁ rd' : FileReader} {rs all : List FatDirent}
    {gs : List (List FatDirentLong × FatDirent)} (hrs : ReadsRecords super s rd rs rd₁)
    (hstopped : Stopped (ReadsRecords super s rd) (ReadsShort super s rd) rs)
    (hopen : NoTerminator rs) (hgroups : Groups rs gs) (hall : ReadsRecords super s rd all rd') :
    LongNamesFollowed all := by
  rintro pre a b post rfl hpre ha
  have hbehind : ∀ post', rs = pre ++ a :: b :: post' →
      b.isDummiedOut = false ∧ b.isLastInList = false := by
    intro post' heq
    obtain ⟨b', post'', hpost, hdel⟩ := hgroups.behind_piece heq ha
    obtain ⟨rfl, -⟩ := List.cons.inj hpost
    exact ⟨hdel, hopen b (by simp [heq])⟩
  rcases hrs.comparable hall with ⟨more, hmore⟩ | ⟨more, hmore⟩
  · cases more with
    | nil =>
      rw [List.append_nil] at hmore
      exact hbehind post hmore
    | cons x more =>
      rw [← hmore] at hall
      have hx := next_is_last hstopped hall
      have hax : a ≠ x := by
        rintro rfl
        rw [ha.notLast] at hx
        cases hx
      rcases List.append_eq_append_iff.mp hmore with ⟨mid, rfl, heq⟩ | ⟨mid, rfl, heq⟩
      · -- the terminator would be in front of `a`
        rcases List.cons_eq_append_iff.mp heq with ⟨rfl, hrest⟩ | ⟨mid', rfl, -⟩
        · exact absurd (List.cons.inj hrest).1 hax
        · rw [hpre x (by simp)] at hx
          cases hx
      · -- `a` is in front of the terminator, and the scan has gone over it
        rcases List.cons_eq_append_iff.mp heq with ⟨rfl, hrest⟩ | ⟨mid', rfl, hrest⟩
        · exact absurd (List.cons.inj hrest).1.symm hax
        · rcases List.cons_eq_append_iff.mp hrest with ⟨rfl, -⟩ | ⟨post', rfl, -⟩
          · obtain ⟨b', post', hpost, -⟩ := hgroups.behind_piece rfl ha
            cases hpost
          · exact hbehind post' rfl
  · exact hbehind (post ++ more) (by rw [← hmore]; simp)

/-- **What is listed is alive**, and in front of the terminator, exactly if in
    front of the terminator no record behind a piece of a long name is deleted
    or a terminator. -/
theorem scanDirectory_safe_iff {c total : Nat} {es : List DirEntry}
    (hscan : scanDirectory super s (dirReader c) = .ok (es, total)) :
    ScanSafe super s (dirReader c) es total ↔
      ∀ rs rd', ReadsRecords super s (dirReader c) rs rd' → LongNamesFollowed rs := by
  obtain ⟨rs, gs, es', htaken, hmake, rfl, rd₁, rd₂, overread, hat, hround, rfl⟩ :=
    scanLoop_taken (reads_stream super s (dirReader c)) .nil hscan
  rw [List.nil_append] at hat
  have hstopped := scanRound_inv (reads_stream super s (dirReader c)) hat hround
  have htotal : (fileRecords super s).totalRead rd₂ - overread = sizeof * rs.length := by
    show rd₂.totalRead - overread = _
    rw [scanRound_stop hround, hat.totalRead]
    exact Nat.zero_add _
  rw [htotal]
  constructor
  · rintro ⟨rs', gs', rd₃, hrs', hopen, hgroups, -, hlen⟩
    -- the count fixes how many records have been gone over
    obtain rfl := hrs'.unique hat (Nat.eq_of_mul_eq_mul_left (by decide) hlen.symm)
    intro all rd' hall
    exact followed_of_groups hat hstopped hopen hgroups hall
  · intro hlong
    obtain ⟨hgroups, hopen⟩ := groups_of_taken htaken (hlong rs rd₁ hat)
    exact ⟨rs, gs, rd₁, hat, hopen, hgroups, hmake, rfl⟩

/-- The same record: its long name is followed by a live one. -/
theorem scanDirectory_safe_iff_named :
    ∃ es, scanDirectory (tableSuper 3) (recordSession namedRecords) (dirReader 2) = .ok (es, 64) ∧
      ScanSafe (tableSuper 3) (recordSession namedRecords) (dirReader 2) es 64 := by
  have hmap : (scanDirectory (tableSuper 3) (recordSession namedRecords) (dirReader 2)).map
      Prod.snd = .ok 64 := by
    decide
  obtain ⟨⟨es, total⟩, hscan, rfl⟩ := except_map_eq_ok.mp hmap
  have hreads : (readEach (tableSuper 3) (recordSession namedRecords) (dirReader 2)
      (List.replicate 3 sizeof)).map Prod.fst = .ok ((namedRecords ++ [FatDirent.zero]).map raw) := by
    decide
  obtain ⟨⟨outs, rd₁⟩, hreads, rfl⟩ := except_map_eq_ok.mp hreads
  have hfirst : ReadsRecords (tableSuper 3) (recordSession namedRecords) (dirReader 2)
      (namedRecords ++ [FatDirent.zero]) rd₁ := .of_readEach hreads (by decide)
  refine ⟨es, hscan, (scanDirectory_safe_iff hscan).mpr ?_⟩
  obtain ⟨rd₂, hrs⟩ := hfirst.front
  intro all rd' hall
  exact followed_of_groups hrs (.inl ⟨FatDirent.zero, rd₁, rfl, hfirst⟩)
    (by unfold NoTerminator; decide) (.long longName_sample (by decide) .nil) hall

/-- A deleted record and a terminator, each behind a long name with its
    checksum, and a record behind the terminator. -/
def deadRecords : List FatDirent :=
  let deleted : FatDirent := ⟨0xE5 :: liveRecord.raw.tail⟩
  [⟨(onePiece deleted.checksum).raw⟩, deleted, ⟨(onePiece FatDirent.zero.checksum).raw⟩,
    FatDirent.zero, liveRecord]

/-- All three of them are listed. -/
theorem scanDirectory_lists_dead :
    ∃ es, scanDirectory (tableSuper 3) (recordSession deadRecords) (dirReader 2) = .ok (es, 160) ∧
      es.map DirEntry.shortName = [[0xE5], [], lit "A"] ∧
      ¬ ScanSafe (tableSuper 3) (recordSession deadRecords) (dirReader 2) es 160 := by
  have hmap : (scanDirectory (tableSuper 3) (recordSession deadRecords) (dirReader 2)).map
      (fun x => (x.1.map DirEntry.shortName, x.2)) = .ok ([[0xE5], [], lit "A"], 160) := by
    decide +kernel
  obtain ⟨⟨es, total⟩, hscan, heq⟩ := except_map_eq_ok.mp hmap
  obtain ⟨hnames, rfl⟩ := Prod.mk.inj heq
  refine ⟨es, hscan, hnames, ?_⟩
  rintro ⟨rs, gs, rd', hrs, hopen, -, -, hlen⟩
  have hreads : (readEach (tableSuper 3) (recordSession deadRecords) (dirReader 2)
      (List.replicate 5 sizeof)).map Prod.fst = .ok (deadRecords.map raw) := by
    decide +kernel
  obtain ⟨⟨outs, rd₁⟩, hreads, rfl⟩ := except_map_eq_ok.mp hreads
  have hall : ReadsRecords (tableSuper 3) (recordSession deadRecords) (dirReader 2) deadRecords rd₁ :=
    .of_readEach hreads (by decide)
  have hcount : (160 : Nat) = 32 * rs.length := hlen
  obtain rfl := hrs.unique hall (show rs.length = 5 by omega)
  have hzero := hopen FatDirent.zero (by simp [deadRecords])
  exact absurd hzero (by decide)

end Hausboot.FatEdit

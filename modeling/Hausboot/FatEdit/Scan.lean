import Hausboot.FatEdit.Reader

/-! # The fatedit Tool: ScanDirectory

    On a directory in which every long name is complete and followed by its
    record, `ScanDirectory` makes one entry for each live record, in order, and
    reports the size of the body. It refuses the directory where a name cannot
    be shown. -/

open ByteLib

namespace Hausboot.FatEdit

open FatDirent

/-! ## Section 1: The entries of a body -/

/-- The entries for live records with their long names. -/
def makeEntries : List (List FatDirentLong × FatDirent) → Except Fail (List DirEntry)
  | [] => .ok []
  | (ls, r) :: gs => do
    let e ← makeEntry r ls
    let es ← makeEntries gs
    .ok (e :: es)

theorem makeEntries_cons_ok {ls : List FatDirentLong} {r : FatDirent}
    {gs : List (List FatDirentLong × FatDirent)} {es : List DirEntry} :
    makeEntries ((ls, r) :: gs) = .ok es ↔
      ∃ e es', makeEntry r ls = .ok e ∧ makeEntries gs = .ok es' ∧ es = e :: es' := by
  rw [makeEntries]
  cases makeEntry r ls with
  | error f => simp [bind, Except.bind]
  | ok e =>
    cases makeEntries gs with
    | error f => simp [bind, Except.bind]
    | ok es' => simp [bind, Except.bind, eq_comm]

theorem makeEntries_append_ok {gs gs' : List (List FatDirentLong × FatDirent)}
    {es es' : List DirEntry} (h : makeEntries gs = .ok es) (h' : makeEntries gs' = .ok es') :
    makeEntries (gs ++ gs') = .ok (es ++ es') := by
  induction gs generalizing es with
  | nil =>
    cases h
    exact h'
  | cons g gs ih =>
    obtain ⟨ls, r⟩ := g
    rw [makeEntries_cons_ok] at h
    obtain ⟨e, es₁, he, hes, rfl⟩ := h
    rw [List.cons_append, makeEntries_cons_ok]
    exact ⟨e, es₁ ++ es', he, ih hes, rfl⟩

/-- The fields that an entry takes from its record. -/
theorem makeEntry_fields {r : FatDirent} {ls : List FatDirentLong} {e : DirEntry}
    (h : makeEntry r ls = .ok e) :
    r.shortName = some e.shortName ∧ e.size = r.size ∧ e.firstCluster = r.clusterIndex ∧
      e.isDirectory = r.isDirectory ∧ (ls = [] → e.longName = e.shortName) := by
  unfold makeEntry at h
  rw [shortName]
  split at h
  · cases h
  · next str hstr =>
    rw [hstr]
    by_cases hls : ls = []
    · rw [if_pos hls] at h
      cases h
      exact ⟨rfl, rfl, rfl, rfl, fun _ => rfl⟩
    · rw [if_neg hls] at h
      cases hjoin : joinLongName ls with
      | error f =>
        rw [hjoin] at h
        cases h
      | ok name =>
        rw [hjoin] at h
        cases h
        exact ⟨rfl, rfl, rfl, rfl, fun hnil => absurd hnil hls⟩

theorem makeEntry_plain {r : FatDirent} {str : Bytes} (h : r.nameToString = some str) :
    makeEntry r [] = .ok {
      shortName := cstr str, longName := cstr str, size := r.size,
      firstCluster := r.clusterIndex, isDirectory := r.isDirectory } := by
  simp only [makeEntry, h]
  rfl

/-- Every entry comes from a live record. -/
theorem makeEntries_mem {gs : List (List FatDirentLong × FatDirent)} {es : List DirEntry}
    (h : makeEntries gs = .ok es) {e : DirEntry} (he : e ∈ es) :
    ∃ g ∈ gs, makeEntry g.2 g.1 = .ok e := by
  induction gs generalizing es with
  | nil =>
    cases h
    cases he
  | cons g gs ih =>
    obtain ⟨ls, r⟩ := g
    rw [makeEntries_cons_ok] at h
    obtain ⟨e₁, es₁, he₁, hes, rfl⟩ := h
    rcases List.mem_cons.mp he with rfl | he
    · exact ⟨(ls, r), List.mem_cons_self, he₁⟩
    · obtain ⟨g, hg, hmake⟩ := ih hes he
      exact ⟨g, List.mem_cons_of_mem _ hg, hmake⟩

/-- Every live record gives an entry. -/
theorem makeEntries_mem_of {gs : List (List FatDirentLong × FatDirent)} {es : List DirEntry}
    (h : makeEntries gs = .ok es) {g : List FatDirentLong × FatDirent} (hg : g ∈ gs) :
    ∃ e ∈ es, makeEntry g.2 g.1 = .ok e := by
  induction gs generalizing es with
  | nil => cases hg
  | cons g₁ gs ih =>
    obtain ⟨ls, r⟩ := g₁
    rw [makeEntries_cons_ok] at h
    obtain ⟨e₁, es₁, he₁, hes, rfl⟩ := h
    rcases List.mem_cons.mp hg with rfl | hg
    · exact ⟨e₁, List.mem_cons_self, he₁⟩
    · obtain ⟨e, he, hmake⟩ := ih hes hg
      exact ⟨e, List.mem_cons_of_mem _ he, hmake⟩

/-! ## Section 2: A reader of records -/

section Reader

variable {ρ : Type}

/-- `rr` reads byte strings: `R rd d t` says that `rd` has still `d` to read and
    has read `t` bytes before. -/
structure Serves (rr : RecordReader ρ) (R : ρ → Bytes → Nat → Prop) : Prop where
  read : ∀ {rd d t}, R rd d t → ∃ rd', rr.read rd = .ok (d.take sizeof, rd') ∧
    R rd' (d.drop sizeof) (t + (d.take sizeof).length)
  total : ∀ {rd d t}, R rd d t → rr.totalRead rd = t

variable {rr : RecordReader ρ} {R : ρ → Bytes → Nat → Prop}

theorem Serves.record (hsv : Serves rr R) {rd : ρ} {raw d : Bytes} {t : Nat}
    (hR : R rd (raw ++ d) t) (hraw : raw.length = sizeof) :
    ∃ rd', rr.read rd = .ok (raw, rd') ∧ R rd' d (t + sizeof) := by
  obtain ⟨rd', hread, hR'⟩ := hsv.read hR
  rw [← hraw, List.take_left] at hread hR'
  rw [List.drop_left, hraw] at hR'
  exact ⟨rd', hread, hR'⟩

theorem scanRound_ends (hsv : Serves rr R) {rd : ρ} {d : Bytes} {t : Nat} (hR : R rd d t)
    (hd : Ends d) :
    ∃ overread rd', scanRound rr rd = .ok (.stop overread, rd') ∧
      rr.totalRead rd' - overread = t := by
  obtain ⟨rd', hread, hR'⟩ := hsv.read hR
  have htotal := hsv.total hR'
  refine ⟨(d.take sizeof).length, rd', ?_, by omega⟩
  rw [scanRound, hread]
  show (if (d.take sizeof).length < sizeof then _ else _) = _
  by_cases hlt : (d.take sizeof).length < sizeof
  · rw [if_pos hlt]
  · have hlen : ¬ d.length < sizeof := by
      rw [List.length_take] at hlt
      omega
    have hlast : (⟨d.take sizeof⟩ : FatDirent).isLastInList = true := by
      rw [isLastInList_take, hd.resolve_left hlen]
      rfl
    have hdel : (⟨d.take sizeof⟩ : FatDirent).isDummiedOut = false := by
      have hzero : (d.take sizeof).getD 0 0 = 0 := by simpa [isLastInList] using hlast
      rw [isDummiedOut, hzero]
      rfl
    rw [if_neg hlt, if_neg (by rw [hdel]; decide), if_pos hlast]

theorem scanRound_deleted (hsv : Serves rr R) {rd : ρ} {r : FatDirent} {d : Bytes} {t : Nat}
    (hR : R rd (r.raw ++ d) t) (hlen : r.raw.length = sizeof) (hdel : r.isDummiedOut = true) :
    ∃ rd', scanRound rr rd = .ok (.skip, rd') ∧ R rd' d (t + sizeof) := by
  obtain ⟨rd', hread, hR'⟩ := hsv.record hR hlen
  refine ⟨rd', ?_, hR'⟩
  rw [scanRound, hread]
  show (if r.raw.length < sizeof then _ else _) = _
  rw [if_neg (by omega), if_pos hdel]

/-- A round that makes an entry of `r` and its long name `ls`. -/
def entryRound (r : FatDirent) (ls : List FatDirentLong) (rd : ρ) : Except Fail (Round × ρ) := do
  .ok (.entry (← makeEntry r ls), rd)

theorem scanRound_plain (hsv : Serves rr R) {rd : ρ} {r : FatDirent} {d : Bytes} {t : Nat}
    (hR : R rd (r.raw ++ d) t) (hlen : r.raw.length = sizeof) (hlast : r.isLastInList = false)
    (hlive : r.isLive = true) :
    ∃ rd', scanRound rr rd = entryRound r [] rd' ∧ R rd' d (t + sizeof) := by
  obtain ⟨rd', hread, hR'⟩ := hsv.record hR hlen
  refine ⟨rd', ?_, hR'⟩
  simp only [isLive, Bool.and_eq_true, Bool.not_eq_true'] at hlive
  rw [scanRound, hread]
  show (if r.raw.length < sizeof then _ else _) = _
  rw [if_neg (by omega), if_neg (by simp [hlive.1]), if_neg (by simp [hlast]),
    if_neg (by simp [hlive.2])]
  rfl

theorem readLongNames_spec (hsv : Serves rr R) {rd : ρ} {es : List FatDirentLong} {d : Bytes}
    {t : Nat} (hR : R rd (es.flatMap FatDirentLong.raw ++ d) t)
    (hlen : ∀ e ∈ es, e.raw.length = sizeof) (hlong : ∀ e ∈ es, e.isLongName = true)
    (hlast : ∀ e ∈ es, e.isLast = false) (list : List FatDirentLong) :
    ∃ rd', readLongNames rr es.length rd list = .ok (list ++ es, rd') ∧
      R rd' d (t + sizeof * es.length) := by
  induction es generalizing rd t list with
  | nil => exact ⟨rd, by simp [readLongNames], hR⟩
  | cons e es ih =>
    have he := hlen e (by simp)
    rw [List.flatMap_cons, List.append_assoc] at hR
    -- one piece, and the ones behind it
    obtain ⟨rd₁, hread, hR₁⟩ := hsv.record hR he
    obtain ⟨rd', hloop, hR'⟩ := ih hR₁ (fun x hx => hlen x (by simp [hx]))
      (fun x hx => hlong x (by simp [hx])) (fun x hx => hlast x (by simp [hx])) (list ++ [e])
    refine ⟨rd', ?_, ?_⟩
    · rw [List.length_cons, readLongNames, hread]
      show (if e.raw.length < sizeof then _ else _) = _
      rw [if_neg (by omega)]
      show (if (!e.isLongName || e.isLast) = true then _ else readLongNames rr es.length rd₁ (list ++ [e])) = _
      rw [if_neg (by simp [hlong e, hlast e]), hloop, List.append_assoc]
      rfl
    · rw [List.length_cons, Nat.mul_succ, Nat.add_comm (sizeof * es.length), ← Nat.add_assoc]
      exact hR'

theorem longNamesOk_spec {chksum : Nat} {es : List FatDirentLong} {i : Nat}
    (hnum : es.map FatDirentLong.sequenceNumber = List.range' (i + 1) es.length)
    (hck : ∀ e ∈ es, e.shortNameChecksum = chksum) : longNamesOk chksum i es = true := by
  induction es generalizing i with
  | nil => rfl
  | cons e es ih =>
    rw [List.map_cons, List.length_cons, List.range'_succ, List.cons.injEq] at hnum
    rw [longNamesOk, hnum.1, hck e (by simp), ih hnum.2 fun x hx => hck x (by simp [hx])]
    simp

/-- The first record of a long name carries the number of its pieces. -/
theorem LongName.first_number {e : FatDirentLong} {es : List FatDirentLong} {r : FatDirent}
    (h : LongName (e :: es) r) : e.sequenceNumber = es.length + 1 := by
  have hnum := h.numbers
  rw [List.reverse_cons, List.map_append, List.length_cons, List.range'_concat] at hnum
  have hlast := (List.append_inj' hnum rfl).2
  simp only [List.map_cons, List.map_nil, List.cons.injEq, and_true] at hlast
  omega

theorem scanRound_long (hsv : Serves rr R) {rd : ρ} {ls : List FatDirentLong} {r : FatDirent}
    {d : Bytes} {t : Nat} (hR : R rd (ls.flatMap FatDirentLong.raw ++ (r.raw ++ d)) t)
    (hlen : ∀ e ∈ ls, e.raw.length = sizeof)
    (hnotLast : ∀ e ∈ ls, (⟨e.raw⟩ : FatDirent).isLastInList = false)
    (hrlen : r.raw.length = sizeof) (hlong : LongName ls r) (hlive : r.isLive = true) :
    ∃ rd', scanRound rr rd = entryRound r ls.reverse rd' ∧
      R rd' d (t + sizeof * (ls.length + 1)) := by
  obtain ⟨e, es, rfl, hlast, hdel, hes⟩ := hlong.first
  have hnum := LongName.first_number hlong
  have hck : e.shortNameChecksum = r.checksum := hlong.checksum e (by simp)
  have he : (⟨e.raw⟩ : FatDirent).isLongName = true := hlong.long e (by simp)
  simp only [isLive, Bool.and_eq_true, Bool.not_eq_true'] at hlive
  rw [List.flatMap_cons, List.append_assoc] at hR
  obtain ⟨rd₁, hread₁, hR₁⟩ := hsv.record hR (hlen e (by simp))
  obtain ⟨rd₂, hloop, hR₂⟩ := readLongNames_spec hsv hR₁ (fun x hx => hlen x (by simp [hx]))
    (fun x hx => hlong.long x (by simp [hx])) hes [e]
  obtain ⟨rd₃, hread₃, hR₃⟩ := hsv.record hR₂ hrlen
  have hok : longNamesOk r.checksum 0 (e :: es).reverse = true :=
    longNamesOk_spec (by rw [List.length_reverse]; exact hlong.numbers)
      fun x hx => hlong.checksum x (List.mem_reverse.mp hx)
  -- the pieces pass all checks, and so does the record behind them
  have hentry : readLongEntry rr e rd₁ = .ok (r, (e :: es).reverse, rd₃) := by
    rw [readLongEntry, if_neg (by simp [hlast, hnum]), hnum, Nat.add_sub_cancel, hloop]
    show (if (!longNamesOk e.shortNameChecksum 0 (e :: es).reverse) = true then _ else _) = _
    rw [hck, hok, if_neg (by decide), hread₃]
    show (if r.raw.length < sizeof then _ else _) = _
    rw [if_neg (by omega)]
    show (if r.isLongName = true then _ else _) = _
    rw [if_neg (by simp [hlive.2])]
    show (if r.checksum ≠ r.checksum then _ else _) = _
    rw [if_neg (by simp)]
    rfl
  refine ⟨rd₃, ?_, ?_⟩
  · rw [scanRound, hread₁]
    show (if e.raw.length < sizeof then _ else _) = _
    rw [if_neg (by have := hlen e (by simp); omega), if_neg (by simp [hdel]),
      if_neg (by simp [hnotLast e (by simp)]), if_pos he]
    show (readLongEntry rr e rd₁ >>= fun x => _) = _
    rw [hentry]
    rfl
  · have hsum : t + sizeof + sizeof * es.length + sizeof = t + sizeof * ((e :: es).length + 1) := by
      rw [List.length_cons]
      ring
    rwa [← hsum]

/-! ## Section 3: The whole directory -/

/-- The entries behind the ones in `out`, and the size of the directory. -/
def scanned (out : List DirEntry) (total : Nat) (es : Except Fail (List DirEntry)) :
    Except Fail (List DirEntry × Nat) := do
  .ok (out ++ (← es), total)

theorem scanLoop_entry {rd rd' : ρ} {n : Nat} {out : List DirEntry} {r : FatDirent}
    {ls : List FatDirentLong} {gs : List (List FatDirentLong × FatDirent)} {total : Nat}
    (hround : scanRound rr rd = entryRound r ls rd')
    (hrest : ∀ out, scanLoop rr n rd' out = scanned out total (makeEntries gs)) :
    scanLoop rr (n + 1) rd out = scanned out total (makeEntries ((ls, r) :: gs)) := by
  rw [scanLoop, hround, entryRound, makeEntries]
  cases makeEntry r ls with
  | error f => rfl
  | ok e =>
    show scanLoop rr n rd' (out ++ [e]) = _
    rw [hrest]
    cases makeEntries gs with
    | error f => rfl
    | ok es => simp [scanned, bind, Except.bind]

/-- The induction follows the groups: each round of the loop takes one. -/
theorem scanLoop_spec (hsv : Serves rr R) {rs : List FatDirent}
    {gs : List (List FatDirentLong × FatDirent)} (hg : Groups rs gs) {tail : Bytes}
    (hlen : ∀ r ∈ rs, r.raw.length = sizeof) (hlast : ∀ r ∈ rs, r.isLastInList = false)
    (htail : Ends tail) {rd : ρ} {t : Nat} (hR : R rd (rawBytes rs ++ tail) t) (n : Nat)
    (out : List DirEntry) (hn : rs.length < n) :
    scanLoop rr n rd out = scanned out (t + sizeof * rs.length) (makeEntries gs) := by
  induction hg generalizing rd t n out with
  | nil =>
    obtain ⟨m, rfl⟩ : ∃ m, n = m + 1 := ⟨n - 1, by simp at hn; omega⟩
    obtain ⟨overread, rd', hround, htotal⟩ := scanRound_ends hsv hR htail
    rw [scanLoop, hround]
    show Except.ok (out, rr.totalRead rd' - overread) = _
    rw [htotal]
    simp [scanned, makeEntries, bind, Except.bind]
  | @deleted r rs gs hdel _ ih =>
    obtain ⟨m, rfl⟩ : ∃ m, n = m + 1 := ⟨n - 1, by omega⟩
    rw [List.length_cons] at hn
    have happ : rawBytes (r :: rs) ++ tail = r.raw ++ (rawBytes rs ++ tail) := by simp [rawBytes]
    rw [happ] at hR
    obtain ⟨rd', hround, hR'⟩ := scanRound_deleted hsv hR (hlen r (by simp)) hdel
    rw [scanLoop, hround]
    show scanLoop rr m rd' out = _
    rw [ih (fun x hx => hlen x (by simp [hx])) (fun x hx => hlast x (by simp [hx])) hR' m out
      (by omega), List.length_cons, Nat.mul_succ]
    congr 1
    omega
  | @plain r rs gs hlive _ ih =>
    obtain ⟨m, rfl⟩ : ∃ m, n = m + 1 := ⟨n - 1, by omega⟩
    rw [List.length_cons] at hn
    have happ : rawBytes (r :: rs) ++ tail = r.raw ++ (rawBytes rs ++ tail) := by simp [rawBytes]
    rw [happ] at hR
    obtain ⟨rd', hround, hR'⟩ :=
      scanRound_plain hsv hR (hlen r (by simp)) (hlast r (by simp)) hlive
    apply scanLoop_entry hround
    intro out
    rw [ih (fun x hx => hlen x (by simp [hx])) (fun x hx => hlast x (by simp [hx])) hR' m out
      (by omega), List.length_cons, Nat.mul_succ]
    congr 1
    omega
  -- a long name and its record are one round
  | @long ls r rs gs hlong hlive _ ih =>
    obtain ⟨m, rfl⟩ : ∃ m, n = m + 1 := ⟨n - 1, by omega⟩
    rw [List.length_append, List.length_map, List.length_cons] at hn
    have happ : rawBytes (ls.map (fun e => ⟨e.raw⟩) ++ r :: rs) ++ tail =
        ls.flatMap FatDirentLong.raw ++ (r.raw ++ (rawBytes rs ++ tail)) := by
      simp [rawBytes, List.flatMap_map]
    have hmem : ∀ e ∈ ls, (⟨e.raw⟩ : FatDirent) ∈
        ls.map (fun e => (⟨e.raw⟩ : FatDirent)) ++ r :: rs := fun e he =>
      List.mem_append_left _ (List.mem_map_of_mem he)
    rw [happ] at hR
    obtain ⟨rd', hround, hR'⟩ := scanRound_long hsv hR (fun e he => hlen _ (hmem e he))
      (fun e he => hlast _ (hmem e he)) (hlen r (by simp)) hlong hlive
    apply scanLoop_entry hround
    intro out
    rw [ih (fun x hx => hlen x (by simp [hx])) (fun x hx => hlast x (by simp [hx])) hR' m out
      (by omega), List.length_append, List.length_map, List.length_cons]
    congr 1
    ring

end Reader

/-! ## Section 4: Directories on a volume -/

variable {super : FatSuper} {s : Session}

theorem serves_fileRecords (hs : s.Ok super) :
    Serves (fileRecords super s) fun rd d t => Delivers super s rd d ∧ rd.totalRead = t where
  read h := by
    obtain ⟨rd', hread, htotal, hdel⟩ := read_spec hs h.1 sizeof
    exact ⟨rd', hread, hdel, by rw [htotal, h.2]⟩
  total h := h.2

theorem chain_bytes_lt (hs : s.Ok super) {c : Nat} {l : List Nat}
    (hch : (memView super s).Chain c l) : l.length * bytesPerCluster super < 2 ^ 32 := by
  have hlen : l.length ≤ dataClusters super := hch.length_le
  have hmul := Nat.mul_le_mul_right (bytesPerCluster super) hlen
  have hall := hs.layout.clusters_le
  have hsmall := hs.layout.small
  omega

/-- `ScanDirectory` on a directory. -/
theorem scanDirectory_spec (hs : s.Ok super) (hv : (memView super s).Sane) {c : Nat}
    {l : List Nat} (hch : (memView super s).Chain c l) (hne : l ≠ [])
    {gs : List (List FatDirentLong × FatDirent)}
    (hg : Groups (body ((memView super s).content l)) gs) :
    scanDirectory super s (dirReader c) =
      scanned [] (sizeof * (body ((memView super s).content l)).length) (makeEntries gs) := by
  have hlt := chain_bytes_lt hs hch
  have hlen : ((memView super s).content l).length = l.length * bytesPerCluster super :=
    Vol.length_content hv fun x hx => hch.valid hx
  have hbody := length_body_le ((memView super s).content l)
  have hdel : Delivers super s (dirReader c) ((memView super s).content l) := by
    have h : Delivers super s (dirReader c)
        (((memView super s).content l).take 0xFFFFFFFF) := Delivers.new hch hne
    rwa [List.take_of_length_le (by omega)] at h
  -- the body, and an end behind it
  obtain ⟨tail, htail, hends⟩ := exists_tail ((memView super s).content l)
  have hfuel : (body ((memView super s).content l)).length < 0xFFFFFFFF / sizeof + 1 := by
    rw [show sizeof = 32 from rfl] at hbody ⊢
    omega
  have hscan := scanLoop_spec (serves_fileRecords hs) hg (fun r hr => length_of_mem_body hr)
    (fun r hr => not_last_of_mem_body hr) hends (And.intro (htail ▸ hdel) rfl)
    (0xFFFFFFFF / sizeof + 1) [] hfuel
  rw [show (dirReader c).totalRead = 0 from rfl, Nat.zero_add] at hscan
  exact hscan

end Hausboot.FatEdit

import Hausboot.FatEdit.Scan

/-! # The fatedit Tool: What ScanDirectory Accepts

    The converse of `Scan`. Where `ScanDirectory` returns a list, each record
    that it has gone over is deleted, listed, or a piece of the long name of a
    listed one, and it has stopped at a terminator or where the reader had no
    complete record left. Nothing is assumed of the chain or of the image. -/

open ByteLib Prog

namespace Hausboot.FatEdit

open FatDirent

/-! ## Section 1: Listed records -/

/-- A record that `ScanDirectory` takes as a piece of a long name. -/
structure Piece (r : FatDirent) : Prop where
  long : r.isLongName = true
  notDeleted : r.isDummiedOut = false
  notLast : r.isLastInList = false

/-- `es` is what `ScanDirectory` makes of the records. The record behind a long
    name is listed as it is, also if it is deleted or a terminator. -/
inductive Listed : List FatDirent → List DirEntry → Prop where
  | nil : Listed [] []
  | deleted {r : FatDirent} {rs : List FatDirent} {es : List DirEntry} :
      r.isDummiedOut = true → Listed rs es → Listed (r :: rs) es
  | plain {r : FatDirent} {rs : List FatDirent} {e : DirEntry} {es : List DirEntry} :
      r.isLive = true → r.isLastInList = false → makeEntry r [] = .ok e → Listed rs es →
      Listed (r :: rs) (e :: es)
  | long {ps : List FatDirent} {r : FatDirent} {rs : List FatDirent} {ls : List FatDirentLong}
      {e : DirEntry} {es : List DirEntry} :
      ps ≠ [] → (∀ p ∈ ps, Piece p) → r.isLongName = false → makeEntry r ls = .ok e →
      Listed rs es → Listed (ps ++ r :: rs) (e :: es)

theorem Listed.append {rs rs' : List FatDirent} {es es' : List DirEntry} (h : Listed rs es)
    (h' : Listed rs' es') : Listed (rs ++ rs') (es ++ es') := by
  induction h with
  | nil => exact h'
  | deleted hdel _ ih => exact .deleted hdel ih
  | plain hlive hlast hmake _ ih => exact .plain hlive hlast hmake ih
  | long hne hps hr hmake _ ih =>
    rw [List.append_assoc, List.cons_append, List.cons_append]
    exact .long hne hps hr hmake ih

theorem seqNumber_eq (e : FatDirentLong) : e.seqNumber = (e.raw.getD 0 0).toNat := by
  rw [FatDirentLong.seqNumber]
  cases hraw : e.raw with
  | nil => rfl
  | cons b bs => simp [slice, leNat]

/-- A numbered record is no terminator. -/
theorem not_last_of_number {e : FatDirentLong} (hnum : 0 < e.sequenceNumber) :
    (⟨e.raw⟩ : FatDirent).isLastInList = false := by
  by_contra hzero
  have hbyte : e.raw.getD 0 0 = 0 := by simpa [isLastInList] using hzero
  rw [FatDirentLong.sequenceNumber, seqNumber_eq, hbyte] at hnum
  exact absurd hnum (by decide)

/-- The mark of a deleted record would make it the last piece. -/
theorem not_deleted_of_not_last {e : FatDirentLong} (hlast : e.isLast = false) :
    (⟨e.raw⟩ : FatDirent).isDummiedOut = false := by
  by_contra hdel
  have hbyte : e.raw.getD 0 0 = 0xE5 := by simpa [isDummiedOut] using hdel
  rw [FatDirentLong.isLast, seqNumber_eq, hbyte] at hlast
  exact absurd hlast (by decide)

theorem LongName.piece {ls : List FatDirentLong} {r : FatDirent} (h : LongName ls r)
    {e : FatDirentLong} (he : e ∈ ls) : Piece ⟨e.raw⟩ := by
  obtain ⟨e₁, es, rfl, -, hdel, hes⟩ := h.first
  have hmem : e.sequenceNumber ∈ (e₁ :: es).reverse.map FatDirentLong.sequenceNumber :=
    List.mem_map_of_mem (List.mem_reverse.mpr he)
  rw [h.numbers, List.mem_range'_1] at hmem
  refine ⟨h.long e he, ?_, not_last_of_number (by omega)⟩
  rcases List.mem_cons.mp he with rfl | he
  · exact hdel
  · exact not_deleted_of_not_last (hes e he)

/-- What `ScanDirectory` takes from the records: the same as `Groups`, but the
    record behind a long name may be deleted or a terminator. -/
inductive Taken : List FatDirent → List (List FatDirentLong × FatDirent) → Prop where
  | nil : Taken [] []
  | deleted {r : FatDirent} {rs : List FatDirent} {gs : List (List FatDirentLong × FatDirent)} :
      r.isDummiedOut = true → Taken rs gs → Taken (r :: rs) gs
  | plain {r : FatDirent} {rs : List FatDirent} {gs : List (List FatDirentLong × FatDirent)} :
      r.isLive = true → r.isLastInList = false → Taken rs gs → Taken (r :: rs) (([], r) :: gs)
  | long {ls : List FatDirentLong} {r : FatDirent} {rs : List FatDirent}
      {gs : List (List FatDirentLong × FatDirent)} :
      LongName ls r → r.isLongName = false → Taken rs gs →
      Taken (ls.map (fun e => ⟨e.raw⟩) ++ r :: rs) ((ls.reverse, r) :: gs)

theorem Taken.append {rs rs' : List FatDirent} {gs gs' : List (List FatDirentLong × FatDirent)}
    (h : Taken rs gs) (h' : Taken rs' gs') : Taken (rs ++ rs') (gs ++ gs') := by
  induction h with
  | nil => exact h'
  | deleted hdel _ ih => exact .deleted hdel ih
  | plain hlive hlast _ ih => exact .plain hlive hlast ih
  | long hlong hr _ ih =>
    rw [List.append_assoc, List.cons_append, List.cons_append]
    exact .long hlong hr ih

theorem Taken.listed {rs : List FatDirent} {gs : List (List FatDirentLong × FatDirent)}
    {es : List DirEntry} (h : Taken rs gs) (hes : makeEntries gs = .ok es) : Listed rs es := by
  induction h generalizing es with
  | nil =>
    obtain rfl := Except.ok.inj hes
    exact .nil
  | deleted hdel _ ih => exact .deleted hdel (ih hes)
  | plain hlive hlast _ ih =>
    obtain ⟨e, es', hmake, hes', rfl⟩ := makeEntries_cons_ok.mp hes
    exact .plain hlive hlast hmake (ih hes')
  | long hlong hr _ ih =>
    obtain ⟨e, es', hmake, hes', rfl⟩ := makeEntries_cons_ok.mp hes
    obtain ⟨e₁, ls', rfl, -⟩ := hlong.first
    refine .long (by simp) (fun p hp => ?_) hr hmake (ih hes')
    obtain ⟨x, hx, rfl⟩ := List.mem_map.mp hp
    exact LongName.piece hlong hx

theorem longNamesOk_inv {chksum i : Nat} {es : List FatDirentLong}
    (h : longNamesOk chksum i es = true) :
    es.map FatDirentLong.sequenceNumber = List.range' (i + 1) es.length ∧
      ∀ e ∈ es, e.shortNameChecksum = chksum := by
  induction es generalizing i with
  | nil => simp
  | cons e es ih =>
    simp only [longNamesOk, Bool.and_eq_true, decide_eq_true_eq] at h
    obtain ⟨⟨hnum, hck⟩, hrest⟩ := h
    obtain ⟨hnums, hcks⟩ := ih hrest
    refine ⟨?_, List.forall_mem_cons.mpr ⟨hck, hcks⟩⟩
    rw [List.map_cons, List.length_cons, List.range'_succ, hnum, hnums]

/-! ## Section 2: Rounds -/

section Reader

variable {ρ : Type} {rr : RecordReader ρ} {At : List FatDirent → ρ → Prop}
  {Stop : List FatDirent → Prop}

/-- Where `rr` reads a complete record, the records read so far get longer by
    it; where it reads less, there is a reason to stop. -/
def Reads (rr : RecordReader ρ) (At : List FatDirent → ρ → Prop) (Stop : List FatDirent → Prop) :
    Prop :=
  ∀ rs rd raw rd', At rs rd → rr.read rd = .ok (raw, rd') →
    ¬ raw.length < sizeof ∧ At (rs ++ [⟨raw⟩]) rd' ∨ raw.length < sizeof ∧ Stop rs

theorem Reads.full (h : Reads rr At Stop) {rs : List FatDirent} {rd rd' : ρ} {raw : Bytes}
    (hat : At rs rd) (hread : rr.read rd = .ok (raw, rd')) (hlen : ¬ raw.length < sizeof) :
    At (rs ++ [⟨raw⟩]) rd' := by
  rcases h rs rd raw rd' hat hread with ⟨-, hat'⟩ | ⟨hlt, -⟩
  · exact hat'
  · exact absurd hlt hlen

theorem readLongNames_inv (h : Reads rr At Stop) {n : Nat} {rs : List FatDirent} {rd rd' : ρ}
    {list list' : List FatDirentLong} (hat : At rs rd)
    (hread : readLongNames rr n rd list = .ok (list', rd')) :
    ∃ es : List FatDirentLong, list' = list ++ es ∧
      (∀ e ∈ es, e.isLongName = true ∧ e.isLast = false) ∧
      At (rs ++ es.map fun e => ⟨e.raw⟩) rd' := by
  induction n generalizing rs rd list with
  | zero =>
    obtain ⟨rfl, rfl⟩ := Prod.mk.inj (Except.ok.inj hread)
    exact ⟨[], by simp, by simp, by simpa using hat⟩
  | succ n ih =>
    obtain ⟨⟨d, rd₁⟩, hd, hread⟩ := except_bind_eq_ok.mp hread
    dsimp only at hread
    -- a record that is cut off, and one that is no piece, are refused
    split at hread
    · cases hread
    next hlen =>
    split at hread
    · cases hread
    next hpiece =>
      simp only [Bool.or_eq_true, Bool.not_eq_true', not_or, Bool.not_eq_false,
        Bool.not_eq_true] at hpiece
      obtain ⟨es, rfl, hes, hat'⟩ := ih (h.full hat hd hlen) hread
      refine ⟨⟨d⟩ :: es, by simp, List.forall_mem_cons.mpr ⟨hpiece, hes⟩, ?_⟩
      rwa [List.append_assoc] at hat'

/-- The long name that starts with `first`, and the record behind it. -/
theorem readLongEntry_inv (h : Reads rr At Stop) {first : FatDirentLong} {rs : List FatDirent}
    {rd rd' : ρ} {r : FatDirent} {ls : List FatDirentLong} (hat : At (rs ++ [⟨first.raw⟩]) rd)
    (hfirst : Piece ⟨first.raw⟩) (hread : readLongEntry rr first rd = .ok (r, ls, rd')) :
    ∃ ls', ls = ls'.reverse ∧ LongName ls' r ∧ r.isLongName = false ∧
      At (rs ++ (ls'.map (fun e => ⟨e.raw⟩) ++ [r])) rd' := by
  unfold readLongEntry at hread
  split at hread
  · cases hread
  next hstart =>
  obtain ⟨⟨list, rd₁⟩, hlist, hread⟩ := except_bind_eq_ok.mp hread
  dsimp only at hread
  split at hread
  · cases hread
  next hok =>
  obtain ⟨⟨d, rd₂⟩, hd, hread⟩ := except_bind_eq_ok.mp hread
  dsimp only at hread
  split at hread
  · cases hread
  next hlen =>
  split at hread
  · cases hread
  next hshort =>
  split at hread
  · cases hread
  next hck =>
  obtain ⟨rfl, hrest⟩ := Prod.mk.inj (Except.ok.inj hread)
  obtain ⟨rfl, rfl⟩ := Prod.mk.inj hrest
  obtain ⟨es, rfl, hes, hat₁⟩ := readLongNames_inv h hat hlist
  have hat₂ := h.full hat₁ hd hlen
  simp only [Bool.or_eq_true, Bool.not_eq_true', not_or, Bool.not_eq_false] at hstart
  have hseq : longNamesOk first.shortNameChecksum 0 (first :: es).reverse = true := by
    simpa using hok
  obtain ⟨hnums, hcks⟩ := longNamesOk_inv hseq
  -- each check that was passed is one condition on the long name
  refine ⟨first :: es, rfl, ⟨?_, ?_, ?_, ?_⟩, by simpa using hshort, by simpa using hat₂⟩
  · exact ⟨first, es, rfl, hstart.1, hfirst.notDeleted, fun e he => (hes e he).2⟩
  · exact List.forall_mem_cons.mpr ⟨hfirst.long, fun e he => (hes e he).1⟩
  · rwa [List.length_reverse] at hnums
  · intro e he
    rw [hcks e (List.mem_reverse.mpr he), ← not_not.mp hck]

/-- Why the loop stops: it has read a terminator, or there was no complete
    record left. -/
def Stopped (At : List FatDirent → ρ → Prop) (Stop : List FatDirent → Prop)
    (rs : List FatDirent) : Prop :=
  (∃ r rd, r.isLastInList = true ∧ At (rs ++ [r]) rd) ∨ Stop rs

theorem scanRound_inv (h : Reads rr At Stop) {rs : List FatDirent} {rd rd' : ρ} {round : Round}
    (hat : At rs rd) (hround : scanRound rr rd = .ok (round, rd')) :
    match round with
    | .stop _ => Stopped At Stop rs
    | .skip => ∃ rs', Taken rs' [] ∧ At (rs ++ rs') rd'
    | .entry e => ∃ rs' ls r, Taken rs' [(ls, r)] ∧ makeEntry r ls = .ok e ∧ At (rs ++ rs') rd' := by
  unfold scanRound at hround
  obtain ⟨⟨d, rd₁⟩, hd, hround⟩ := except_bind_eq_ok.mp hround
  dsimp only at hround
  split at hround
  · next hlen =>
    obtain ⟨rfl, -⟩ := Prod.mk.inj (Except.ok.inj hround)
    rcases h rs rd d rd₁ hat hd with ⟨hfull, -⟩ | ⟨-, hstop⟩
    · exact absurd hlen hfull
    · exact .inr hstop
  next hlen =>
  have hat₁ := h.full hat hd hlen
  split at hround
  · next hdel =>
    obtain ⟨rfl, rfl⟩ := Prod.mk.inj (Except.ok.inj hround)
    exact ⟨[⟨d⟩], .deleted hdel .nil, hat₁⟩
  next hdel =>
  split at hround
  · next hlast =>
    obtain ⟨rfl, -⟩ := Prod.mk.inj (Except.ok.inj hround)
    exact .inl ⟨⟨d⟩, rd₁, hlast, hat₁⟩
  next hlast =>
  simp only [Bool.not_eq_true] at hdel hlast
  split at hround
  · -- the pieces of a long name and the record behind them
    next hlong =>
    obtain ⟨⟨r, ls, rd₂⟩, hentry, hround⟩ := except_bind_eq_ok.mp hround
    obtain ⟨e, hmake, hround⟩ := except_bind_eq_ok.mp hround
    obtain ⟨rfl, rfl⟩ := Prod.mk.inj (Except.ok.inj hround)
    obtain ⟨ls', rfl, hname, hr, hat₂⟩ := readLongEntry_inv h hat₁ ⟨hlong, hdel, hlast⟩ hentry
    exact ⟨_, ls'.reverse, r, .long hname hr .nil, hmake, hat₂⟩
  · next hlong =>
    obtain ⟨e, hmake, hround⟩ := except_bind_eq_ok.mp hround
    obtain ⟨rfl, rfl⟩ := Prod.mk.inj (Except.ok.inj hround)
    exact ⟨[⟨d⟩], [], ⟨d⟩, .plain (by simp [isLive, hdel, hlong]) hlast .nil, hmake, hat₁⟩

/-! ## Section 3: The whole loop -/

/-- The records that the loop goes over, and the round that ends it. -/
theorem scanLoop_taken (h : Reads rr At Stop) {n : Nat} {rs : List FatDirent} {rd : ρ}
    {out es : List DirEntry} {total : Nat} (hat : At rs rd)
    (hscan : scanLoop rr n rd out = .ok (es, total)) :
    ∃ rs' gs es', Taken rs' gs ∧ makeEntries gs = .ok es' ∧ es = out ++ es' ∧
      ∃ rd₁ rd₂ overread, At (rs ++ rs') rd₁ ∧ scanRound rr rd₁ = .ok (.stop overread, rd₂) ∧
        total = rr.totalRead rd₂ - overread := by
  induction n generalizing rs rd out with
  | zero => cases hscan
  | succ n ih =>
    obtain ⟨⟨round, rd'⟩, hround, hscan⟩ := except_bind_eq_ok.mp hscan
    have hinv := scanRound_inv h hat hround
    cases round with
    | stop overread =>
      obtain ⟨rfl, rfl⟩ := Prod.mk.inj (Except.ok.inj hscan)
      exact ⟨[], [], [], .nil, rfl, (List.append_nil _).symm, rd, rd', overread,
        by rwa [List.append_nil], hround, rfl⟩
    | skip =>
      obtain ⟨rs₁, hrs₁, hat₁⟩ := hinv
      obtain ⟨rs', gs, es', htaken, hmake, hes, hstop⟩ := ih hat₁ hscan
      refine ⟨rs₁ ++ rs', gs, es', hrs₁.append htaken, hmake, hes, ?_⟩
      rwa [← List.append_assoc]
    | entry e =>
      -- the entry goes in front of the ones of the later rounds
      obtain ⟨rs₁, ls, r, hrs₁, he, hat₁⟩ := hinv
      obtain ⟨rs', gs, es', htaken, hmake, rfl, hstop⟩ := ih hat₁ hscan
      refine ⟨rs₁ ++ rs', (ls, r) :: gs, e :: es', hrs₁.append htaken,
        makeEntries_cons_ok.mpr ⟨e, es', he, hmake, rfl⟩, by rw [List.append_assoc]; rfl, ?_⟩
      rwa [← List.append_assoc]

theorem scanLoop_inv (h : Reads rr At Stop) {n : Nat} {rs : List FatDirent} {rd : ρ}
    {out es : List DirEntry} {total : Nat} (hat : At rs rd) (hlist : Listed rs out)
    (hscan : scanLoop rr n rd out = .ok (es, total)) :
    ∃ rs', Listed rs' es ∧ Stopped At Stop rs' := by
  obtain ⟨rs', gs, es', htaken, hmake, rfl, rd₁, rd₂, overread, hat₁, hround, -⟩ :=
    scanLoop_taken h hat hscan
  exact ⟨rs ++ rs', hlist.append (htaken.listed hmake), scanRound_inv h hat₁ hround⟩

end Reader

end Hausboot.FatEdit

namespace Hausboot

open FatEdit (DirEntry Listed Piece Taken)

/-! ## Section 4: Long names that are followed -/

def NoTerminator (rs : List FatDirent) : Prop := ∀ r ∈ rs, r.isLastInList = false

/-- In front of the first terminator, the record behind a piece of a long name
    is neither deleted nor a terminator. -/
def LongNamesFollowed (rs : List FatDirent) : Prop :=
  ∀ pre a b post, rs = pre ++ a :: b :: post → NoTerminator pre → Piece a →
    b.isDummiedOut = false ∧ b.isLastInList = false

theorem NoTerminator.mono {rs rs' : List FatDirent} (h : NoTerminator rs') (hsub : rs ⊆ rs') :
    NoTerminator rs := fun r hr => h r (hsub hr)

theorem LongNamesFollowed.tail {ps rs : List FatDirent} (h : LongNamesFollowed (ps ++ rs))
    (hps : NoTerminator ps) : LongNamesFollowed rs := by
  rintro pre a b post rfl hpre hpiece
  refine h (ps ++ pre) a b post (by simp) ?_ hpiece
  intro e he
  rcases List.mem_append.mp he with he | he
  · exact hps e he
  · exact hpre e he

theorem LongNamesFollowed.tail_cons {r : FatDirent} {rs : List FatDirent}
    (h : LongNamesFollowed (r :: rs)) (hlast : r.isLastInList = false) : LongNamesFollowed rs := by
  rw [← List.singleton_append] at h
  exact h.tail (by simp [NoTerminator, hlast])

theorem LongNamesFollowed.of_front {rs rs' : List FatDirent} (h : LongNamesFollowed rs')
    (hpre : rs <+: rs') : LongNamesFollowed rs := by
  obtain ⟨rest, rfl⟩ := hpre
  rintro pre a b post rfl
  exact h pre a b (post ++ rest) (by simp)

theorem not_last_of_deleted {r : FatDirent} (h : r.isDummiedOut = true) :
    r.isLastInList = false := by
  simp only [FatDirent.isDummiedOut, FatDirent.isLastInList, beq_iff_eq] at h ⊢
  rw [h]
  decide

/-- The record behind the pieces of a long name. -/
theorem LongNamesFollowed.behind {ps rs : List FatDirent} {r : FatDirent}
    (h : LongNamesFollowed (ps ++ r :: rs)) (hne : ps ≠ []) (hps : ∀ p ∈ ps, Piece p) :
    r.isDummiedOut = false ∧ r.isLastInList = false := by
  have hsplit := List.dropLast_append_getLast hne
  refine h ps.dropLast (ps.getLast hne) r rs ?_ ?_ (hps _ (List.getLast_mem hne))
  · rw [← List.singleton_append (x := ps.getLast hne), ← List.append_assoc, hsplit]
  · exact fun p hp => (hps p (List.dropLast_subset _ hp)).notLast

theorem noTerminator_group {ps : List FatDirent} {r : FatDirent} (hps : ∀ p ∈ ps, Piece p)
    (hr : r.isLastInList = false) : NoTerminator (ps ++ [r]) := by
  intro p hp
  rcases List.mem_append.mp hp with hp | hp
  · exact (hps p hp).notLast
  · rw [List.mem_singleton.mp hp]
    exact hr

/-- No terminator has been listed, as far as long names are followed by live
    records. -/
theorem noTerminator_of_listed {rs pre : List FatDirent} {es : List DirEntry} (h : Listed rs es)
    (hpre : pre <+: rs) (hlong : LongNamesFollowed pre) : NoTerminator pre := by
  induction h generalizing pre with
  | nil =>
    rw [List.prefix_nil.mp hpre]
    simp [NoTerminator]
  | @deleted r rs es hdel _ ih =>
    rcases List.prefix_cons_iff.mp hpre with rfl | ⟨pre, rfl, hrest⟩
    · simp [NoTerminator]
    · have hlast := not_last_of_deleted hdel
      exact List.forall_mem_cons.mpr
        ⟨hlast, ih hrest (hlong.tail_cons hlast)⟩
  | @plain r rs e es _ hlast _ _ ih =>
    rcases List.prefix_cons_iff.mp hpre with rfl | ⟨pre, rfl, hrest⟩
    · simp [NoTerminator]
    · exact List.forall_mem_cons.mpr
        ⟨hlast, ih hrest (hlong.tail_cons hlast)⟩
  | @long ps r rs ls e es hne hps _ _ _ ih =>
    rcases List.prefix_or_prefix_of_prefix hpre (List.prefix_append ps _) with hin | ⟨pre, rfl⟩
    · exact fun p hp => (hps p (hin.subset hp)).notLast
    rcases List.prefix_cons_iff.mp ((List.prefix_append_right_inj ps).mp hpre) with
      rfl | ⟨pre, rfl, hrest⟩
    · exact fun p hp => (hps p (by simpa using hp)).notLast
    -- the record behind the pieces, and the rest
    have hgroup := noTerminator_group hps (hlong.behind hne hps).2
    rw [← List.singleton_append, ← List.append_assoc] at hlong ⊢
    intro p hp
    rcases List.mem_append.mp hp with hp | hp
    · exact hgroup p hp
    · exact ih hrest (hlong.tail hgroup) p hp

/-- Where live records follow the long names, `ScanDirectory` takes what is
    there to be taken. -/
theorem groups_of_taken {rs : List FatDirent} {gs : List (List FatDirentLong × FatDirent)}
    (h : Taken rs gs) (hlong : LongNamesFollowed rs) : Groups rs gs ∧ NoTerminator rs := by
  induction h with
  | nil => exact ⟨.nil, by simp [NoTerminator]⟩
  | deleted hdel _ ih =>
    have hlast := not_last_of_deleted hdel
    obtain ⟨hgroups, hrest⟩ := ih (hlong.tail_cons hlast)
    exact ⟨.deleted hdel hgroups, List.forall_mem_cons.mpr ⟨hlast, hrest⟩⟩
  | plain hlive hlast _ ih =>
    obtain ⟨hgroups, hrest⟩ := ih (hlong.tail_cons hlast)
    exact ⟨.plain hlive hgroups, List.forall_mem_cons.mpr ⟨hlast, hrest⟩⟩
  | @long ls r rs gs hname hr _ ih =>
    have hps : ∀ p ∈ ls.map fun e => (⟨e.raw⟩ : FatDirent), Piece p := by
      intro p hp
      obtain ⟨e, he, rfl⟩ := List.mem_map.mp hp
      exact FatEdit.LongName.piece hname he
    have hne : ls.map (fun e => (⟨e.raw⟩ : FatDirent)) ≠ [] := by
      obtain ⟨e, es, rfl, -⟩ := hname.first
      simp
    -- the record behind the pieces is the one that was not looked at
    obtain ⟨hdel, hlast⟩ := hlong.behind hne hps
    have hgroup := noTerminator_group hps hlast
    rw [← List.singleton_append, ← List.append_assoc] at hlong
    obtain ⟨hgroups, hrest⟩ := ih (hlong.tail hgroup)
    refine ⟨.long hname (by simp [FatDirent.isLive, hdel, hr]) hgroups, ?_⟩
    rw [← List.singleton_append, ← List.append_assoc]
    exact fun p hp => (List.mem_append.mp hp).elim (hgroup p) (hrest p)

/-- Behind a piece of a long name there is another one, or a live record. -/
theorem Groups.behind_piece {rs pre post : List FatDirent}
    {gs : List (List FatDirentLong × FatDirent)} {a : FatDirent} (h : Groups rs gs)
    (hrs : rs = pre ++ a :: post) (ha : Piece a) :
    ∃ b post', post = b :: post' ∧ b.isDummiedOut = false := by
  induction h generalizing pre with
  | nil => simp at hrs
  | @deleted r rs gs hdel _ ih =>
    rcases List.cons_eq_append_iff.mp hrs with ⟨rfl, heq⟩ | ⟨pre', rfl, heq⟩
    · obtain ⟨rfl, -⟩ := List.cons.inj heq
      rw [ha.notDeleted] at hdel
      cases hdel
    · exact ih heq
  | @plain r rs gs hlive _ ih =>
    rcases List.cons_eq_append_iff.mp hrs with ⟨rfl, heq⟩ | ⟨pre', rfl, heq⟩
    · obtain ⟨rfl, -⟩ := List.cons.inj heq
      simp [FatDirent.isLive, ha.long] at hlive
    · exact ih heq
  | @long ls r rs gs hname hlive _ ih =>
    simp only [FatDirent.isLive, Bool.and_eq_true, Bool.not_eq_true'] at hlive
    have hlong : a ≠ r := by
      rintro rfl
      rw [ha.long] at hlive
      cases hlive.2
    rcases List.append_eq_append_iff.mp hrs with ⟨mid, rfl, heq⟩ | ⟨mid, hls, heq⟩
    · -- in front of `a` lies the whole group
      rcases List.cons_eq_append_iff.mp heq with ⟨rfl, hpost⟩ | ⟨mid', rfl, hrest⟩
      · exact absurd (List.cons.inj hpost).1 hlong
      · exact ih hrest
    · -- `a` is a piece of the group
      rcases List.cons_eq_append_iff.mp heq with ⟨rfl, hrest⟩ | ⟨mid', rfl, rfl⟩
      · exact absurd (List.cons.inj hrest).1.symm hlong
      · cases mid' with
        | nil => exact ⟨r, rs, rfl, hlive.1⟩
        | cons b mid' =>
          have hb : b ∈ ls.map fun e => (⟨e.raw⟩ : FatDirent) := by simp [hls]
          obtain ⟨e, he, rfl⟩ := List.mem_map.mp hb
          exact ⟨_, _, rfl, (FatEdit.LongName.piece hname he).notDeleted⟩

end Hausboot

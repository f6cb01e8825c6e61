import Hausboot.Fat.Dirent

/-! # Directories as Lists of Records

    The bytes of a directory are cut into records of 32 bytes. Its `body` ends
    in front of the first record that starts with a zero byte. Records of the
    body that are neither deleted nor part of a long name are `live`; `Groups`
    reads a body as live records with the long names in front of them. -/

open ByteLib

namespace Hausboot

namespace FatDirent

/-- A record that stands for a file or a directory. -/
def isLive (e : FatDirent) : Bool := !e.isDummiedOut && !e.isLongName

/-- The name as a C string. -/
def shortName (e : FatDirent) : Option Bytes := e.nameToString.map cstr

/-- `.` or `..` -/
def isDot (e : FatDirent) : Bool := e.shortName = some [0x2E] || e.shortName = some [0x2E, 0x2E]

end FatDirent

/-! ## Section 1: Records -/

/-- The complete records of a byte string. -/
def records (d : Bytes) : List FatDirent :=
  (List.range (d.length / FatDirent.sizeof)).map fun i =>
    ⟨slice d (i * FatDirent.sizeof) FatDirent.sizeof⟩

/-- The records in front of the terminator. -/
def body (d : Bytes) : List FatDirent := (records d).takeWhile (!·.isLastInList)

def live (d : Bytes) : List FatDirent := (body d).filter FatDirent.isLive

/-- The bytes of a list of records. -/
def rawBytes (rs : List FatDirent) : Bytes := rs.flatMap FatDirent.raw

/-- Nothing more is read from these bytes: they are no complete record, or
    start with a terminator. -/
def Ends (d : Bytes) : Prop := d.length < FatDirent.sizeof ∨ d.getD 0 0 = 0

/-- The bytes of a record and the terminator behind it. -/
def terminated (e : FatDirent) : Bytes := e.raw ++ FatDirent.zero.raw

theorem length_zero : FatDirent.zero.raw.length = FatDirent.sizeof := rfl

theorem length_terminated {e : FatDirent} (he : e.raw.length = FatDirent.sizeof) :
    (terminated e).length = 2 * FatDirent.sizeof := by
  rw [terminated, List.length_append, he, length_zero]
  rfl

theorem ends_zero (rest : Bytes) : Ends (FatDirent.zero.raw ++ rest) := .inr rfl

theorem records_of_lt {d : Bytes} (h : d.length < FatDirent.sizeof) : records d = [] := by
  rw [records, Nat.div_eq_of_lt h]
  rfl

theorem records_of_le {d : Bytes} (h : FatDirent.sizeof ≤ d.length) :
    records d = ⟨d.take FatDirent.sizeof⟩ :: records (d.drop FatDirent.sizeof) := by
  have hpos : 0 < FatDirent.sizeof := by decide
  have hcount : d.length / FatDirent.sizeof = (d.length - FatDirent.sizeof) / FatDirent.sizeof + 1 := by
    rw [Nat.div_eq_sub_div hpos h]
  have hhead : slice d (0 * FatDirent.sizeof) FatDirent.sizeof = d.take FatDirent.sizeof := by
    simp [slice]
  rw [records, hcount, List.range_succ_eq_map, List.map_cons, List.map_map, hhead, records,
    List.length_drop]
  congr 1
  apply List.map_congr_left
  intro i _
  simp only [Function.comp_apply, Nat.succ_mul, slice, List.drop_drop]
  rw [Nat.add_comm]

theorem records_cons {e : FatDirent} {d : Bytes} (he : e.raw.length = FatDirent.sizeof) :
    records (e.raw ++ d) = e :: records d := by
  rw [records_of_le (by simp [he]), ← he, List.take_left, List.drop_left]

/-- Whole records can be read one part after the other. -/
theorem records_append {n : Nat} {d : Bytes} (hd : d.length = FatDirent.sizeof * n)
    (d' : Bytes) : records (d ++ d') = records d ++ records d' := by
  induction n generalizing d with
  | zero =>
    obtain rfl := List.length_eq_zero_iff.mp hd
    rfl
  | succ n ih =>
    rw [Nat.mul_succ] at hd
    have hrest := ih (d := d.drop FatDirent.sizeof) (by rw [List.length_drop]; omega)
    rw [records_of_le (d := d ++ d') (by rw [List.length_append]; omega),
      records_of_le (d := d) (by omega), List.take_append_of_le_length (by omega),
      List.drop_append_of_le_length (by omega), hrest]
    rfl

theorem rawBytes_append (rs rs' : List FatDirent) :
    rawBytes (rs ++ rs') = rawBytes rs ++ rawBytes rs' := by
  simp [rawBytes]

theorem length_rawBytes {rs : List FatDirent} (h : ∀ r ∈ rs, r.raw.length = FatDirent.sizeof) :
    (rawBytes rs).length = FatDirent.sizeof * rs.length := by
  induction rs with
  | nil => rfl
  | cons r rs ih =>
    have hr := h r (by simp)
    have hrest := ih fun x hx => h x (by simp [hx])
    have happ : rawBytes (r :: rs) = r.raw ++ rawBytes rs := rfl
    rw [happ, List.length_append, hr, hrest, List.length_cons, Nat.mul_succ, Nat.add_comm]

/-! ## Section 2: The body -/

theorem length_of_mem_records {d : Bytes} {r : FatDirent} (h : r ∈ records d) :
    r.raw.length = FatDirent.sizeof := by
  obtain ⟨i, hi, rfl⟩ := List.mem_map.mp h
  have hlt := List.mem_range.mp hi
  have hle : (i + 1) * FatDirent.sizeof ≤ d.length :=
    (Nat.mul_le_mul_right _ hlt).trans (Nat.div_mul_le_self _ _)
  rw [Nat.succ_mul] at hle
  show (slice d (i * FatDirent.sizeof) FatDirent.sizeof).length = _
  rw [length_slice]
  omega

theorem length_of_mem_body {d : Bytes} {r : FatDirent} (h : r ∈ body d) :
    r.raw.length = FatDirent.sizeof :=
  length_of_mem_records ((List.takeWhile_prefix _).subset h)

theorem not_last_of_mem_body {d : Bytes} {r : FatDirent} (h : r ∈ body d) :
    r.isLastInList = false := by
  have h := List.mem_takeWhile_imp h
  simpa using h

/-- The first byte decides whether a record is the terminator. -/
theorem isLastInList_take (d : Bytes) :
    (⟨d.take FatDirent.sizeof⟩ : FatDirent).isLastInList = (d.getD 0 0 == 0) := by
  have hhead : (d.take FatDirent.sizeof).getD 0 0 = d.getD 0 0 := by
    rw [show d.take FatDirent.sizeof = slice d 0 FatDirent.sizeof by simp [slice],
      getD_slice (by decide)]
  rw [FatDirent.isLastInList, hhead]

theorem body_of_ends {d : Bytes} (h : Ends d) : body d = [] := by
  by_cases hlt : d.length < FatDirent.sizeof
  · rw [body, records_of_lt hlt]
    rfl
  · have hzero := h.resolve_left hlt
    rw [body, records_of_le (Nat.le_of_not_lt hlt), List.takeWhile_cons_of_neg]
    rw [isLastInList_take, hzero]
    decide

theorem body_cons {e : FatDirent} {d : Bytes} (he : e.raw.length = FatDirent.sizeof)
    (hlast : e.isLastInList = false) : body (e.raw ++ d) = e :: body d := by
  rw [body, records_cons he, List.takeWhile_cons_of_pos (by simp [hlast]), body]

/-- The body is what is written as records in front of a terminator. -/
theorem body_rawBytes {rs : List FatDirent} {tail : Bytes}
    (hlen : ∀ r ∈ rs, r.raw.length = FatDirent.sizeof)
    (hlast : ∀ r ∈ rs, r.isLastInList = false) (htail : Ends tail) :
    body (rawBytes rs ++ tail) = rs := by
  induction rs with
  | nil => exact body_of_ends htail
  | cons r rs ih =>
    have happ : rawBytes (r :: rs) ++ tail = r.raw ++ (rawBytes rs ++ tail) := by
      simp [rawBytes]
    rw [happ, body_cons (hlen r (by simp)) (hlast r (by simp)),
      ih (fun x hx => hlen x (by simp [hx])) fun x hx => hlast x (by simp [hx])]

/-- The bytes of a directory: its body and an end. -/
theorem exists_tail (d : Bytes) : ∃ tail, d = rawBytes (body d) ++ tail ∧ Ends tail := by
  induction hn : d.length using Nat.strong_induction_on generalizing d with
  | _ n ih =>
    by_cases hend : Ends d
    · exact ⟨d, by rw [body_of_ends hend]; rfl, hend⟩
    · have hle : FatDirent.sizeof ≤ d.length := Nat.le_of_not_lt fun h => hend (.inl h)
      have hpos : 0 < FatDirent.sizeof := by decide
      -- one record, and what is behind it
      have hsplit : d = (⟨d.take FatDirent.sizeof⟩ : FatDirent).raw ++ d.drop FatDirent.sizeof :=
        (List.take_append_drop _ _).symm
      have hlast : (⟨d.take FatDirent.sizeof⟩ : FatDirent).isLastInList = false := by
        have hne : d.getD 0 0 ≠ 0 := fun h => hend (.inr h)
        rw [isLastInList_take]
        simpa using hne
      have hbody := body_cons (e := ⟨d.take FatDirent.sizeof⟩) (d := d.drop FatDirent.sizeof)
        (by simp only [List.length_take]; omega) hlast
      rw [← hsplit] at hbody
      obtain ⟨tail, htail, hends⟩ :=
        ih _ (by simp only [List.length_drop]; omega) (d.drop FatDirent.sizeof) rfl
      refine ⟨tail, ?_, hends⟩
      rw [hbody]
      show d = d.take FatDirent.sizeof ++ rawBytes (body (d.drop FatDirent.sizeof)) ++ tail
      rw [List.append_assoc, ← htail, List.take_append_drop]

theorem length_rawBytes_body (d : Bytes) :
    (rawBytes (body d)).length = FatDirent.sizeof * (body d).length :=
  length_rawBytes fun _ hr => length_of_mem_body hr

theorem length_body_le (d : Bytes) : FatDirent.sizeof * (body d).length ≤ d.length := by
  obtain ⟨tail, htail, -⟩ := exists_tail d
  have hlen := length_rawBytes_body d
  have happ := congrArg List.length htail
  rw [List.length_append] at happ
  omega

theorem take_length_body (d : Bytes) :
    d.take (FatDirent.sizeof * (body d).length) = rawBytes (body d) := by
  obtain ⟨tail, htail, -⟩ := exists_tail d
  have htake : (rawBytes (body d) ++ tail).take (FatDirent.sizeof * (body d).length) =
      rawBytes (body d) := by
    rw [← length_rawBytes_body, List.take_left]
  rwa [← htail] at htake

theorem mem_live {d : Bytes} {r : FatDirent} : r ∈ live d ↔ r ∈ body d ∧ r.isLive = true :=
  List.mem_filter

/-! ## Section 3: Long names -/

/-- The records `ls`, in the order of the directory, are the complete long name
    of the record `r`: the first one is marked as the last piece, and the
    pieces are numbered down to 1 and carry the checksum of `r`. -/
structure LongName (ls : List FatDirentLong) (r : FatDirent) : Prop where
  first : ∃ e es, ls = e :: es ∧ e.isLast = true ∧ (⟨e.raw⟩ : FatDirent).isDummiedOut = false ∧
    ∀ x ∈ es, x.isLast = false
  long : ∀ e ∈ ls, e.isLongName = true
  numbers : ls.reverse.map FatDirentLong.sequenceNumber = List.range' 1 ls.length
  checksum : ∀ e ∈ ls, e.shortNameChecksum = r.checksum

/-- A body, read as live records with the pieces of their long names in order.
    Each long name is complete and directly followed by its live record. -/
inductive Groups : List FatDirent → List (List FatDirentLong × FatDirent) → Prop where
  | nil : Groups [] []
  | deleted {r : FatDirent} {rs : List FatDirent} {gs : List (List FatDirentLong × FatDirent)} :
      r.isDummiedOut = true → Groups rs gs → Groups (r :: rs) gs
  | plain {r : FatDirent} {rs : List FatDirent} {gs : List (List FatDirentLong × FatDirent)} :
      r.isLive = true → Groups rs gs → Groups (r :: rs) (([], r) :: gs)
  | long {ls : List FatDirentLong} {r : FatDirent} {rs : List FatDirent}
      {gs : List (List FatDirentLong × FatDirent)} :
      LongName ls r → r.isLive = true → Groups rs gs →
      Groups (ls.map (fun e => ⟨e.raw⟩) ++ r :: rs) ((ls.reverse, r) :: gs)

namespace Groups

variable {rs rs' : List FatDirent} {gs gs' : List (List FatDirentLong × FatDirent)}

theorem append (h : Groups rs gs) (h' : Groups rs' gs') : Groups (rs ++ rs') (gs ++ gs') := by
  induction h with
  | nil => exact h'
  | deleted hdel _ ih => exact .deleted hdel ih
  | plain hlive _ ih => exact .plain hlive ih
  | long hlong hlive _ ih =>
    rw [List.append_assoc, List.cons_append, List.cons_append]
    exact .long hlong hlive ih

/-- The records of the groups are the live ones. -/
theorem map_snd (h : Groups rs gs) : gs.map Prod.snd = rs.filter FatDirent.isLive := by
  induction h with
  | nil => rfl
  | deleted hdel _ ih =>
    rw [ih, List.filter_cons_of_neg]
    simp [FatDirent.isLive, hdel]
  | plain hlive _ ih => rw [List.map_cons, ih, List.filter_cons_of_pos hlive]
  | @long ls r rs gs hlong hlive _ ih =>
    have hnone : (ls.map fun e => (⟨e.raw⟩ : FatDirent)).filter FatDirent.isLive = [] := by
      rw [List.filter_eq_nil_iff]
      intro x hx
      obtain ⟨e, he, rfl⟩ := List.mem_map.mp hx
      have hlong : (⟨e.raw⟩ : FatDirent).isLongName = true := hlong.long e he
      simp [FatDirent.isLive, hlong]
    rw [List.map_cons, ih, List.filter_append, hnone, List.nil_append,
      List.filter_cons_of_pos hlive]

/-- Without deleted records and long names there is nothing to group. -/
theorem of_all_live (h : ∀ r ∈ rs, r.isLive = true) : Groups rs (rs.map fun r => ([], r)) := by
  induction rs with
  | nil => exact .nil
  | cons r rs ih => exact .plain (h r (by simp)) (ih fun x hx => h x (by simp [hx]))

end Groups

end Hausboot

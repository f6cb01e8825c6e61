import Hausboot.Fat.Grammar
import Hausboot.Fat.Tree
import Hausboot.FatEdit.Model

/-! # The fatedit Tool: Records of Short Names

    What a directory shows for a record that was made of a name that
    `IsShortName` accepts. A name may contain blanks; without them,
    `NameToString` gives it back. -/

open ByteLib

namespace Hausboot

/-! ## Section 1: Names in records -/

namespace FatDirent

theorem stripBlanks_append_blanks (v : Bytes) (n : Nat) :
    stripBlanks (v ++ List.replicate n 0x20) = stripBlanks v := by
  induction n with
  | zero => simp
  | succ n ih =>
    rw [List.replicate_succ', ← List.append_assoc]
    exact (List.rdropWhile_concat_pos _ _ _ (by decide)).trans ih

theorem stripBlanks_of_notMem {v : Bytes} (h : 0x20 ∉ v) : stripBlanks v = v := by
  apply List.rdropWhile_eq_self_iff.mpr
  intro hne hlast
  have hmem := List.getLast_mem hne
  simp only [beq_iff_eq] at hlast
  exact h (hlast ▸ hmem)

/-- The first character of a string is kept, unless it is a blank. -/
theorem stripBlanks_cons {c : UInt8} (cs : Bytes) (h : c ≠ 0x20) :
    ∃ ds, stripBlanks (c :: cs) = c :: ds := by
  obtain ⟨t, ht⟩ : stripBlanks (c :: cs) <+: c :: cs := List.rdropWhile_prefix _ _
  cases hs : stripBlanks (c :: cs) with
  | nil =>
    have hall := List.rdropWhile_eq_nil_iff.mp hs c List.mem_cons_self
    exact absurd (by simpa using hall) h
  | cons d ds =>
    rw [hs] at ht
    simp only [List.cons_append, List.cons.injEq] at ht
    exact ⟨ds, by rw [ht.1]⟩

theorem fixedLength_eq {count : Nat} {value : Bytes} (h0 : 0 ∉ value) (hlen : value.length ≤ count) :
    fixedLength count value = value ++ List.replicate (count - value.length) 0x20 := by
  rw [fixedLength, cstr_of_notMem h0, List.take_of_length_le hlen]

variable {e : FatDirent}

theorem getD_raw_name : e.raw.getD 0 0 = e.name.getD 0 0 := by
  rw [name, getD_slice (by decide)]

theorem getD_raw_extension : e.raw.getD 8 0 = e.extension.getD 0 0 := by
  rw [extension, getD_slice (by decide)]

/-- The name that is shown starts with the first character of the record. -/
theorem nameToString_head {c : UInt8} {cs : Bytes} (hname : e.name = c :: cs) {str : Bytes}
    (h : e.nameToString = some str) : ∃ ds, str = c :: ds := by
  unfold nameToString at h
  dsimp only at h
  rw [getD_raw_name, hname] at h
  split at h
  · cases h
  · next hc =>
    have hc : c ≠ 0x20 := by simpa using hc
    obtain ⟨ds, hds⟩ := stripBlanks_cons cs hc
    rw [hds] at h
    split at h
    · obtain ⟨ds', hds'⟩ := stripBlanks_cons (ds ++ 0x2E :: e.extension) hc
      exact ⟨ds', by rw [← hds', ← Option.some.inj h]; rfl⟩
    · exact ⟨ds, (Option.some.inj h).symm⟩

/-- A record whose name does not start with a dot is no dot record. -/
theorem isDot_of_head {c : UInt8} {cs : Bytes} (hname : e.name = c :: cs) (hdot : c ≠ 0x2E)
    (h0 : c ≠ 0) : e.isDot = false := by
  unfold isDot shortName
  cases hstr : e.nameToString with
  | none => rfl
  | some str =>
    obtain ⟨ds, rfl⟩ := nameToString_head hname hstr
    simp [cstr_cons_ne h0, hdot]

end FatDirent

/-! ## Section 2: The records of fatedit -/

namespace FatEdit

open FatDirent

/-- The part of a name in front of its first dot, and the part behind it. -/
def baseName (name : Bytes) : Bytes := name.takeWhile (· ≠ 0x2E)

def extName (name : Bytes) : Bytes := (name.dropWhile (· ≠ 0x2E)).drop 1

theorem baseName_of_notMem {name : Bytes} (h : 0x2E ∉ name) : baseName name = name := by
  apply List.takeWhile_eq_self_iff.mpr
  intro x hx
  simp only [ne_eq, decide_eq_true_eq]
  rintro rfl
  exact h hx

theorem split_name {pre : Bytes} (post : Bytes) (h : 0x2E ∉ pre) :
    baseName (pre ++ 0x2E :: post) = pre ∧ extName (pre ++ 0x2E :: post) = post := by
  have hall : ∀ x ∈ pre, (decide (x ≠ 0x2E)) = true := fun x hx => by
    simp only [ne_eq, decide_eq_true_eq]
    rintro rfl
    exact h hx
  constructor
  · rw [baseName, List.takeWhile_append_of_pos hall, List.takeWhile_cons_of_neg (by simp),
      List.append_nil]
  · rw [extName, List.dropWhile_append_of_pos hall, List.dropWhile_cons_of_neg (by simp)]
    rfl

/-- A blank record with a name. -/
def namedRecord (name : Bytes) : FatDirent :=
  if name.contains 0x2E then (FatDirent.default.setName (baseName name)).setExtension (extName name)
  else FatDirent.default.setName name

theorem entryRecord_eq (isDir : Bool) (name : Bytes) (fileCluster fileSize : Nat) :
    entryRecord isDir name fileCluster fileSize =
      if isDir then ((namedRecord name).setClusterIndex fileCluster).setEntryFlags directory
      else ((namedRecord name).setClusterIndex fileCluster).setSize fileSize := rfl

theorem length_default : FatDirent.default.raw.length = sizeof := rfl

theorem length_namedRecord (name : Bytes) : (namedRecord name).raw.length = sizeof := by
  unfold namedRecord
  split
  · exact length_setExtension (length_setName length_default _) _
  · exact length_setName length_default _

theorem length_entryRecord (isDir : Bool) (name : Bytes) (fileCluster fileSize : Nat) :
    (entryRecord isDir name fileCluster fileSize).raw.length = sizeof := by
  have hlen := length_setClusterIndex (length_namedRecord name) fileCluster
  rw [entryRecord_eq]
  split
  · exact length_setEntryFlags hlen _
  · exact length_setSize hlen _

theorem length_dotRecord (name : Bytes) (cluster : Nat) :
    (dotRecord name cluster).raw.length = sizeof :=
  length_setClusterIndex (length_setEntryFlags (length_setName length_default _) _) _

section Entry

variable (isDir : Bool) (name : Bytes) (fileCluster fileSize : Nat)

/-- Below the flags, the record is the one of the name. -/
theorem window_entryRecord {o n : Nat} (h : o + n ≤ 11) :
    slice (entryRecord isDir name fileCluster fileSize).raw o n =
      slice (namedRecord name).raw o n := by
  have hlen := length_setClusterIndex (length_namedRecord name) fileCluster
  rw [entryRecord_eq]
  split
  · rw [window_setEntryFlags hlen _ (.inl h),
      window_setClusterIndex (length_namedRecord name) _ (.inl (by omega))]
  · rw [window_setSize hlen _ (by omega),
      window_setClusterIndex (length_namedRecord name) _ (.inl (by omega))]

theorem window_namedRecord {o n : Nat} (h : 11 ≤ o) :
    slice (namedRecord name).raw o n = slice FatDirent.default.raw o n := by
  unfold namedRecord
  split
  · rw [window_setExtension (length_setName length_default _) _ (.inr h),
      window_setName length_default _ (by omega)]
  · rw [window_setName length_default _ (by omega)]

theorem name_entryRecord :
    (entryRecord isDir name fileCluster fileSize).name = fixedLength 8 (baseName name) := by
  rw [FatDirent.name, window_entryRecord _ _ _ _ (by omega)]
  unfold namedRecord
  split
  · rw [window_setExtension (length_setName length_default _) _ (.inl (by omega))]
    exact name_setName length_default _
  · next h =>
    rw [baseName_of_notMem (by simpa using h)]
    exact name_setName length_default _

theorem extension_entryRecord :
    (entryRecord isDir name fileCluster fileSize).extension =
      if name.contains 0x2E then fixedLength 3 (extName name) else List.replicate 3 0x20 := by
  rw [FatDirent.extension, window_entryRecord _ _ _ _ (by omega)]
  unfold namedRecord
  split
  · exact extension_setExtension (length_setName length_default _) _
  · rw [window_setName length_default _ (by omega)]
    rfl

theorem entryFlags_entryRecord :
    (entryRecord isDir name fileCluster fileSize).entryFlags = if isDir then directory else 0 := by
  have hlen := length_setClusterIndex (length_namedRecord name) fileCluster
  rw [entryRecord_eq]
  split
  · exact entryFlags_setEntryFlags hlen (by decide)
  · rw [entryFlags, field, window_setSize hlen _ (by omega),
      window_setClusterIndex (length_namedRecord name) _ (.inl (by omega)),
      window_namedRecord _ (by omega)]
    rfl

theorem isDirectory_entryRecord :
    (entryRecord isDir name fileCluster fileSize).isDirectory = isDir := by
  rw [isDirectory, entryFlags_entryRecord]
  cases isDir <;> rfl

theorem isLongName_entryRecord :
    (entryRecord isDir name fileCluster fileSize).isLongName = false := by
  rw [isLongName, entryFlags_entryRecord]
  cases isDir <;> rfl

variable {fileCluster fileSize}

theorem clusterIndex_entryRecord (h : fileCluster < 2 ^ 32) :
    (entryRecord isDir name fileCluster fileSize).clusterIndex = fileCluster := by
  have hlen := length_setClusterIndex (length_namedRecord name) fileCluster
  have hidx := clusterIndex_setClusterIndex (length_namedRecord name) h
  unfold clusterIndex field at hidx ⊢
  rw [entryRecord_eq]
  split
  · rw [window_setEntryFlags hlen _ (.inr (by omega)), window_setEntryFlags hlen _ (.inr (by omega)),
      hidx]
  · rw [window_setSize hlen _ (by omega), window_setSize hlen _ (by omega), hidx]

theorem size_entryRecord (h : fileSize < 2 ^ 32) :
    (entryRecord isDir name fileCluster fileSize).size = if isDir then 0 else fileSize := by
  have hlen := length_setClusterIndex (length_namedRecord name) fileCluster
  rw [entryRecord_eq]
  split
  · rw [FatDirent.size, field, window_setEntryFlags hlen _ (.inr (by omega)),
      window_setClusterIndex (length_namedRecord name) _ (.inr (.inr (by omega))),
      window_namedRecord _ (by omega)]
    rfl
  · exact size_setSize hlen h

variable {name}

/-- The first character of the record is that of the name. -/
theorem name_entryRecord_cons (h : isShortName name = true) :
    ∃ c cs, (entryRecord isDir name fileCluster fileSize).name = c :: cs ∧ c ≠ 0x2E ∧
      0x20 ≤ c.toNat ∧ c.toNat ≤ 0x7E := by
  obtain ⟨c, cs, rfl, hdot, hlo, hhi⟩ := isShortName_head h
  have h0 : c ≠ 0 := by
    rintro rfl
    exact absurd hlo (by decide)
  rw [name_entryRecord, baseName, List.takeWhile_cons_of_pos (by simpa using hdot), fixedLength,
    cstr_cons_ne h0]
  exact ⟨c, _, rfl, hdot, hlo, hhi⟩

theorem isLastInList_entryRecord (h : isShortName name = true) :
    (entryRecord isDir name fileCluster fileSize).isLastInList = false := by
  obtain ⟨c, cs, hname, -, hlo, -⟩ := @name_entryRecord_cons isDir name fileCluster fileSize h
  rw [isLastInList, getD_raw_name, hname]
  simp only [List.getD_cons_zero, beq_eq_false_iff_ne, ne_eq]
  rintro rfl
  exact absurd hlo (by decide)

theorem isLive_entryRecord (h : isShortName name = true) :
    (entryRecord isDir name fileCluster fileSize).isLive = true := by
  obtain ⟨c, cs, hname, -, -, hhi⟩ := @name_entryRecord_cons isDir name fileCluster fileSize h
  have hdel : (entryRecord isDir name fileCluster fileSize).isDummiedOut = false := by
    rw [isDummiedOut, getD_raw_name, hname]
    simp only [List.getD_cons_zero, beq_eq_false_iff_ne, ne_eq]
    rintro rfl
    exact absurd hhi (by decide)
  rw [isLive, hdel, isLongName_entryRecord]
  rfl

theorem isDot_entryRecord (h : isShortName name = true) :
    (entryRecord isDir name fileCluster fileSize).isDot = false := by
  obtain ⟨c, cs, hname, hdot, hlo, -⟩ := @name_entryRecord_cons isDir name fileCluster fileSize h
  apply isDot_of_head hname hdot
  rintro rfl
  exact absurd hlo (by decide)

/-- A short name without blanks is shown as it was given. -/
theorem nameToString_entryRecord (h : isShortName name = true) (h0 : 0 ∉ name)
    (hblank : 0x20 ∉ name) :
    (entryRecord isDir name fileCluster fileSize).nameToString = some name := by
  have hcstr := cstr_of_notMem h0
  obtain ⟨c, cs, hname, -, hlo, -⟩ := @name_entryRecord_cons isDir name fileCluster fileSize h
  -- the first character is not a blank
  have hhead : (entryRecord isDir name fileCluster fileSize).raw.getD 0 0 ≠ 0x20 := by
    have hc := hname
    rw [name_entryRecord] at hc
    obtain ⟨x, xs, rfl, hdot, -, -⟩ := isShortName_head h
    have hx0 : x ≠ 0 := fun hx => h0 (by simp [hx])
    rw [baseName, List.takeWhile_cons_of_pos (by simpa using hdot), fixedLength,
      cstr_cons_ne hx0] at hc
    have hxc : x = c := (List.cons.inj hc).1
    rw [getD_raw_name, hname]
    simp only [List.getD_cons_zero]
    rintro rfl
    exact hblank (by simp [hxc])
  have hcases := isShortName_cases h
  rw [hcstr] at hcases
  unfold nameToString
  rw [if_neg hhead]
  dsimp only
  rw [name_entryRecord, getD_raw_extension, extension_entryRecord]
  rcases hcases with ⟨hmem, -, hlen⟩ | ⟨pre, post, rfl, hpre, hpost, hpos, hlen, hpos', hlen'⟩
  · -- no extension
    have hext : (if name.contains 0x2E then fixedLength 3 (extName name)
        else List.replicate 3 0x20) = List.replicate 3 0x20 := if_neg (by simpa using hmem)
    rw [hext, if_neg (by decide), baseName_of_notMem hmem, fixedLength_eq h0 hlen,
      stripBlanks_append_blanks, stripBlanks_of_notMem hblank]
  · obtain ⟨hbase, hext⟩ := split_name post hpre
    have hcontains : (pre ++ 0x2E :: post).contains 0x2E = true := by simp
    have h0pre : 0 ∉ pre := fun hx => h0 (by simp [hx])
    have h0post : 0 ∉ post := fun hx => h0 (by simp [hx])
    have hbpre : (0x20 : UInt8) ∉ pre := fun hx => hblank (by simp [hx])
    have hbpost : (0x20 : UInt8) ∉ post := fun hx => hblank (by simp [hx])
    rw [if_pos hcontains, hbase, hext, fixedLength_eq h0pre hlen, fixedLength_eq h0post hlen',
      stripBlanks_append_blanks, stripBlanks_of_notMem hbpre]
    have hfirst : (post ++ List.replicate (3 - post.length) 0x20).getD 0 0 ≠ 0x20 := by
      cases post with
      | nil => simp at hpos'
      | cons x post =>
        simp only [List.cons_append, List.getD_cons_zero]
        rintro rfl
        exact hbpost (by simp)
    rw [if_pos hfirst, ← List.cons_append, ← List.append_assoc, stripBlanks_append_blanks,
      stripBlanks_of_notMem hblank]

end Entry

/-! ## Section 3: Dot records -/

theorem window_dotRecord (name : Bytes) (cluster : Nat) {o n : Nat} (h : o + n ≤ 11) :
    slice (dotRecord name cluster).raw o n = slice (FatDirent.default.setName name).raw o n := by
  rw [dotRecord, window_setClusterIndex
    (length_setEntryFlags (length_setName length_default _) _) _ (.inl (by omega)),
    window_setEntryFlags (length_setName length_default _) _ (.inl h)]

theorem name_dotRecord (name : Bytes) (cluster : Nat) :
    (dotRecord name cluster).name = fixedLength 8 name := by
  rw [FatDirent.name, window_dotRecord _ _ (by omega)]
  exact name_setName length_default _

theorem extension_dotRecord (name : Bytes) (cluster : Nat) :
    (dotRecord name cluster).extension = List.replicate 3 0x20 := by
  rw [FatDirent.extension, window_dotRecord _ _ (by omega),
    window_setName length_default _ (by omega)]
  rfl

theorem entryFlags_dotRecord (name : Bytes) (cluster : Nat) :
    (dotRecord name cluster).entryFlags = directory := by
  have hflags := entryFlags_setEntryFlags (length_setName length_default name)
    (show directory < 256 by decide)
  rw [entryFlags, field] at hflags
  rw [entryFlags, field, dotRecord, window_setClusterIndex
    (length_setEntryFlags (length_setName length_default _) _) _ (.inl (by omega)), hflags]

theorem nameToString_dotRecord {name : Bytes} (cluster : Nat) (h0 : 0 ∉ name)
    (hblank : 0x20 ∉ name) (hlen : name.length ≤ 8) (hpos : name ≠ []) :
    (dotRecord name cluster).nameToString = some name := by
  have hname : (dotRecord name cluster).name = name ++ List.replicate (8 - name.length) 0x20 := by
    rw [name_dotRecord, fixedLength_eq h0 hlen]
  have hhead : (dotRecord name cluster).raw.getD 0 0 ≠ 0x20 := by
    rw [getD_raw_name, hname]
    cases name with
    | nil => exact absurd rfl hpos
    | cons x name =>
      simp only [List.cons_append, List.getD_cons_zero]
      rintro rfl
      exact hblank (by simp)
  unfold nameToString
  rw [if_neg hhead]
  dsimp only
  rw [hname, getD_raw_extension, extension_dotRecord, stripBlanks_append_blanks,
    stripBlanks_of_notMem hblank]
  rfl

/-- The two records of a new directory are dot records. -/
theorem dotRecord_spec {name : Bytes} {cluster : Nat} (hc : cluster < 2 ^ 32)
    (hname : name = [0x2E] ∨ name = [0x2E, 0x2E]) :
    Vol.DotRecord name cluster (dotRecord name cluster) := by
  have hstr : (dotRecord name cluster).nameToString = some name := by
    rcases hname with rfl | rfl <;> exact nameToString_dotRecord cluster (by decide) (by decide)
      (by decide) (by decide)
  have hcstr : cstr name = name := by rcases hname with rfl | rfl <;> rfl
  have hfirst : (dotRecord name cluster).raw.getD 0 0 = 0x2E := by
    rw [getD_raw_name, name_dotRecord]
    rcases hname with rfl | rfl <;> rfl
  constructor
  · rw [isLive, isDummiedOut, hfirst, isLongName, entryFlags_dotRecord]
    rfl
  · rw [isDirectory, entryFlags_dotRecord]
    rfl
  · rw [shortName, hstr, Option.map_some, hcstr]
  · exact clusterIndex_setClusterIndex
      (length_setEntryFlags (length_setName length_default _) _) hc

theorem isLastInList_dotRecord {name : Bytes} (cluster : Nat)
    (hname : name = [0x2E] ∨ name = [0x2E, 0x2E]) :
    (dotRecord name cluster).isLastInList = false := by
  rw [isLastInList, getD_raw_name, name_dotRecord]
  rcases hname with rfl | rfl <;> rfl

end FatEdit

end Hausboot

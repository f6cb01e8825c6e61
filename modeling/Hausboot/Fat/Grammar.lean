import Hausboot.Fat.Name

/-! # The 8.3 Grammar

    What `IsShortName` accepts, as a grammar: a base of up to eight
    characters, and an extension of up to three behind a dot. The scan of the
    source goes over the characters once and keeps the position of the dot;
    its two directions are followed here, from a scan that succeeds to the
    shape of the name, and from the shape to what the scan returns. -/

open ByteLib

namespace Hausboot

/-! ## Section 1: The grammar -/

/-- A character of a base or of an extension. -/
def IsNameChar (c : UInt8) : Prop := isValidFatChar c = true ∧ c ≠ 0x2E

/-- The 8.3 names. -/
inductive EightDotThree : Bytes → Prop
  | base (name : Bytes) (hpos : 1 ≤ name.length) (hlen : name.length ≤ 8)
      (hname : ∀ c ∈ name, IsNameChar c) : EightDotThree name
  | dotted (name ext : Bytes) (hpos : 1 ≤ name.length) (hlen : name.length ≤ 8)
      (hname : ∀ c ∈ name, IsNameChar c) (hpos' : 1 ≤ ext.length) (hlen' : ext.length ≤ 3)
      (hext : ∀ c ∈ ext, IsNameChar c) : EightDotThree (name ++ 0x2E :: ext)

theorem isValidFatChar_dot : isValidFatChar 0x2E = true := by decide

theorem isValidFatChar_range {c : UInt8} (h : isValidFatChar c = true) :
    0x20 ≤ c.toNat ∧ c.toNat ≤ 0x7E := by
  unfold isValidFatChar at h
  split at h
  · cases h
  · next hc =>
    simp only [Bool.or_eq_true, decide_eq_true_eq, not_or, UInt8.lt_iff_toNat_lt, gt_iff_lt] at hc
    have h1 : (0x20 : UInt8).toNat = 0x20 := rfl
    have h2 : (0x7E : UInt8).toNat = 0x7E := rfl
    omega

/-! ## Section 2: What a scan that succeeds says -/

/-- Every character that the scan goes over is valid. -/
theorem scanShortName_valid {i : Nat} {d r : Option Nat} {cs : Bytes}
    (h : scanShortName i d cs = some r) : ∀ c ∈ cs, isValidFatChar c = true := by
  induction cs generalizing i d with
  | nil => simp
  | cons c cs ih =>
    rw [scanShortName] at h
    split at h
    · cases h
    · next hc =>
      have hhead : isValidFatChar c = true := by simpa using hc
      have htail : ∀ x ∈ cs, isValidFatChar x = true := by
        split at h
        · split at h
          · cases h
          · exact ih h
        · exact ih h
      intro x hx
      rcases List.mem_cons.mp hx with heq | hx
      · exact heq ▸ hhead
      · exact htail x hx

/-- Once a dot was seen, the scan can only return its position. -/
theorem scanShortName_some {i p : Nat} {cs : Bytes} {r : Option Nat}
    (h : scanShortName i (some p) cs = some r) : r = some p ∧ 0x2E ∉ cs := by
  induction cs generalizing i with
  | nil =>
    simp only [scanShortName, Option.some.injEq] at h
    exact ⟨h.symm, by simp⟩
  | cons c cs ih =>
    rw [scanShortName] at h
    split at h
    · cases h
    · split at h
      · cases h
      · next hc =>
        obtain ⟨hr, hmem⟩ := ih h
        exact ⟨hr, by simp only [List.mem_cons, not_or]; exact ⟨fun h => hc h.symm, hmem⟩⟩

/-- The scan finds the one dot of a name, if it has one. -/
theorem scanShortName_none {i : Nat} {cs : Bytes} {r : Option Nat}
    (h : scanShortName i none cs = some r) :
    (r = none ∧ 0x2E ∉ cs) ∨
    ∃ pre post, cs = pre ++ 0x2E :: post ∧ r = some (i + pre.length) ∧ 0x2E ∉ pre ∧ 0x2E ∉ post := by
  induction cs generalizing i with
  | nil =>
    simp only [scanShortName, Option.some.injEq] at h
    exact .inl ⟨h.symm, by simp⟩
  | cons c cs ih =>
    rw [scanShortName] at h
    split at h
    · cases h
    · split at h
      · next hc =>
        subst hc
        obtain ⟨rfl, hmem⟩ := scanShortName_some (i := i + 1) (p := i) (by simpa using h)
        exact .inr ⟨[], cs, rfl, rfl, by simp, hmem⟩
      · next hc =>
        rcases ih h with ⟨hr, hmem⟩ | ⟨pre, post, rfl, rfl, hpre, hpost⟩
        · exact .inl ⟨hr, by simp only [List.mem_cons, not_or]; exact ⟨fun h => hc h.symm, hmem⟩⟩
        · refine .inr ⟨c :: pre, post, rfl, ?_, ?_, hpost⟩
          · rw [List.length_cons]
            congr 1
            omega
          · simp only [List.mem_cons, not_or]
            exact ⟨fun h => hc h.symm, hpre⟩

/-- An accepted name follows the grammar. -/
theorem eightDotThree_of_isShortName {entry : Bytes} (h : isShortName entry = true) :
    EightDotThree (cstr entry) := by
  unfold isShortName at h
  dsimp only at h
  split at h
  · cases h
  · next hlen =>
    simp only [Bool.or_eq_true, decide_eq_true_eq, not_or] at hlen
    split at h
    · cases h
    · next hscan =>
      rcases scanShortName_none hscan with ⟨-, hdot⟩ | ⟨pre, post, -, hr, -⟩
      · have hname : ∀ c ∈ cstr entry, IsNameChar c := by
          intro c hc
          refine ⟨scanShortName_valid hscan c hc, ?_⟩
          intro heq
          exact hdot (heq ▸ hc)
        exact .base _ (by omega) (by simpa using h) hname
      · cases hr
    · next p hscan =>
      rcases scanShortName_none hscan with ⟨hr, -⟩ | ⟨pre, post, heq, hr, hpre, hpost⟩
      · cases hr
      · have hvalid := scanShortName_valid hscan
        rw [Nat.zero_add, Option.some.injEq] at hr
        have hl : (cstr entry).length = pre.length + (post.length + 1) := by
          rw [heq, List.length_append, List.length_cons]
        -- the dot is at `pre.length`, and the boundary checks are about it
        split at h
        · cases h
        · next hp =>
          split at h
          · cases h
          · next hp' =>
            simp only [Bool.or_eq_true, decide_eq_true_eq, not_or] at hp hp'
            rw [heq] at hvalid ⊢
            refine .dotted pre post (by omega) (by omega) ?_ (by omega) (by omega) ?_
            · intro c hc
              refine ⟨hvalid c (by simp [hc]), ?_⟩
              intro heq
              exact hpre (heq ▸ hc)
            · intro c hc
              refine ⟨hvalid c (by simp [hc]), ?_⟩
              intro heq
              exact hpost (heq ▸ hc)

/-- The shape of a name that `IsShortName` accepts. -/
theorem isShortName_cases {name : Bytes} (h : isShortName name = true) :
    (0x2E ∉ cstr name ∧ 0 < (cstr name).length ∧ (cstr name).length ≤ 8) ∨
    ∃ pre post, cstr name = pre ++ 0x2E :: post ∧ 0x2E ∉ pre ∧ 0x2E ∉ post ∧
      0 < pre.length ∧ pre.length ≤ 8 ∧ 0 < post.length ∧ post.length ≤ 3 := by
  have hg := eightDotThree_of_isShortName h
  generalize cstr name = s at hg
  cases hg with
  | base _ hpos hlen hname =>
    exact .inl ⟨fun hmem => (hname _ hmem).2 rfl, hpos, hlen⟩
  | dotted pre post hpos hlen hname hpos' hlen' hext =>
    exact .inr ⟨pre, post, rfl, fun hmem => (hname _ hmem).2 rfl, fun hmem => (hext _ hmem).2 rfl,
      hpos, hlen, hpos', hlen'⟩

/-- The first character of an accepted name is printable and not a dot. -/
theorem isShortName_head {name : Bytes} (h : isShortName name = true) :
    ∃ c cs, name = c :: cs ∧ c ≠ 0x2E ∧ 0x20 ≤ c.toNat ∧ c.toNat ≤ 0x7E := by
  have hg := eightDotThree_of_isShortName h
  have hhead : ∃ c cs, cstr name = c :: cs ∧ IsNameChar c := by
    generalize cstr name = s at hg
    cases hg with
    | base _ hpos _ hname =>
      obtain ⟨c, cs, rfl⟩ := List.exists_cons_of_length_pos hpos
      exact ⟨c, cs, rfl, hname c (by simp)⟩
    | dotted pre post hpos _ hname =>
      obtain ⟨c, cs, rfl⟩ := List.exists_cons_of_length_pos hpos
      exact ⟨c, cs ++ 0x2E :: post, rfl, hname c (by simp)⟩
  obtain ⟨c, cs, hcs, hc⟩ := hhead
  cases name with
  | nil => cases hcs
  | cons x xs =>
    by_cases hx : x = 0
    · subst hx
      cases hcs
    · rw [cstr_cons_ne hx, List.cons.injEq] at hcs
      rw [hcs.1]
      exact ⟨c, xs, rfl, hc.2, isValidFatChar_range hc.1⟩

/-! ## Section 3: What the scan makes of a name -/

/-- Over characters of a name, the scan goes on and keeps what it has. -/
theorem scanShortName_append {cs : Bytes} (h : ∀ c ∈ cs, IsNameChar c) (i : Nat) (d : Option Nat)
    (rest : Bytes) : scanShortName i d (cs ++ rest) = scanShortName (i + cs.length) d rest := by
  induction cs generalizing i with
  | nil => rfl
  | cons c cs ih =>
    obtain ⟨hvalid, hdot⟩ := h c (by simp)
    have htail : ∀ x ∈ cs, IsNameChar x := fun x hx => h x (by simp [hx])
    rw [List.cons_append, scanShortName, hvalid, Bool.not_true, if_neg Bool.false_ne_true,
      if_neg hdot, ih htail, List.length_cons]
    congr 1
    omega

theorem scanShortName_base {cs : Bytes} (h : ∀ c ∈ cs, IsNameChar c) (i : Nat) (d : Option Nat) :
    scanShortName i d cs = some d := by
  have happ := scanShortName_append h i d []
  rw [List.append_nil] at happ
  rw [happ, scanShortName]

/-- At the dot between base and extension, the scan notes its position. -/
theorem scanShortName_dotted {name ext : Bytes} (hname : ∀ c ∈ name, IsNameChar c)
    (hext : ∀ c ∈ ext, IsNameChar c) :
    scanShortName 0 none (name ++ 0x2E :: ext) = some (some name.length) := by
  rw [scanShortName_append hname, scanShortName, isValidFatChar_dot]
  simp only [Bool.not_true, Bool.false_eq_true, if_false, if_true, Option.isSome_none]
  rw [scanShortName_base hext, Nat.zero_add]

/-- A name of the grammar is accepted. -/
theorem isShortName_of_eightDotThree {entry : Bytes} (h : EightDotThree (cstr entry)) :
    isShortName entry = true := by
  unfold isShortName
  dsimp only
  generalize cstr entry = s at h
  cases h with
  | base _ hpos hlen hname =>
    have hcheck : ¬(s.length = 0 || s.length > 8 + 1 + 3) = true := by
      simp only [Bool.or_eq_true, decide_eq_true_eq]
      omega
    rw [if_neg hcheck, scanShortName_base hname]
    simpa using hlen
  | dotted name ext hpos hlen hname hpos' hlen' hext =>
    rw [scanShortName_dotted hname hext]
    have hl : (name ++ 0x2E :: ext).length = name.length + (ext.length + 1) := by
      rw [List.length_append, List.length_cons]
    -- none of the boundary checks fires
    rw [hl, if_neg (by simp only [Bool.or_eq_true, decide_eq_true_eq]; omega)]
    dsimp only
    rw [if_neg (by simp only [Bool.or_eq_true, decide_eq_true_eq]; omega),
      if_neg (by simp only [Bool.or_eq_true, decide_eq_true_eq]; omega)]

/-- **`IsShortName` decides the 8.3 grammar**, on C strings of every length. -/
theorem isShortName_iff (entry : Bytes) :
    isShortName entry = true ↔ EightDotThree (cstr entry) :=
  ⟨eightDotThree_of_isShortName, isShortName_of_eightDotThree⟩

end Hausboot

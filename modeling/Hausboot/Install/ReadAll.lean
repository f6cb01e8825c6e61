import Hausboot.Install.Model

/-! # The installfat Tool: ReadAll and the Header

    `ReadAll` in closed form: it gives up as soon as it has more than `max`
    bytes at the end of a round of 1024, so a file that is long enough is too
    big even if reading it would fail later. The bytes that it leaves behind
    the vector are zero, and the checksum of the header runs over them. -/

open ByteLib

namespace Hausboot.Install

/-! ## Section 1: ReadAll -/

/-- The vector that a file of these contents leaves. -/
def fileVec (c : Bytes) : Vec := ⟨c ++ List.replicate 1024 0, c.length⟩

theorem resize_grow {v : Vec} {c : Bytes} (hc : v.contents = c) (hsize : v.size = c.length) :
    v.resize (v.size + 1024) = ⟨c ++ List.replicate 1024 0, c.length + 1024⟩ := by
  rw [Vec.resize, if_neg (by omega), hc, hsize, Nat.add_sub_cancel_left]

/-- Filling the new part of a vector. -/
theorem fill_resize (c : Bytes) {d : Bytes} (hd : d.length ≤ 1024) :
    ((⟨c ++ List.replicate 1024 0, c.length + 1024⟩ : Vec).fill c.length d).resize
      (c.length + d.length) =
      ⟨(c ++ d) ++ List.replicate (1024 - d.length) 0, (c ++ d).length⟩ := by
  have hin : c.length + d.length ≤ c.length + 1024 := by omega
  rw [Vec.fill, splice_append, List.drop_replicate, Vec.resize, if_pos hin, List.length_append]

/-- A round that finds nothing gives the new part back. -/
theorem fill_nil (c : Bytes) :
    ((⟨c ++ List.replicate 1024 0, c.length + 1024⟩ : Vec).fill c.length []).resize c.length =
      fileVec c := by
  have h := fill_resize c (d := []) (Nat.zero_le _)
  rw [List.length_nil, Nat.add_zero, List.append_nil] at h
  exact h

theorem readAllLoop_nil {file : InputFile} {max n : Nat} {out : Vec} {c : Bytes}
    (hc : out.contents = c) (hsize : out.size = c.length) :
    readAllLoop file max false (n + 1) [] out = .ok (fileVec c) := by
  rw [readAllLoop]
  simp only [Bool.and_false, Bool.false_eq_true, if_false, List.take_nil, if_true]
  rw [resize_grow hc hsize, hsize, fill_nil]

/-- The loop, with `c` already read in full rounds. -/
theorem readAllLoop_eq (file : InputFile) (max : Nat) (fails : Bool) (n : Nat) {rest c : Bytes}
    {out : Vec} (hc : out.contents = c) (hsize : out.size = c.length) (hround : c.length % 1024 = 0)
    (hmax : c.length ≤ max) (hfuel : rest.length < n) :
    readAllLoop file max fails n rest out =
      if 1024 * (max / 1024 + 1) ≤ c.length + rest.length then .error (.tooBig file max)
      else if fails then .error (.readFile file)
      else if max < c.length + rest.length then .error (.tooBig file max)
      else .ok (fileVec (c ++ rest)) := by
  induction n generalizing rest c out with
  | zero => omega
  | succ n ih =>
    rw [readAllLoop]
    dsimp only
    rw [resize_grow hc hsize, hsize]
    by_cases hshort : rest.length < 1024
    · -- the last round that reads something
      rw [if_neg (show ¬ 1024 * (max / 1024 + 1) ≤ c.length + rest.length by omega)]
      cases fails with
      | true => simp [hshort]
      | false =>
        simp only [Bool.and_false, Bool.false_eq_true, if_false]
        rw [List.take_of_length_le (Nat.le_of_lt hshort)]
        by_cases hrest : rest = []
        · subst hrest
          rw [if_pos rfl, if_neg (by simpa using hmax), fill_nil, List.append_nil]
        · rw [if_neg hrest, fill_resize c (Nat.le_of_lt hshort)]
          dsimp only
          rw [List.length_append]
          by_cases hbig : max < c.length + rest.length
          · rw [if_pos hbig, if_pos hbig]
          · obtain ⟨m, rfl⟩ : ∃ m, n = m + 1 :=
              ⟨n - 1, by have := List.length_pos_iff.mpr hrest; omega⟩
            rw [if_neg hbig, if_neg hbig, List.drop_eq_nil_of_le (Nat.le_of_lt hshort)]
            apply readAllLoop_nil
            · rw [Vec.contents, ← List.length_append, List.take_left]
            · rw [List.length_append]
    · have hlen : (rest.take 1024).length = 1024 := by
        rw [List.length_take]
        omega
      have hne : rest.take 1024 ≠ [] := by
        intro hnil
        rw [hnil] at hlen
        cases hlen
      have hsplit : c.length + rest.length =
          (c ++ rest.take 1024).length + (rest.drop 1024).length := by
        rw [List.length_append, List.length_drop, hlen]
        omega
      rw [if_neg (by simp [hshort]), if_neg hne, fill_resize c (Nat.le_of_eq hlen)]
      dsimp only
      by_cases hbig : max < (c ++ rest.take 1024).length
      · rw [List.length_append, hlen] at hbig
        rw [if_pos (by rw [List.length_append, hlen]; exact hbig), if_pos (by omega)]
      · rw [if_neg hbig, ih (c := c ++ rest.take 1024) ?_ rfl ?_ (Nat.le_of_not_lt hbig) ?_,
          ← hsplit, List.append_assoc, List.take_append_drop]
        · rw [Vec.contents, List.take_left]
        · rw [List.length_append, hlen]
          omega
        · rw [List.length_drop]
          omega

/-- **ReadAll** in closed form. -/
theorem readAll_eq (file : InputFile) (fd : HostFile) (max : Nat) :
    readAll file (some fd) max =
      if 1024 * (max / 1024 + 1) ≤ fd.contents.length then .error (.tooBig file max)
      else if fd.fails then .error (.readFile file)
      else if max < fd.contents.length then .error (.tooBig file max)
      else .ok (fileVec fd.contents) := by
  have hloop := @readAllLoop_eq file max fd.fails (fd.contents.length + 1) fd.contents [] ⟨[], 0⟩
    rfl rfl rfl (Nat.zero_le _) (Nat.lt_succ_self _)
  rw [List.length_nil, Nat.zero_add, List.nil_append] at hloop
  exact hloop

/-- The file can be read to its end, which comes after `max` bytes at most. -/
def HostFile.Fits (f : HostFile) (max : Nat) : Prop := f.fails = false ∧ f.contents.length ≤ max

/-- There are more than `max` bytes: in full rounds, or up to the end of the
    file. -/
def HostFile.TooBig (f : HostFile) (max : Nat) : Prop :=
  1024 * (max / 1024 + 1) ≤ f.contents.length ∨ f.fails = false ∧ max < f.contents.length

theorem HostFile.not_tooBig_of_fits {f : HostFile} {max : Nat} (h : f.Fits max) :
    ¬ f.TooBig max := by
  obtain ⟨-, hle⟩ := h
  rintro (hbig | ⟨-, hbig⟩)
  · omega
  · omega

theorem readAll_of_fits {file : InputFile} {f : HostFile} {max : Nat} (h : f.Fits max) :
    readAll file (some f) max = .ok (fileVec f.contents) := by
  obtain ⟨hreads, hle⟩ := h
  rw [readAll_eq, if_neg (by omega), if_neg (by simp [hreads]), if_neg (by omega)]

theorem readAll_of_tooBig {file : InputFile} {f : HostFile} {max : Nat} (h : f.TooBig max) :
    readAll file (some f) max = .error (.tooBig file max) := by
  rw [readAll_eq]
  by_cases hrounds : 1024 * (max / 1024 + 1) ≤ f.contents.length
  · rw [if_pos hrounds]
  · obtain ⟨hreads, hbig⟩ := h.resolve_left hrounds
    rw [if_neg hrounds, if_neg (by simp [hreads]), if_pos hbig]

/-- The three ways in which `ReadAll` ends. -/
theorem readAll_cases (file : InputFile) (fd : Option HostFile) (max : Nat) :
    (∃ f, fd = some f ∧ f.Fits max) ∨ (∃ f, fd = some f ∧ f.TooBig max) ∨
    (∀ f, fd = some f → ¬ f.Fits max ∧ ¬ f.TooBig max) ∧
      ∃ e, readAll file fd max = .error e ∧ (e = .openFile file ∨ e = .readFile file) := by
  cases fd with
  | none => exact .inr (.inr ⟨by simp, .openFile file, rfl, .inl rfl⟩)
  | some f =>
    by_cases hfits : f.Fits max
    · exact .inl ⟨f, rfl, hfits⟩
    by_cases hbig : f.TooBig max
    · exact .inr (.inl ⟨f, rfl, hbig⟩)
    · refine .inr (.inr ⟨?_, .readFile file, ?_, .inr rfl⟩)
      · intro g hg
        obtain rfl := Option.some.inj hg
        exact ⟨hfits, hbig⟩
      · have hrounds : ¬ 1024 * (max / 1024 + 1) ≤ f.contents.length := fun h => hbig (.inl h)
        have hfails : f.fails = true := by
          by_contra hreads
          simp only [Bool.not_eq_true] at hreads
          rcases Nat.lt_or_ge max f.contents.length with hlt | hle
          · exact hbig (.inr ⟨hreads, hlt⟩)
          · exact hfits ⟨hreads, hle⟩
        rw [readAll_eq, if_neg hrounds, if_pos hfails]

end Hausboot.Install

import Hausboot.FatEdit.Lookup
import Hausboot.FatFs.Paths
import Hausboot.Lib.Runs

/-! # Two Programs, One Way to Cut a Path

    `SplitPath` erases what it has read from the front of a string, and
    `FindByPath` moves a pointer over it. Both go by the same components: the
    maximal runs of characters that are no separators. The prefix that
    `FindParent` joins for the parent is cut into the same components again. -/

open ByteLib Runs

namespace Hausboot

open FatEdit (isPathSep splitLoop splitPath joinPath Component)

/-- Both programs have the same separators. -/
theorem isSlash_eq : isSlash = isPathSep := rfl

/-- The components of a path. -/
def pathComponents (path : Bytes) : List Bytes := runs isPathSep path

/-! ## Section 1: SplitPath -/

theorem splitLoop_eq {n : Nat} {path : Bytes} (hn : path.length ≤ n) :
    splitLoop n path = pathComponents path := by
  induction n generalizing path with
  | zero =>
    obtain rfl := List.length_eq_zero_iff.mp (Nat.le_zero.mp hn)
    rfl
  | succ n ih =>
    cases path with
    | nil => rfl
    | cons c cs =>
      rw [List.length_cons] at hn
      have hdrop : ∀ f : UInt8 → Bool, (cs.dropWhile f).length ≤ cs.length :=
        fun f => (List.dropWhile_sublist f).length_le
      rw [splitLoop]
      rcases hc : isPathSep c with _ | _
      · have hname := hdrop (!isPathSep ·)
        have hrest : ((cs.dropWhile (!isPathSep ·)).drop 1).length ≤ n := by
          rw [List.length_drop]
          omega
        rw [if_neg (by decide), ih hrest, pathComponents, pathComponents, runs_drop_one,
          runs_cons hc]
      · have hseps := hdrop isPathSep
        rw [if_pos rfl, ih (by omega), pathComponents, pathComponents, runs_dropWhile,
          runs_cons_sep hc]

/-! ## Section 2: FindByPath -/

namespace FatFs

/-- Looking up the components one by one: each in the directory that the one
    before it has led to, until a search fails. No component that is longer
    than a short name gets that far. -/
def lookUp (w : World) (v : Volume) (fuel : Nat) :
    FatFs → FatFile → List Bytes → Option (FindResult × FatFs)
  | fs, out, [] => some (.ok out, fs)
  | fs, out, name :: names =>
    if name.length > 12 then some (.nameInvalid, fs)
    else
      match findInDirectory w v fuel fs out name with
      | some (.ok out, fs) => lookUp w v fuel fs out names
      | res => res

theorem pathLoop_lookUp {w : World} {v : Volume} {fuel n : Nat} {fs : FatFs} {path : Bytes}
    {out : FatFile} (hn : path.length < n) :
    pathLoop w v fuel n fs path out = lookUp w v fuel fs out (pathComponents path) := by
  induction n generalizing path fs out with
  | zero => omega
  | succ n ih =>
    cases path with
    | nil => rfl
    | cons c cs =>
      rw [List.length_cons] at hn
      have hdrop : ∀ f : UInt8 → Bool, (cs.dropWhile f).length ≤ cs.length :=
        fun f => (List.dropWhile_sublist f).length_le
      rcases hc : isSlash c with _ | _
      swap
      -- A separator: the whole run of them is skipped, and no component is lost.
      · have hseps := hdrop isSlash
        have hsame : pathComponents (cs.dropWhile isSlash) = pathComponents (c :: cs) := by
          rw [pathComponents, pathComponents, ← isSlash_eq, runs_dropWhile, runs_cons_sep hc]
        rw [pathLoop_slash hc, List.dropWhile_cons_of_pos hc, ih (by omega), hsame]
      have hname := hdrop (!isSlash ·)
      have hfirst : component (c :: cs) = c :: cs.takeWhile (!isSlash ·) :=
        List.takeWhile_cons_of_pos (by simp [hc])
      have hrest : behind (c :: cs) = cs.dropWhile (!isSlash ·) :=
        List.dropWhile_cons_of_pos (by simp [hc])
      have hsplit : pathComponents (c :: cs) =
          component (c :: cs) :: pathComponents (behind (c :: cs)) := by
        rw [hfirst, hrest]
        exact runs_cons hc
      -- A component: a long one is refused before the directory is searched for it.
      rw [hsplit, lookUp]
      by_cases hlen : (component (c :: cs)).length ≤ 12
      · rw [pathLoop_component hc hlen, if_neg (Nat.not_lt_of_le hlen)]
        cases hfind : findInDirectory w v fuel fs out (component (c :: cs)) with
        | none => rfl
        | some r =>
          obtain ⟨res, fs'⟩ := r
          cases res with
          | ok out' =>
            have hbehind : (behind (c :: cs)).length < n := by
              rw [hrest]
              omega
            exact ih hbehind
          | nameInvalid => rfl
          | ioError => rfl
          | noEntry => rfl
          | notDir => rfl
      · rw [pathLoop_long hc hlen, if_pos (Nat.lt_of_not_le hlen)]

variable {w : World} {v : Volume} {fuel : Nat} {fs fs' : FatFs} {out out' : FatFile}
  {names names' : List Bytes}

theorem lookUp_append_ok (h : lookUp w v fuel fs out names = some (.ok out', fs')) :
    lookUp w v fuel fs out (names ++ names') = lookUp w v fuel fs' out' names' := by
  induction names generalizing fs out with
  | nil =>
    cases h
    rfl
  | cons name names ih =>
    rw [List.cons_append, lookUp]
    rw [lookUp] at h
    split at h
    · cases h
    next hlen =>
    rw [if_neg hlen]
    cases hfind : findInDirectory w v fuel fs out name with
    | none =>
      rw [hfind] at h
      cases h
    | some r =>
      obtain ⟨res, fs₁⟩ := r
      rw [hfind] at h
      cases res with
      | ok out₁ => exact ih h
      | nameInvalid | ioError | noEntry | notDir => cases h

/-- Nothing is looked up behind the component that stops the search. -/
theorem lookUp_append_stop {r : FindResult} (hr : ∀ out', r ≠ .ok out')
    (h : lookUp w v fuel fs out names = some (r, fs')) :
    lookUp w v fuel fs out (names ++ names') = some (r, fs') := by
  induction names generalizing fs out with
  | nil =>
    cases h
    exact absurd rfl (hr out)
  | cons name names ih =>
    rw [List.cons_append, lookUp]
    rw [lookUp] at h
    split at h
    · next hlen =>
      rw [if_pos hlen]
      exact h
    next hlen =>
    rw [if_neg hlen]
    cases hfind : findInDirectory w v fuel fs out name with
    | none =>
      rw [hfind] at h
      cases h
    | some r₁ =>
      obtain ⟨res, fs₁⟩ := r₁
      rw [hfind] at h
      cases res with
      | ok out₁ => exact ih h
      | nameInvalid | ioError | noEntry | notDir => exact h

end FatFs

/-! ## Section 3: All three agree -/

/-- **Paths**: `SplitPath` returns the components of a path, `FindByPath` looks
    up the same ones in the same order, and the prefix that `FindParent` joins
    is cut into all components but the last. -/
theorem paths_agree (path : Bytes) :
    splitPath path = pathComponents path ∧
    (∀ (w : World) (v : Volume) (fuel : Nat) (fs : FatFs), (cstr path).length < fuel →
      FatFs.findByPath w v fuel fs path =
        FatFs.lookUp w v fuel fs (FatFs.rootDir v) (pathComponents (cstr path))) ∧
    ∀ names : List Bytes, (∀ name ∈ names, Component name) →
      splitPath (joinPath names.dropLast) = names.dropLast := by
  refine ⟨splitLoop_eq (Nat.le_refl _), ?_, ?_⟩
  · intro w v fuel fs hfuel
    exact FatFs.pathLoop_lookUp hfuel
  · intro names hnames
    apply FatEdit.splitPath_joinPath
    intro name hname
    exact hnames name (List.dropLast_subset names hname)

/-- A path with leading, doubled, mixed and trailing separators. -/
theorem paths_agree_mixed :
    splitPath (str "\\/A//BC\\D/") = [str "A", str "BC", str "D"] ∧
    splitPath (joinPath [str "A", str "BC"]) = [str "A", str "BC"] := by
  obtain ⟨hsplit, -, hjoin⟩ := paths_agree (str "\\/A//BC\\D/")
  have hlist : splitPath (str "\\/A//BC\\D/") = [str "A", str "BC", str "D"] :=
    hsplit.trans (by decide)
  have hnames : ∀ name ∈ [str "A", str "BC", str "D"], Component name := by
    rw [← hlist]
    exact FatEdit.splitPath_component _
  exact ⟨hlist, hjoin _ hnames⟩

end Hausboot

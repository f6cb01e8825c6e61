import Hausboot.FatFs.Partition
import Hausboot.FatFs.Search

/-! # The stage2 FAT Driver: Looking Up a Path

    `FindByPath` searches one directory for each component of the path, and
    takes the next directory from the record that it has found. `Searches`
    lists these searches. The lookup ends exactly if each of them does, that
    is, if none of the directories runs in a circle without the name that is
    searched for and without a terminator. -/

open ByteLib

namespace Hausboot

namespace FatFs

variable {w : World} {v : Volume} {fs fs' : FatFs}

/-- The first component of a path that does not start with a slash, and what
    is behind it. -/
abbrev component (path : Bytes) : Bytes := path.takeWhile (!isSlash ·)

abbrev behind (path : Bytes) : Bytes := path.dropWhile (!isSlash ·)

/-- With `path` left to look up in directory `out`, `FindByPath` comes to
    search directory `dir` for `name`, in the state `fs'`. -/
inductive Searches (w : World) (v : Volume) :
    FatFs → Bytes → FatFile → FatFs → FatFile → Bytes → Prop where
  | here {fs : FatFs} {c : UInt8} {cs : Bytes} {out : FatFile} :
      isSlash c = false → (component (c :: cs)).length ≤ 8 + 1 + 3 →
      Searches w v fs (c :: cs) out fs out (component (c :: cs))
  | slash {fs fs' : FatFs} {c : UInt8} {cs name : Bytes} {out dir : FatFile} :
      isSlash c = true → Searches w v fs ((c :: cs).dropWhile isSlash) out fs' dir name →
      Searches w v fs (c :: cs) out fs' dir name
  | down {fs fs₁ fs' : FatFs} {c : UInt8} {cs name : Bytes} {out out' dir : FatFile} {fuel : Nat} :
      isSlash c = false → (component (c :: cs)).length ≤ 8 + 1 + 3 →
      findInDirectory w v fuel fs out (component (c :: cs)) = some (.ok out', fs₁) →
      Searches w v fs₁ (behind (c :: cs)) out' fs' dir name →
      Searches w v fs (c :: cs) out fs' dir name

/-! ## Section 1: More fuel -/

theorem findLoop_mono {name : Bytes} {n m : Nat} {index : Nat} {buffer : Bytes}
    {r : FindResult × FatFs} (h : findLoop w v name n fs index buffer = some r) (hnm : n ≤ m) :
    findLoop w v name m fs index buffer = some r := by
  induction n generalizing fs m index buffer with
  | zero => cases h
  | succ n ih =>
    obtain ⟨m, rfl⟩ : ∃ k, m = k + 1 := ⟨m - 1, by omega⟩
    unfold findLoop at h ⊢
    by_cases hend : index ≥ endOfChain
    · rwa [if_pos hend] at h ⊢
    rw [if_neg hend] at h ⊢
    rcases hload : loadDataCluster w v fs index with ⟨ok, fs₁⟩
    rw [hload] at h
    cases ok with
    | false => exact h
    | true =>
      dsimp only at h ⊢
      rcases hread : readFatIndex w v fs₁ index with ⟨entry, fs₂⟩
      rw [hread] at h
      cases entry with
      | none => exact h
      | some next =>
        dsimp only at h ⊢
        cases hscan : findEntry name buffer (windowEntries v fs₂) with
        | found e => rwa [hscan] at h
        | last => rwa [hscan] at h
        -- only here is fuel used up
        | more buffer' =>
          rw [hscan] at h
          exact ih h (by omega)

theorem findInDirectory_mono {n m : Nat} {dir : FatFile} {name : Bytes} {r : FindResult × FatFs}
    (h : findInDirectory w v n fs dir name = some r) (hnm : n ≤ m) :
    findInDirectory w v m fs dir name = some r := by
  unfold findInDirectory at h ⊢
  split
  · next hname => rwa [if_pos hname] at h
  · next hname =>
    rw [if_neg hname] at h
    split
    · next hdir => rwa [if_pos hdir] at h
    · next hdir =>
      rw [if_neg hdir] at h
      exact findLoop_mono h hnm

/-- One turn of the loop of `FindByPath` at the start of a component. -/
theorem pathLoop_component {fuel n : Nat} {c : UInt8} {cs : Bytes} {out : FatFile}
    (hc : isSlash c = false) (hlen : (component (c :: cs)).length ≤ 8 + 1 + 3) :
    pathLoop w v fuel (n + 1) fs (c :: cs) out =
      (findInDirectory w v fuel fs out (component (c :: cs))).bind fun r =>
        match r with
        | (.ok out, fs) => pathLoop w v fuel n fs (behind (c :: cs)) out
        | (err, fs) => some (err, fs) := by
  rw [pathLoop, if_neg (by simp [hc])]
  exact if_neg (Nat.not_lt_of_le hlen)

theorem pathLoop_slash {fuel n : Nat} {c : UInt8} {cs : Bytes} {out : FatFile}
    (hc : isSlash c = true) :
    pathLoop w v fuel (n + 1) fs (c :: cs) out =
      pathLoop w v fuel n fs ((c :: cs).dropWhile isSlash) out := by
  rw [pathLoop, if_pos hc]

theorem pathLoop_long {fuel n : Nat} {c : UInt8} {cs : Bytes} {out : FatFile}
    (hc : isSlash c = false) (hlen : ¬ (component (c :: cs)).length ≤ 8 + 1 + 3) :
    pathLoop w v fuel (n + 1) fs (c :: cs) out = some (.nameInvalid, fs) := by
  rw [pathLoop, if_neg (by simp [hc])]
  exact if_pos (Nat.lt_of_not_le hlen)

theorem pathLoop_mono {fuel fuel' n m : Nat} {path : Bytes} {out : FatFile}
    {r : FindResult × FatFs} (h : pathLoop w v fuel n fs path out = some r) (hfuel : fuel ≤ fuel')
    (hnm : n ≤ m) : pathLoop w v fuel' m fs path out = some r := by
  induction n generalizing fs m path out with
  | zero => cases h
  | succ n ih =>
    obtain ⟨m, rfl⟩ : ∃ k, m = k + 1 := ⟨m - 1, by omega⟩
    cases path with
    | nil => exact h
    | cons c cs =>
      rcases hc : isSlash c with _ | _
      · by_cases hlen : (component (c :: cs)).length ≤ 8 + 1 + 3
        · rw [pathLoop_component hc hlen] at h ⊢
          obtain ⟨⟨res, fs₁⟩, hfind, hrest⟩ := Option.bind_eq_some_iff.mp h
          rw [findInDirectory_mono hfind hfuel, Option.bind_some]
          cases res with
          | ok out' => exact ih hrest (by omega)
          | nameInvalid => exact hrest
          | ioError => exact hrest
          | noEntry => exact hrest
          | notDir => exact hrest
        · rwa [pathLoop_long hc hlen] at h ⊢
      · rw [pathLoop_slash hc] at h ⊢
        exact ih h (by omega)

theorem exists_succ_of_pathLoop {fuel n : Nat} {path : Bytes} {out : FatFile}
    {r : FindResult × FatFs} (h : pathLoop w v fuel n fs path out = some r) : ∃ k, n = k + 1 := by
  cases n with
  | zero => cases h
  | succ k => exact ⟨k, rfl⟩

/-! ## Section 2: A lookup ends if its searches do -/

theorem ends_of_pathLoop {fuel n : Nat} {path : Bytes} {out : FatFile} {r : FindResult × FatFs}
    (h : pathLoop w v fuel n fs path out = some r) {dir : FatFile} {name : Bytes}
    (hs : Searches w v fs path out fs' dir name) :
    ∃ fuel r, findInDirectory w v fuel fs' dir name = some r := by
  induction hs generalizing fuel n r with
  | @here fs c cs out hc hlen =>
    obtain ⟨n, rfl⟩ := exists_succ_of_pathLoop h
    rw [pathLoop_component hc hlen] at h
    obtain ⟨r', hfind, -⟩ := Option.bind_eq_some_iff.mp h
    exact ⟨fuel, r', hfind⟩
  | @slash fs fs' c cs name out dir hc _ ih =>
    obtain ⟨n, rfl⟩ := exists_succ_of_pathLoop h
    rw [pathLoop_slash hc] at h
    exact ih h
  | @down fs fs₁ fs' c cs name out out' dir fuel₁ hc hlen hfind₁ _ ih =>
    obtain ⟨n, rfl⟩ := exists_succ_of_pathLoop h
    rw [pathLoop_component hc hlen] at h
    obtain ⟨r', hfind, hrest⟩ := Option.bind_eq_some_iff.mp h
    -- both searches find the same, however much fuel they have
    have h₁ := findInDirectory_mono hfind₁ (Nat.le_max_left fuel₁ fuel)
    rw [findInDirectory_mono hfind (Nat.le_max_right fuel₁ fuel)] at h₁
    obtain rfl := Option.some.inj h₁
    exact ih hrest

theorem pathLoop_ends {path : Bytes} {out : FatFile} (hends : ∀ fs' dir name,
    Searches w v fs path out fs' dir name → ∃ fuel r, findInDirectory w v fuel fs' dir name = some r) :
    ∃ fuel n r, pathLoop w v fuel n fs path out = some r := by
  -- the path gets shorter with every turn of the loop
  induction hlength : path.length using Nat.strong_induction_on generalizing fs path out with
  | _ length ih =>
    subst hlength
    cases path with
    | nil => exact ⟨0, 1, (.ok out, fs), rfl⟩
    | cons c cs =>
      rcases hc : isSlash c with _ | _
      · by_cases hlen : (component (c :: cs)).length ≤ 8 + 1 + 3
        · obtain ⟨fuel₁, ⟨res, fs₁⟩, hfind⟩ := hends fs out _ (.here hc hlen)
          have hshort : (behind (c :: cs)).length < (c :: cs).length := by
            rw [behind, List.dropWhile_cons_of_pos (by simp [hc]), List.length_cons]
            exact Nat.lt_succ_of_le (List.dropWhile_sublist _).length_le
          cases hres : res with
          | ok out' =>
            rw [hres] at hfind
            obtain ⟨fuel₂, n, r, hrest⟩ := ih _ hshort
              (fun fs' dir name hs => hends fs' dir name (.down hc hlen hfind hs)) rfl
            refine ⟨max fuel₁ fuel₂, n + 1, r, ?_⟩
            rw [pathLoop_component hc hlen, findInDirectory_mono hfind (Nat.le_max_left _ _),
              Option.bind_some]
            exact pathLoop_mono hrest (Nat.le_max_right _ _) (Nat.le_refl n)
          | nameInvalid | ioError | noEntry | notDir =>
            refine ⟨fuel₁, 1, (res, fs₁), ?_⟩
            rw [pathLoop_component hc hlen, hfind, hres]
            rfl
        · exact ⟨0, 1, _, pathLoop_long hc hlen⟩
      · have hshort : ((c :: cs).dropWhile isSlash).length < (c :: cs).length := by
          rw [List.dropWhile_cons_of_pos hc, List.length_cons]
          exact Nat.lt_succ_of_le (List.dropWhile_sublist _).length_le
        obtain ⟨fuel, n, r, hrest⟩ := ih _ hshort
          (fun fs' dir name hs => hends fs' dir name (.slash hc hs)) rfl
        exact ⟨fuel, n + 1, r, by rwa [pathLoop_slash hc]⟩

/-! ## Section 3: On a device that never fails -/

/-- Without failures the windows always hold what their tags say. -/
theorem Reached.coherent (hw : ¬ w.Faulty) {C : Nat → FatFs → Call → Prop}
    (h : Reached w v C fs) : Coherent v fs := by
  induction h with
  | new fatWindow dataWindow => exact Coherent.new v fatWindow dataWindow
  | call _ _ hexec ih =>
    exact (coherent_exec_iff ih hexec).mpr (QueryLib.Query.meets_of_forall (harmless_reliable hw) _ _)

theorem findInDirectory_coherent (hw : ¬ w.Faulty) (hco : Coherent v fs) {fuel : Nat}
    {dir : FatFile} {name : Bytes} {r : FindResult}
    (h : findInDirectory w v fuel fs dir name = some (r, fs')) : Coherent v fs' := by
  have hexec : (Call.findInDirectory dir name).exec w v fuel fs = some (.find r, fs') := by
    simp only [Call.exec, h, Option.map_some]
  exact (coherent_exec_iff hco hexec).mpr (QueryLib.Query.meets_of_forall (harmless_reliable hw) _ _)

theorem Searches.coherent (hw : ¬ w.Faulty) {path name : Bytes} {out dir : FatFile}
    (hs : Searches w v fs path out fs' dir name) (hco : Coherent v fs) : Coherent v fs' := by
  induction hs with
  | here _ _ => exact hco
  | slash _ _ ih => exact ih hco
  | down _ _ hfind _ ih => exact ih (findInDirectory_coherent hw hco hfind)

/-- The search runs in a circle for ever: the name is a short name, the file
    is a directory, and its chain is endless for the name. -/
def EndlessIn (w : World) (v : Volume) (fs : FatFs) (dir : FatFile) (name : Bytes) : Prop :=
  isShortName name = true ∧ FlagField.isSet dir.flags FatDirent.directory = true ∧
    v.Endless name (w.uninit .nameBuffer fs.loads) dir.cluster

/-- **FindInDirectory ends** exactly if the search is not endless. -/
theorem findInDirectory_ends_iff (hw : ¬ w.Faulty) (hco : Coherent v fs) (dir : FatFile)
    (name : Bytes) :
    (∃ fuel r, findInDirectory w v fuel fs dir name = some r) ↔ ¬ EndlessIn w v fs dir name := by
  unfold findInDirectory EndlessIn
  by_cases hname : isShortName name = true
  · by_cases hdir : FlagField.isSet dir.flags FatDirent.directory = true
    · simp only [hname, hdir, Bool.not_true, Bool.false_eq_true, if_false, true_and]
      rw [← v.find_ends_iff name (w.uninit .nameBuffer fs.loads) dir.cluster]
      constructor
      · rintro ⟨fuel, r, hfind⟩
        have hpure := (findLoop_reliable hw name fuel hco dir.cluster
          (w.uninit .nameBuffer fs.loads)).1
        rw [hfind] at hpure
        exact ⟨fuel, r.1, hpure.symm⟩
      · rintro ⟨fuel, r, hfind⟩
        have hpure := (findLoop_reliable hw name fuel hco dir.cluster
          (w.uninit .nameBuffer fs.loads)).1
        rw [hfind] at hpure
        obtain ⟨r', hr', -⟩ := Option.map_eq_some_iff.mp hpure
        exact ⟨fuel, r', hr'⟩
    · simp [hname, hdir]
  · simp [hname]

/-- **FindByPath ends** exactly if none of the searches that it comes to runs
    in a circle for ever. -/
theorem findByPath_ends_iff (hw : ¬ w.Faulty) (hreach : Reached w v (fun _ _ _ => True) fs)
    (name : Bytes) :
    (∃ fuel r, findByPath w v fuel fs name = some r) ↔
      ∀ fs' dir comp, Searches w v fs (cstr name) (rootDir v) fs' dir comp →
        ¬ EndlessIn w v fs' dir comp := by
  have hco := hreach.coherent hw
  constructor
  · rintro ⟨fuel, r, hfind⟩ fs' dir comp hs
    exact (findInDirectory_ends_iff hw (hs.coherent hw hco) dir comp).mp (ends_of_pathLoop hfind hs)
  · intro hends
    obtain ⟨fuel, n, r, hloop⟩ := pathLoop_ends fun fs' dir comp hs =>
      (findInDirectory_ends_iff hw (hs.coherent hw hco) dir comp).mpr (hends fs' dir comp hs)
    exact ⟨max fuel n, r, pathLoop_mono hloop (Nat.le_max_left _ _) (Nat.le_max_right _ _)⟩

/-- The search for the stray file ends, and no part of it runs in a circle. -/
theorem findByPath_ends_stray :
    (∃ fuel r, findByPath reliable strayFile fuel freshWindows (str "A") = some r) ∧
    ∀ fs' dir comp,
      Searches reliable strayFile freshWindows (cstr (str "A")) (rootDir strayFile) fs' dir comp →
        ¬ EndlessIn reliable strayFile fs' dir comp := by
  have hrun : (findByPath reliable strayFile 5 freshWindows (str "A")).isSome = true := by
    decide
  obtain ⟨r, hfind⟩ := Option.isSome_iff_exists.mp hrun
  exact ⟨⟨5, r, hfind⟩,
    (findByPath_ends_iff not_faulty_reliable (.new _ _) (str "A")).mp ⟨5, r, hfind⟩⟩

/-- The FAT entry of the root cluster is the root cluster, and its 16 records
    are all live. -/
def circularRoot : Volume :=
  sampleVolume [0x0FFFFFF8, 0x0FFFFFFF, 2] fun _ => List.replicate 512 0x41

set_option maxRecDepth 3000

/-- Looking for a name that it does not have never ends. -/
theorem findByPath_circular :
    ¬ ∃ fuel r, findByPath reliable circularRoot fuel freshWindows (str "B") = some r := by
  rintro ⟨fuel, r, hfind⟩
  have hsearch : Searches reliable circularRoot freshWindows (cstr (str "B"))
      (rootDir circularRoot) freshWindows (rootDir circularRoot) (str "B") :=
    .here (by decide) (by decide)
  have hends := (findInDirectory_ends_iff not_faulty_reliable (Coherent.new _ _ _) _ _).mp
    (ends_of_pathLoop hfind hsearch)
  -- the walk of one cluster leads back to it
  have hnone : circularRoot.find (str "B") 1 2 (List.replicate 32 0) = none := by decide
  obtain ⟨l, d, buffer, hseg, hlen, hmore⟩ := Volume.exists_segment hnone
  have hroot : (rootDir circularRoot).cluster = 2 := by decide
  have hlink : circularRoot.fatEntry 2 = 2 := by decide
  apply hends
  refine ⟨by decide, by decide, ?_⟩
  rw [hroot]
  cases hseg with
  | nil _ => cases hlen
  | @cons _ _ l hok hrest =>
    rw [hlink] at hrest
    cases hrest with
    | nil _ => exact ⟨[2], 2, buffer, hlink ▸ .cons hok (.nil _), by simp, hmore⟩
    | cons _ _ =>
      rw [List.length_cons, List.length_cons] at hlen
      omega

end FatFs

end Hausboot

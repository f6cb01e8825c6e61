import Hausboot.FatFs.Ranges
import Hausboot.Stage2.LoadExact

/-! # The stage2 Boot Loader: Searching for a Header

    `MBFindHeader` reads blocks of 1024 bytes and tries the words of a block
    that hold the magic number. A candidate that is not accepted overwrites the
    length of the block with its own, so the next block starts 32 bytes further
    on, or less at the end of the file. `Tries` and `FindsHeader` say what the two
    loops do on the bytes of a file. Both are deterministic, and the code follows
    them (`searchLoop_finds`, `FindsHeader.searchLoop`). -/

open ByteLib

namespace Hausboot

/-! ## Section 1: The search on bytes -/

/-- The word at `p` is the magic number. -/
def HasMagic (f : Bytes) (p : Nat) : Prop := leNat (slice f p 4) = MultiBootHeader.magicValue

instance (f : Bytes) (p : Nat) : Decidable (HasMagic f p) :=
  inferInstanceAs (Decidable (leNat (slice f p 4) = MultiBootHeader.magicValue))

/-- The header at `p`, as far as the file has it. -/
def headerAt (f : Bytes) (p : Nat) : MultiBootHeader := ⟨slice f p MultiBootHeader.sizeof⟩

/-- `hdr` once a candidate has been read over it. -/
def readOver (f : Bytes) (p : Nat) (hdr : MultiBootHeader) : MultiBootHeader :=
  ⟨splice hdr.raw 0 (slice f p MultiBootHeader.sizeof)⟩

/-- The inner loop on the block at `o`, from word `i` on with bound `r`. -/
inductive Tries (f : Bytes) (o : Nat) : Nat → Nat → MultiBootHeader → SearchResult → Prop where
  | done {i r : Nat} {hdr : MultiBootHeader} : r / 4 ≤ i → Tries f o i r hdr (.exhausted r hdr)
  | other {i r : Nat} {hdr : MultiBootHeader} {res : SearchResult} :
      i < r / 4 → ¬ HasMagic f (o + i * 4) → Tries f o (i + 1) r hdr res → Tries f o i r hdr res
  | accept {i r : Nat} {hdr : MultiBootHeader} :
      i < r / 4 → HasMagic f (o + i * 4) → (readOver f (o + i * 4) hdr).isValid = true →
      Tries f o i r hdr (.found (o + i * 4) (readOver f (o + i * 4) hdr))
  | reject {i r : Nat} {hdr : MultiBootHeader} {res : SearchResult} :
      i < r / 4 → HasMagic f (o + i * 4) → (readOver f (o + i * 4) hdr).isValid = false →
      Tries f o (i + 1) (slice f (o + i * 4) MultiBootHeader.sizeof).length
        (readOver f (o + i * 4) hdr) res → Tries f o i r hdr res

/-- The outer loop, from offset `o` on up to `limit`. -/
inductive FindsHeader (f : Bytes) (limit : Nat) :
    Nat → MultiBootHeader → Option (Nat × MultiBootHeader) → Prop where
  | past {o : Nat} {hdr : MultiBootHeader} : limit ≤ o → FindsHeader f limit o hdr none
  | short {o : Nat} {hdr : MultiBootHeader} : f.length ≤ o → FindsHeader f limit o hdr none
  | found {o q : Nat} {hdr hdr' : MultiBootHeader} : o < limit → o < f.length →
      Tries f o 0 (slice f o 1024).length hdr (.found q hdr') →
      FindsHeader f limit o hdr (some (q, hdr'))
  | next {o r : Nat} {hdr hdr' : MultiBootHeader} {res : Option (Nat × MultiBootHeader)} :
      o < limit → o < f.length →
      Tries f o 0 (slice f o 1024).length hdr (.exhausted r hdr') →
      FindsHeader f limit (o + r) hdr' res → FindsHeader f limit o hdr res

variable {f : Bytes} {o i r limit : Nat} {hdr : MultiBootHeader}

/-- A magic number takes four bytes. -/
theorem HasMagic.le_length {p : Nat} (h : HasMagic f p) : p + 4 ≤ f.length := by
  by_contra hlt
  have hlen : (slice f p 4).length ≤ 3 := by
    rw [length_slice]
    omega
  have hval := leNat_lt (slice f p 4)
  have hpow : 256 ^ (slice f p 4).length ≤ 256 ^ 3 := Nat.pow_le_pow_right (by decide) hlen
  rw [h] at hval
  exact absurd (Nat.lt_of_lt_of_le hval hpow) (by decide)

theorem magic_of_isValid (h : hdr.isValid = true) : hdr.magic = MultiBootHeader.magicValue := by
  simp only [MultiBootHeader.isValid, Bool.and_eq_true, decide_eq_true_eq] at h
  exact h.1

theorem hasMagic_of_isValid {p : Nat} (h : (headerAt f p).isValid = true) : HasMagic f p := by
  have hmagic := magic_of_isValid h
  rw [MultiBootHeader.magic, MultiBootHeader.field, headerAt, slice, Nat.mul_zero, List.drop_zero,
    slice, List.take_take] at hmagic
  exact hmagic

theorem length_candidate {p : Nat} (h : p + MultiBootHeader.sizeof ≤ f.length) :
    (slice f p MultiBootHeader.sizeof).length = MultiBootHeader.sizeof := by
  rw [length_slice]
  omega

theorem length_candidate_pos {p : Nat} (h : HasMagic f p) :
    0 < (slice f p MultiBootHeader.sizeof).length := by
  have hend := h.le_length
  have hsize : MultiBootHeader.sizeof = 32 := rfl
  rw [length_slice]
  omega

/-- The bound of the inner loop never exceeds the block. -/
theorem length_candidate_le {p : Nat} (hop : o ≤ p) :
    (slice f p MultiBootHeader.sizeof).length ≤ (slice f o 1024).length := by
  rw [length_slice, length_slice]
  have hsize : MultiBootHeader.sizeof ≤ 1024 := by decide
  omega

/-- A complete candidate leaves nothing of what stood there before. -/
theorem readOver_complete {p : Nat} (hhdr : hdr.raw.length ≤ MultiBootHeader.sizeof)
    (h : p + MultiBootHeader.sizeof ≤ f.length) : readOver f p hdr = headerAt f p := by
  have hlen := length_candidate h
  rw [readOver, splice, List.take_zero, List.nil_append, hlen, Nat.zero_add,
    List.drop_eq_nil_of_le hhdr, List.append_nil]
  rfl

/-! ## Section 2: The two loops are deterministic -/

theorem Tries.unique {res res' : SearchResult} (h : Tries f o i r hdr res)
    (h' : Tries f o i r hdr res') : res = res' := by
  induction h with
  | done hle =>
    cases h' with
    | done => rfl
    | other hlt => omega
    | accept hlt => omega
    | reject hlt => omega
  | other hlt hmagic _ ih =>
    cases h' with
    | done => omega
    | other _ _ h' => exact ih h'
    | accept _ hmagic' => exact absurd hmagic' hmagic
    | reject _ hmagic' => exact absurd hmagic' hmagic
  | accept hlt hmagic hvalid =>
    cases h' with
    | done => omega
    | other _ hmagic' => exact absurd hmagic hmagic'
    | accept => rfl
    | reject _ _ hvalid' =>
      rw [hvalid] at hvalid'
      cases hvalid'
  -- a candidate that is turned down leaves one way to go on
  | reject hlt hmagic hvalid _ ih =>
    cases h' with
    | done => omega
    | other _ hmagic' => exact absurd hmagic hmagic'
    | accept _ _ hvalid' =>
      rw [hvalid] at hvalid'
      cases hvalid'
    | reject _ _ _ h' => exact ih h'

theorem FindsHeader.unique {res res' : Option (Nat × MultiBootHeader)}
    (h : FindsHeader f limit o hdr res) (h' : FindsHeader f limit o hdr res') : res = res' := by
  induction h with
  | past hle =>
    cases h' with
    | past => rfl
    | short => rfl
    | found hlt => omega
    | next hlt => omega
  | short hle =>
    cases h' with
    | past => rfl
    | short => rfl
    | found _ hlt => omega
    | next _ hlt => omega
  | found hlt hlt' htries =>
    cases h' with
    | past => omega
    | short => omega
    | found _ _ htries' =>
      cases htries.unique htries'
      rfl
    | next _ _ htries' => cases htries.unique htries'
  | next hlt hlt' htries _ ih =>
    cases h' with
    | past => omega
    | short => omega
    | found _ _ htries' => cases htries.unique htries'
    | next _ _ htries' h' =>
      -- the same block ends with the same bound and header
      have heq := htries.unique htries'
      simp only [SearchResult.exhausted.injEq, Int.natCast_inj] at heq
      obtain ⟨rfl, rfl⟩ := heq
      exact ih h'

/-- The bound with which the inner loop ends lies in the block. -/
theorem Tries.exhausted_eq {ret : Int} {hdr' : MultiBootHeader}
    (h : Tries f o i r hdr (.exhausted ret hdr')) (hr : r ≤ (slice f o 1024).length) :
    ∃ r' : Nat, ret = r' ∧ r' ≤ (slice f o 1024).length := by
  generalize hres : SearchResult.exhausted ret hdr' = res at h
  induction h with
  | done =>
    cases hres
    exact ⟨_, rfl, hr⟩
  | other _ _ _ ih => exact ih hr hres
  | accept => cases hres
  | reject _ _ _ _ ih => exact ih (length_candidate_le (by omega)) hres

/-- A block is never skipped back to itself. -/
theorem Tries.exhausted_pos {ret : Int} {hdr' : MultiBootHeader}
    (h : Tries f o i r hdr (.exhausted ret hdr')) (hr : 0 < r) : 0 < ret := by
  generalize hres : SearchResult.exhausted ret hdr' = res at h
  induction h with
  | done =>
    cases hres
    exact Int.natCast_pos.mpr hr
  | other _ _ _ ih => exact ih hr hres
  | accept => cases hres
  | reject _ hmagic _ _ ih => exact ih (length_candidate_pos hmagic) hres

/-! ## Section 3: The code follows the search -/

section Code

variable {w : World} {v : Volume} {finfo : FatFile} {l : List Nat} {fuel : Nat}

/-- The buffer holds the words of the block. -/
def HoldsBlock (f : Bytes) (o : Nat) (buffer : Bytes) : Prop :=
  ∀ i, i * 4 + 4 ≤ (slice f o 1024).length → slice buffer (4 * i) 4 = slice f (o + i * 4) 4

theorem holdsBlock_splice (f : Bytes) (o : Nat) (buffer : Bytes) :
    HoldsBlock f o (splice buffer 0 (slice f o 1024)) := by
  intro i hi
  have hfront : slice f o 1024 <+: splice buffer 0 (slice f o 1024) := by
    rw [splice, List.take_zero, List.nil_append]
    exact List.prefix_append _ _
  rw [slice_of_front hfront (by omega), slice, slice, slice, List.drop_take, List.drop_drop,
    List.take_take]
  rw [length_slice] at hi
  rw [Nat.mul_comm, Nat.min_eq_left (by omega)]

/-- What the inner loop returns, unless a read of the device has failed. -/
theorem searchBlock_tries (hk : KernelFile v finfo l) {o : Nat} {buffer : Bytes}
    (hbuf : HoldsBlock (v.fileBytes finfo l) o buffer) {n i r : Nat} {hdr : MultiBootHeader}
    {fs fs' : FatFs} {res : SearchResult} (hco : Coherent v fs)
    (hr : r ≤ (slice (v.fileBytes finfo l) o 1024).length)
    (hcall : searchBlock w v fuel finfo o buffer n i (r : Int) hdr fs = some (res, fs')) :
    res = .failed ∨ (Tries (v.fileBytes finfo l) o i r hdr res ∧ Coherent v fs') := by
  induction n generalizing i r hdr fs with
  | zero => cases hcall
  | succ n ih =>
    have hlen := hk.length_le
    have hsize := hk.size_lt
    have hblock := length_slice (v.fileBytes finfo l) o 1024
    unfold searchBlock at hcall
    split at hcall
    swap
    · next hend =>
      cases hcall
      exact .inr ⟨.done (by omega), hco⟩
    next hlt =>
    have hlt : i < r / 4 := by omega
    have hword := hbuf i (by omega)
    rw [hword] at hcall
    split at hcall
    · next hmagic =>
      rcases ih hco hr hcall with hfailed | ⟨htries, hco'⟩
      · exact .inl hfailed
      · exact .inr ⟨.other hlt hmagic htries, hco'⟩
    next hmagic =>
    have hmagic : HasMagic (v.fileBytes finfo l) (o + i * 4) := Decidable.not_not.mp hmagic
    have hend := hmagic.le_length
    rw [u32_of_lt (by omega)] at hcall
    obtain ⟨⟨ret, data, fs₁⟩, hread, hcall⟩ := Option.bind_eq_some_iff.mp hcall
    -- reading the candidate: out of fuel, a window of the file, or an error
    rcases FatFs.readAt_spec (w := w) hk.chain hco fuel (o + i * 4)
      MultiBootHeader.sizeof with ⟨hnone, -⟩ | ⟨data', fs₂, rfl, hsome, hco'⟩ | ⟨-, _, _, hbad⟩
    · rw [hnone] at hread
      cases hread
    · have hshort := length_slice (v.fileBytes finfo l) (o + i * 4) MultiBootHeader.sizeof
      have h32 : MultiBootHeader.sizeof = 32 := rfl
      rw [hsome, i32_of_lt (by omega)] at hread
      cases hread
      -- something has been read, as the magic number lies in the file
      dsimp only at hcall
      rw [if_neg (by omega)] at hcall
      split at hcall
      · next hvalid =>
        cases hcall
        exact .inr ⟨.accept hlt hmagic hvalid, hco'⟩
      · next hvalid =>
        rcases ih hco' (length_candidate_le (by omega)) hcall with hfailed | ⟨htries, hco''⟩
        · exact .inl hfailed
        · exact .inr ⟨.reject hlt hmagic (Bool.eq_false_of_not_eq_true hvalid) htries, hco''⟩
    · rw [hbad] at hread
      cases hread
      cases hcall
      exact .inl rfl

theorem searchLoop_finds (hk : KernelFile v finfo l) {limit n o : Nat} {buffer : Bytes}
    {hdr : MultiBootHeader} {fs fs' : FatFs} {res : Option (Nat × MultiBootHeader)}
    (hco : Coherent v fs)
    (hcall : searchLoop w v fuel finfo limit n o buffer hdr fs = some (res, fs')) :
    res = none ∨ FindsHeader (v.fileBytes finfo l) limit o hdr res := by
  induction n generalizing o buffer hdr fs with
  | zero => cases hcall
  | succ n ih =>
    have hlen := hk.length_le
    have hsize := hk.size_lt
    have hblock := length_slice (v.fileBytes finfo l) o 1024
    unfold searchLoop at hcall
    split at hcall
    swap
    · cases hcall
      exact .inl rfl
    next hlim =>
    obtain ⟨⟨ret, data, fs₁⟩, hread, hcall⟩ := Option.bind_eq_some_iff.mp hcall
    -- reading the block: out of fuel, a window of the file, or an error
    rcases FatFs.readAt_spec (w := w) hk.chain hco fuel o 1024 with
      ⟨hnone, -⟩ | ⟨data', fs₂, rfl, hsome, hco'⟩ | ⟨-, _, _, hbad⟩
    · rw [hnone] at hread
      cases hread
    · rw [hsome, i32_of_lt (by omega)] at hread
      cases hread
      dsimp only at hcall
      split at hcall
      · cases hcall
        exact .inl rfl
      next hpos =>
      obtain ⟨⟨end', fs₃⟩, hblk, hcall⟩ := Option.bind_eq_some_iff.mp hcall
      rcases searchBlock_tries hk (holdsBlock_splice _ o buffer) hco' (Nat.le_refl _) hblk with
        rfl | ⟨htries, hco₃⟩
      · cases hcall
        exact .inl rfl
      -- how the inner loop has ended
      cases end' with
      | found q hdr' =>
        cases hcall
        exact .inr (.found hlim (by omega) htries)
      | failed =>
        cases hcall
        exact .inl rfl
      | exhausted ret hdr' =>
        obtain ⟨r, rfl, hle⟩ := htries.exhausted_eq (Nat.le_refl _)
        dsimp only at hcall
        rw [Int.toNat_natCast, u32_of_lt (by omega)] at hcall
        rcases ih hco₃ hcall with hnone | hfinds
        · exact .inl hnone
        · exact .inr (.next hlim (by omega) htries hfinds)
    · rw [hbad] at hread
      cases hread
      cases hcall
      exact .inl rfl

variable {I : FatFs → Prop}

section Reads

variable (hreads : ReadsFile w v fuel finfo I f) (hlen : f.length < 2 ^ 32)
include hreads hlen

/-- The round of the inner loop that reads a candidate. -/
theorem searchBlock_candidate {buffer : Bytes} {fs : FatFs} (hr : r ≤ (slice f o 1024).length)
    (hbuf : HoldsBlock f o buffer) (hI : I fs) (hlt : i < r / 4)
    (hmagic : HasMagic f (o + i * 4)) :
    ∃ fs', I fs' ∧ ∀ n, searchBlock w v fuel finfo o buffer (n + 1) i (r : Int) hdr fs =
      if (readOver f (o + i * 4) hdr).isValid then
        some (.found (o + i * 4) (readOver f (o + i * 4) hdr), fs')
      else
        searchBlock w v fuel finfo o buffer n (i + 1)
          ((slice f (o + i * 4) MultiBootHeader.sizeof).length : Int)
          (readOver f (o + i * 4) hdr) fs' := by
  have hblock := length_slice f o 1024
  have hend := hmagic.le_length
  have hpos := length_candidate_pos hmagic
  have heq : ¬ leNat (slice buffer (4 * i) 4) ≠ MultiBootHeader.magicValue := by
    rw [hbuf i (by omega)]
    exact not_not.mpr hmagic
  obtain ⟨fs', hread, hI'⟩ := hreads.window hI (o + i * 4) MultiBootHeader.sizeof (by decide)
  refine ⟨fs', hI', fun n => ?_⟩
  rw [searchBlock, if_pos (by omega), if_neg heq, u32_of_lt (by omega), hread]
  simp only [Option.bind_eq_bind, Option.bind_some]
  -- at least the magic number itself has been read
  rw [if_neg (by omega)]
  rfl

/-- The inner loop goes on as long as the search on the bytes does. No block has
    more than 256 words. -/
theorem Tries.searchBlock {res : SearchResult} {n : Nat} {buffer : Bytes} {fs : FatFs}
    (h : Tries f o i r hdr res) (hr : r ≤ (slice f o 1024).length) (hn : 256 < n + i)
    (hi : i ≤ 256) (hbuf : HoldsBlock f o buffer) (hI : I fs) :
    ∃ fs', Hausboot.searchBlock w v fuel finfo o buffer n i (r : Int) hdr fs = some (res, fs') ∧
      I fs' := by
  have hblock := length_slice f o 1024
  obtain ⟨n, rfl⟩ : ∃ k, n = k + 1 := ⟨n - 1, by omega⟩
  induction h generalizing n fs with
  | @done i r hdr hle =>
    refine ⟨fs, ?_, hI⟩
    rw [Hausboot.searchBlock, if_neg (by omega)]
  | @other i r hdr res hlt hmagic _ ih =>
    have hne : leNat (slice buffer (4 * i) 4) ≠ MultiBootHeader.magicValue := by
      rw [hbuf i (by omega)]
      exact hmagic
    obtain ⟨n, rfl⟩ : ∃ k, n = k + 1 := ⟨n - 1, by omega⟩
    obtain ⟨fs', hcall, hI'⟩ := ih hr (by omega) hI n (by omega)
    refine ⟨fs', ?_, hI'⟩
    rw [Hausboot.searchBlock, if_pos (by omega), if_pos hne, hcall]
  | @accept i r hdr hlt hmagic hvalid =>
    obtain ⟨fs', hI', hround⟩ := searchBlock_candidate hreads hlen hr hbuf hI hlt hmagic
    refine ⟨fs', ?_, hI'⟩
    rw [hround, if_pos hvalid]
  | @reject i r hdr res hlt hmagic hvalid _ ih =>
    -- the length of the candidate is the bound of the rest
    obtain ⟨fs₁, hI₁, hround⟩ := searchBlock_candidate hreads hlen hr hbuf hI hlt hmagic
    obtain ⟨n, rfl⟩ : ∃ k, n = k + 1 := ⟨n - 1, by omega⟩
    obtain ⟨fs', hcall, hI'⟩ := ih (length_candidate_le (by omega)) (by omega) hI₁ n (by omega)
    refine ⟨fs', ?_, hI'⟩
    rw [hround, if_neg (Bool.eq_false_iff.mp hvalid), hcall]

/-- The round of the outer loop in which the block has been read and tried. -/
theorem searchLoop_block {end' : SearchResult} {n : Nat} {fs : FatFs} (hlim : o < limit)
    (hlt : o < f.length) (htries : Tries f o 0 (slice f o 1024).length hdr end')
    (hfuel : 256 < fuel) (buffer : Bytes) (hI : I fs) :
    ∃ fs', I fs' ∧
      (∀ q hdr', end' = .found q hdr' →
        searchLoop w v fuel finfo limit (n + 1) o buffer hdr fs = some (some (q, hdr'), fs')) ∧
      ∀ ret hdr', end' = .exhausted ret hdr' →
        searchLoop w v fuel finfo limit (n + 1) o buffer hdr fs =
          searchLoop w v fuel finfo limit n (u32 (o + ret.toNat))
            (splice buffer 0 (slice f o 1024)) hdr' fs' := by
  have hblock := length_slice f o 1024
  obtain ⟨fs₁, hread, hI₁⟩ := hreads.window hI o 1024 (by decide)
  obtain ⟨fs', hcall, hI'⟩ := htries.searchBlock hreads hlen (Nat.le_refl _) hfuel (by decide)
    (holdsBlock_splice _ o buffer) hI₁
  rw [searchLoop, if_pos hlim, hread]
  simp only [Option.bind_eq_bind, Option.bind_some]
  rw [if_neg (by omega), hcall]
  refine ⟨fs', hI', ?_, ?_⟩
  · rintro q hdr' rfl
    rfl
  · rintro ret hdr' rfl
    rfl

/-- The outer loop goes on as long as the search does, and every block brings it
    closer to the limit. -/
theorem FindsHeader.searchLoop {res : Option (Nat × MultiBootHeader)} {n : Nat} {buffer : Bytes}
    {fs : FatFs} (h : FindsHeader f limit o hdr res) (hpos : 0 < n) (hn : limit < n + o)
    (hfuel : 256 < fuel) (hI : I fs) :
    ∃ fs', Hausboot.searchLoop w v fuel finfo limit n o buffer hdr fs = some (res, fs') ∧
      I fs' := by
  obtain ⟨n, rfl⟩ : ∃ k, n = k + 1 := ⟨n - 1, by omega⟩
  induction h generalizing n buffer fs with
  | @past o hdr hle =>
    refine ⟨fs, ?_, hI⟩
    rw [Hausboot.searchLoop, if_neg (by omega)]
  | @short o hdr hle =>
    rw [Hausboot.searchLoop]
    split
    · obtain ⟨fs', hread, hI'⟩ := hreads.window hI o 1024 (by decide)
      have hnil : slice f o 1024 = [] := slice_eq_nil hle
      rw [hnil] at hread
      rw [hread]
      exact ⟨fs', rfl, hI'⟩
    · exact ⟨fs, rfl, hI⟩
  | @found o q hdr hdr' hlim hlt htries =>
    obtain ⟨fs', hI', hround, -⟩ :=
      searchLoop_block (n := n) hreads hlen hlim hlt htries hfuel buffer hI
    exact ⟨fs', hround _ _ rfl, hI'⟩
  | @next o r hdr hdr' res hlim hlt htries _ ih =>
    have hblock := length_slice f o 1024
    obtain ⟨r', heq, hle⟩ := htries.exhausted_eq (Nat.le_refl _)
    have hstep := htries.exhausted_pos (by omega)
    obtain ⟨n, rfl⟩ : ∃ k, n = k + 1 := ⟨n - 1, by omega⟩
    obtain ⟨fs₁, hI₁, -, hround⟩ :=
      searchLoop_block (n := n + 1) hreads hlen hlim hlt htries hfuel buffer hI
    obtain ⟨fs', hrest, hI'⟩ := ih hI₁ n (by omega) (by omega)
    -- the step stays below 2^32
    refine ⟨fs', ?_, hI'⟩
    rw [hround _ _ rfl, Int.toNat_natCast, u32_of_lt (by omega)]
    exact hrest

end Reads

end Code

end Hausboot

import Hausboot.Heap.Room
import Hausboot.Stage2.Search

/-! # The stage2 Boot Loader: Candidates for a Header

    As long as every candidate is complete and turned down, the search is easy
    to follow: it continues behind the group of 32 bytes in which the last
    candidate lies, and from there it moves on in whole blocks. `blockOf` is the
    block in which a word is tried, `latest` the header that is in memory by
    then, and `Approach` the invariant that leads there.

    So a header that may be reported is found, however many other candidates
    stand in front of it (`mbFindHeader_complete`). -/

open ByteLib

namespace Hausboot

/-! ## Section 1: What has been read in front of a word -/

/-- The header in memory when word `k` is reached: the last candidate in front
    of it, or what was there at the start. -/
def latest (f : Bytes) (u : MultiBootHeader) : Nat → MultiBootHeader
  | 0 => u
  | k + 1 => if HasMagic f (4 * k) then headerAt f (4 * k) else latest f u k

/-- Where the search resumes after the last candidate in front of word `k`. -/
def resume (f : Bytes) : Nat → Nat
  | 0 => 0
  | k + 1 => if HasMagic f (4 * k) then 32 * (k / 8) + 32 else resume f k

/-- The block in which word `k` is tried. -/
def blockOf (f : Bytes) (k : Nat) : Nat :=
  if 4 * k < resume f k then resume f k - 32
  else resume f k + 1024 * ((4 * k - resume f k) / 1024)

/-- If word `k` is a candidate, it is complete and turned down. -/
def Dismissed (f : Bytes) (k : Nat) : Prop :=
  HasMagic f (4 * k) →
    4 * k + MultiBootHeader.sizeof ≤ f.length ∧ (headerAt f (4 * k)).isValid = false

variable {f : Bytes} {u hdr : MultiBootHeader} {o i j k r limit : Nat}
  {res : Option (Nat × MultiBootHeader)}

theorem latest_quiet (hjk : j ≤ k) (hno : ∀ m, j ≤ m → m < k → ¬ HasMagic f (4 * m)) :
    latest f u k = latest f u j := by
  induction k, hjk using Nat.le_induction with
  | base => rfl
  | succ k hjk ih =>
    rw [latest, if_neg (hno k hjk (Nat.lt_succ_self k))]
    exact ih fun m hjm hmk => hno m hjm (by omega)

theorem resume_quiet (hjk : j ≤ k) (hno : ∀ m, j ≤ m → m < k → ¬ HasMagic f (4 * m)) :
    resume f k = resume f j := by
  induction k, hjk using Nat.le_induction with
  | base => rfl
  | succ k hjk ih =>
    rw [resume, if_neg (hno k hjk (Nat.lt_succ_self k))]
    exact ih fun m hjm hmk => hno m hjm (by omega)

theorem length_latest (hu : u.raw.length ≤ MultiBootHeader.sizeof) :
    (latest f u k).raw.length ≤ MultiBootHeader.sizeof := by
  induction k with
  | zero => exact hu
  | succ k ih =>
    rw [latest]
    split
    · exact (length_slice _ _ _).trans_le (Nat.min_le_left _ _)
    · exact ih

theorem resume_le : resume f k ≤ 4 * k + 28 := by
  induction k with
  | zero => exact Nat.zero_le _
  | succ k ih =>
    rw [resume]
    split
    · omega
    · omega

theorem le_resume (hmagic : HasMagic f (4 * j)) (hjk : j < k) :
    32 * (j / 8) + 32 ≤ resume f k := by
  induction k, hjk using Nat.le_induction with
  | base => rw [resume, if_pos hmagic]
  | succ k hjk ih =>
    rw [resume]
    split
    · omega
    · exact ih

/-- Within a group, the search resumes behind the group. -/
theorem resume_group (hmagic : HasMagic f (4 * j)) (hjk : j < k) (hgroup : k ≤ 8 * (j / 8) + 8) :
    resume f k = 32 * (j / 8) + 32 := by
  induction k, hjk using Nat.le_induction with
  | base => rw [resume, if_pos hmagic]
  | succ k hjk ih =>
    rw [resume]
    split
    · omega
    · exact ih (by omega)

theorem resume_mod : resume f k % 32 = 0 := by
  induction k with
  | zero => rfl
  | succ k ih =>
    rw [resume]
    split
    · omega
    · exact ih

theorem blockOf_mod : blockOf f k % 32 = 0 := by
  have hmod := resume_mod (f := f) (k := k)
  unfold blockOf
  split <;> omega

theorem blockOf_le : blockOf f k ≤ 4 * k := by
  have hle := resume_le (f := f) (k := k)
  unfold blockOf
  split <;> omega

/-! ## Section 2: Steps of the search -/

/-- The search ends with `res` when it is at word `i` of the block at `o`. -/
def Resumes (f : Bytes) (limit o i r : Nat) (hdr : MultiBootHeader)
    (res : Option (Nat × MultiBootHeader)) : Prop :=
  (∃ q hdr', Tries f o i r hdr (.found q hdr') ∧ res = some (q, hdr')) ∨
  ∃ (r' : Nat) (hdr' : MultiBootHeader),
    Tries f o i r hdr (.exhausted r' hdr') ∧ FindsHeader f limit (o + r') hdr' res

theorem Resumes.finds (hlim : o < limit) (hlen : o < f.length)
    (h : Resumes f limit o 0 (slice f o 1024).length hdr res) : FindsHeader f limit o hdr res := by
  rcases h with ⟨q, hdr', htries, rfl⟩ | ⟨r', hdr', htries, hfinds⟩
  · exact .found hlim hlen htries
  · exact .next hlim hlen htries hfinds

theorem Resumes.done (hle : r / 4 ≤ i) (h : FindsHeader f limit (o + r) hdr res) :
    Resumes f limit o i r hdr res := .inr ⟨r, hdr, .done hle, h⟩

theorem Resumes.other (hlt : i < r / 4) (hmagic : ¬ HasMagic f (o + i * 4))
    (h : Resumes f limit o (i + 1) r hdr res) : Resumes f limit o i r hdr res := by
  rcases h with ⟨q, hdr', htries, rfl⟩ | ⟨r', hdr', htries, hfinds⟩
  · exact .inl ⟨q, hdr', .other hlt hmagic htries, rfl⟩
  · exact .inr ⟨r', hdr', .other hlt hmagic htries, hfinds⟩

theorem Resumes.accept (hlt : i < r / 4) (hmagic : HasMagic f (o + i * 4))
    (hvalid : (readOver f (o + i * 4) hdr).isValid = true) :
    Resumes f limit o i r hdr (some (o + i * 4, readOver f (o + i * 4) hdr)) :=
  .inl ⟨_, _, .accept hlt hmagic hvalid, rfl⟩

/-- The same for word `k` of the file. -/
theorem Resumes.accept_word (ho : o % 4 = 0) (hle : o ≤ 4 * k) (hlt : (4 * k - o) / 4 < r / 4)
    (hmagic : HasMagic f (4 * k)) (hvalid : (readOver f (4 * k) hdr).isValid = true) :
    Resumes f limit o ((4 * k - o) / 4) r hdr (some (4 * k, readOver f (4 * k) hdr)) := by
  have hword : o + (4 * k - o) / 4 * 4 = 4 * k := by omega
  rw [← hword] at hmagic hvalid
  have hres : Resumes f limit o ((4 * k - o) / 4) r hdr _ := Resumes.accept hlt hmagic hvalid
  rwa [hword] at hres

theorem Resumes.reject (hlt : i < r / 4) (hmagic : HasMagic f (o + i * 4))
    (hend : o + i * 4 + MultiBootHeader.sizeof ≤ f.length)
    (hhdr : hdr.raw.length ≤ MultiBootHeader.sizeof)
    (hvalid : (headerAt f (o + i * 4)).isValid = false)
    (h : Resumes f limit o (i + 1) MultiBootHeader.sizeof (headerAt f (o + i * 4)) res) :
    Resumes f limit o i r hdr res := by
  have hover := readOver_complete hhdr hend
  have hlen := length_candidate hend
  rw [← hlen, ← hover] at h
  rw [← hover] at hvalid
  rcases h with ⟨q, hdr', htries, rfl⟩ | ⟨r', hdr', htries, hfinds⟩
  · exact .inl ⟨q, hdr', .reject hlt hmagic hvalid htries, rfl⟩
  · exact .inr ⟨r', hdr', .reject hlt hmagic hvalid htries, hfinds⟩

/-- Words that are not the magic number are passed over. -/
theorem Resumes.skip (hij : i ≤ j) (hj : j ≤ r / 4)
    (hno : ∀ m, i ≤ m → m < j → ¬ HasMagic f (o + m * 4))
    (h : Resumes f limit o j r hdr res) : Resumes f limit o i r hdr res := by
  induction j, hij using Nat.le_induction with
  | base => exact h
  | succ j hij ih =>
    refine ih (by omega) (fun m him hmj => hno m him (by omega)) ?_
    exact h.other (by omega) (hno j hij (Nat.lt_succ_self j))

/-- After the first candidate of a block, the words of the group at its front
    are tried one by one. -/
theorem Resumes.group (ho : o % 32 = 0) (hu : u.raw.length ≤ MultiBootHeader.sizeof)
    (hij : i ≤ j) (hj : j ≤ 8) (hdis : ∀ m, i ≤ m → m < j → Dismissed f (o / 4 + m))
    (h : Resumes f limit o j MultiBootHeader.sizeof (latest f u (o / 4 + j)) res) :
    Resumes f limit o i MultiBootHeader.sizeof (latest f u (o / 4 + i)) res := by
  have h32 : MultiBootHeader.sizeof = 32 := rfl
  induction j, hij using Nat.le_induction with
  | base => exact h
  | succ j hij ih =>
    refine ih (by omega) (fun m him hmj => hdis m him (by omega)) ?_
    have hword : 4 * (o / 4 + j) = o + j * 4 := by omega
    rw [← Nat.add_assoc, latest, hword] at h
    split at h
    · next hmagic =>
      obtain ⟨hend, hvalid⟩ := hdis j hij (Nat.lt_succ_self j) (hword ▸ hmagic)
      rw [hword] at hend hvalid
      exact h.reject (by omega) hmagic hend (length_latest hu) hvalid
    · next hmagic => exact h.other (by omega) hmagic

/-- A bounded search for the first word with a property. -/
theorem exists_first (P : Nat → Prop) [DecidablePred P] (n : Nat) :
    (∀ i < n, ¬ P i) ∨ ∃ i < n, P i ∧ ∀ j < i, ¬ P j := by
  by_cases h : ∃ i, i < n ∧ P i
  · right
    obtain ⟨hlt, hp⟩ := Nat.find_spec h
    refine ⟨Nat.find h, hlt, hp, fun j hj hpj => ?_⟩
    exact Nat.find_min h hj ⟨by omega, hpj⟩
  · exact .inl fun i hi hp => h ⟨i, hi, hp⟩

/-- The first candidate of a block is turned down. -/
theorem Resumes.first (hhdr : hdr.raw.length ≤ MultiBootHeader.sizeof) (ho : o % 4 = 0)
    (hi : i < r / 4) (hno : ∀ j < i, ¬ HasMagic f (o + j * 4)) (hmagic : HasMagic f (o + i * 4))
    (hdis : Dismissed f (o / 4 + i))
    (h : Resumes f limit o (i + 1) MultiBootHeader.sizeof (latest f u (o / 4 + (i + 1))) res) :
    Resumes f limit o 0 r hdr res := by
  have hword : 4 * (o / 4 + i) = o + i * 4 := by omega
  obtain ⟨hend, hvalid⟩ := hdis (hword ▸ hmagic)
  rw [← Nat.add_assoc, latest, hword, if_pos hmagic] at h
  rw [hword] at hend hvalid
  refine .skip (Nat.zero_le i) (by omega) (fun m _ hm => hno m hm) ?_
  exact h.reject hi hmagic hend hhdr hvalid

/-! ## Section 3: Reaching a word -/

/-- The search is in front of word `k`, and where no candidate lies between,
    it has the header and the block that the word will be tried with. -/
structure Approach (f : Bytes) (u : MultiBootHeader) (k o : Nat) (hdr : MultiBootHeader) :
    Prop where
  mod : o % 32 = 0
  le : o ≤ 4 * k
  raw_le : hdr.raw.length ≤ MultiBootHeader.sizeof
  quiet : (∀ m, o ≤ 4 * m → m < k → ¬ HasMagic f (4 * m)) →
    hdr = latest f u k ∧ resume f k ≤ o ∧ (o - resume f k) % 1024 = 0

theorem Approach.start (hu : u.raw.length ≤ MultiBootHeader.sizeof) : Approach f u k 0 u where
  mod := rfl
  le := Nat.zero_le _
  raw_le := hu
  quiet hno := by
    have hnone : ∀ m, 0 ≤ m → m < k → ¬ HasMagic f (4 * m) := fun m _ hm => hno m (by omega) hm
    rw [latest_quiet (Nat.zero_le k) hnone, resume_quiet (Nat.zero_le k) hnone]
    exact ⟨rfl, Nat.le_refl _, rfl⟩

theorem Approach.le_blockOf (h : Approach f u k o hdr) : o ≤ blockOf f k := by
  have hmod := h.mod
  have hle := h.le
  unfold blockOf
  by_cases hno : ∀ m, o ≤ 4 * m → m < k → ¬ HasMagic f (4 * m)
  · obtain ⟨-, hres, hblock⟩ := h.quiet hno
    rw [if_neg (by omega)]
    omega
  · obtain ⟨m, hom, hmk, hmagic⟩ : ∃ m, o ≤ 4 * m ∧ m < k ∧ HasMagic f (4 * m) := by
      by_contra hall
      exact hno fun m hom hmk hmagic => hall ⟨m, hom, hmk, hmagic⟩
    have hres := le_resume hmagic hmk
    split <;> omega

/-- Nothing in the group at the front of the block, nothing in the rest. -/
theorem Approach.block (h : Approach f u k o hdr) (hfar : o + 1024 ≤ 4 * k)
    (hno : ∀ j < 256, ¬ HasMagic f (o + j * 4)) : Approach f u k (o + 1024) hdr where
  mod := by have := h.mod; omega
  le := hfar
  raw_le := h.raw_le
  quiet hrest := by
    have hmod := h.mod
    obtain ⟨hhdr, hres, hblock⟩ := h.quiet fun m hom hmk hmagic => by
      by_cases hin : 4 * m < o + 1024
      · refine hno (m - o / 4) (by omega) ?_
        rwa [show o + (m - o / 4) * 4 = 4 * m by omega]
      · exact hrest m (by omega) hmk hmagic
    exact ⟨hhdr, by omega, by omega⟩

/-- The next block starts behind the group, if a candidate stands in the group
    or further on in front of the word. -/
theorem Approach.shift (h : Approach f u k o hdr) {hdr' : MultiBootHeader} (hj : o ≤ 4 * j)
    (hjk : j < k) (hmagic : HasMagic f (4 * j)) (hnext : o + 32 ≤ 4 * k)
    (hraw : hdr'.raw.length ≤ MultiBootHeader.sizeof)
    (hgroup : 4 * j < o + 32 → hdr' = latest f u (o / 4 + 8)) :
    Approach f u k (o + 32) hdr' where
  mod := by have := h.mod; omega
  le := hnext
  raw_le := hraw
  quiet hrest := by
    have hmod := h.mod
    have hin : 4 * j < o + 32 := by
      by_contra hout
      exact hrest j (by omega) hjk hmagic
    have hquiet : ∀ m, o / 4 + 8 ≤ m → m < k → ¬ HasMagic f (4 * m) := fun m hm hmk =>
      hrest m (by omega) hmk
    have hres : resume f (o / 4 + 8) = o + 32 := by
      rw [resume_group hmagic (by omega) (by omega)]
      omega
    rw [resume_quiet (by omega) hquiet, hres, latest_quiet (by omega) hquiet]
    exact ⟨hgroup hin, Nat.le_refl _, by omega⟩

/-- **The search gets to word `k`**, in its block and with the header that was
    read last, if every candidate in front of the word is turned down. -/
theorem Approach.finds (hu : u.raw.length ≤ MultiBootHeader.sizeof) (hword : 4 * k + 4 ≤ f.length)
    (hdis : ∀ m < k, Dismissed f m) (h : Approach f u k o hdr)
    (hover : limit ≤ blockOf f k → res = none)
    (htry : blockOf f k < limit → ∀ r, r = MultiBootHeader.sizeof ∨
      r = (slice f (blockOf f k) 1024).length → (4 * k - blockOf f k) / 4 < r / 4 →
      Resumes f limit (blockOf f k) ((4 * k - blockOf f k) / 4) r (latest f u k) res) :
    FindsHeader f limit o hdr res := by
  have h32 : MultiBootHeader.sizeof = 32 := rfl
  generalize hn : 4 * k - o = n
  induction n using Nat.strong_induction_on generalizing o hdr with
  | h n ih =>
  have hmod := h.mod
  have hle := h.le
  have hblock := h.le_blockOf
  by_cases hlim : o < limit
  swap
  · rw [hover (by omega)]
    exact .past (by omega)
  have hlen := length_slice f o 1024
  refine Resumes.finds hlim (by omega) ?_
  rcases exists_first (fun m => HasMagic f (o + m * 4)) (min 256 (k - o / 4)) with
    hno | ⟨i, hi, hmagic, hno⟩
  · by_cases hfar : k - o / 4 < 256
    · -- the word lies in this block, and there is no candidate in front of it
      obtain ⟨hhdr, hres, hanchor⟩ := h.quiet fun m hom hmk hmagic => by
        refine hno (m - o / 4) (by omega) ?_
        rwa [show o + (m - o / 4) * 4 = 4 * m by omega]
      have hat : blockOf f k = o := by
        unfold blockOf
        rw [if_neg (by omega)]
        omega
      rw [hat] at htry
      have hidx : (4 * k - o) / 4 = k - o / 4 := by omega
      rw [hidx] at htry
      rw [hhdr]
      exact .skip (Nat.zero_le _) (by omega) (fun m _ hm => hno m (by omega))
        (htry hlim _ (.inr rfl) (by omega))
    · refine .skip (j := 256) (Nat.zero_le _) (by omega) (fun m _ hm => hno m (by omega)) ?_
      refine .done (by omega) ?_
      rw [show (slice f o 1024).length = 1024 by omega]
      exact ih _ (by omega) (h.block (by omega) fun m hm => hno m (by omega)) rfl
  · have hcand : HasMagic f (4 * (o / 4 + i)) := by
      rwa [show 4 * (o / 4 + i) = o + i * 4 by omega]
    refine .first (u := u) h.raw_le (by omega) (by omega) hno hmagic (hdis _ (by omega)) ?_
    by_cases hgroup : i < 8
    · by_cases hnext : 8 ≤ k - o / 4
      · refine .group hmod hu (j := 8) (by omega) (Nat.le_refl _)
          (fun m _ hm => hdis _ (by omega)) ?_
        refine .done (by omega) (ih _ (by omega) ?_ rfl)
        exact h.shift (by omega) (by omega) hcand (by omega) (length_latest hu) fun _ => rfl
      · -- the word is in the group of the candidate
        have hres : resume f k = o + 32 := by
          rw [resume_group hcand (by omega) (by omega)]
          omega
        have hat : blockOf f k = o := by
          unfold blockOf
          rw [if_pos (by omega)]
          omega
        rw [hat] at htry
        have hidx : (4 * k - o) / 4 = k - o / 4 := by omega
        rw [hidx] at htry
        refine .group hmod hu (j := k - o / 4) (by omega) (by omega)
          (fun m _ hm => hdis _ (by omega)) ?_
        rw [show o / 4 + (k - o / 4) = k by omega]
        exact htry hlim _ (.inl rfl) (by omega)
    · refine .done (by omega) (ih _ (by omega) ?_ rfl)
      exact h.shift (by omega) (by omega) hcand (by omega) (length_latest hu) fun hin => by omega

/-! ## Section 4: Completeness -/

/-- A header that may be reported: aligned, in front of the limit, inside of
    the file and valid. -/
structure Reportable (f : Bytes) (p : Nat) : Prop where
  mod : p % 4 = 0
  lt : p < multiBootMaxSearch
  complete : p + MultiBootHeader.sizeof ≤ f.length
  valid : (headerAt f p).isValid = true

variable {w : World} {v : Volume} {finfo : FatFile} {l : List Nat} {st : Boot} {q : Nat}

/-- The first of them ends the search. -/
theorem finds_first (hq : IsLeast {p | Reportable f p} q) (hlim : q < limit)
    (hu : u.raw.length ≤ MultiBootHeader.sizeof) :
    FindsHeader f limit 0 u (some (q, headerAt f q)) := by
  have h32 : MultiBootHeader.sizeof = 32 := rfl
  obtain ⟨⟨hmod, hlt, hend, hvalid⟩, hmin⟩ := hq
  obtain ⟨k, rfl⟩ : ∃ k, q = 4 * k := ⟨q / 4, by omega⟩
  have hle := blockOf_le (f := f) (k := k)
  refine (Approach.start (k := k) hu).finds hu (by omega) ?_ (fun hfar => by omega) ?_
  · -- a candidate in front of the first header is complete, so it is not valid
    intro m hm _
    refine ⟨by omega, Bool.eq_false_iff.mpr fun hval => ?_⟩
    have hfirst := hmin ⟨by omega, by omega, by omega, hval⟩
    omega
  · intro _ r _ hi
    have hblock := blockOf_mod (f := f) (k := k)
    have hmagic := hasMagic_of_isValid hvalid
    have hover := readOver_complete (length_latest (f := f) (k := k) hu) hend
    rw [← hover] at hvalid ⊢
    exact .accept_word (by omega) hle hi hmagic hvalid

/-- The call returns what the search on the bytes of the file returns. -/
theorem mbFindHeader_finds (hk : KernelFile v finfo l) (hw : ¬ w.Faulty) (hco : Coherent v st.fs)
    {r : HeapRegion} {live : List Nat} (hr : r.Reachable ⟨st.heap, live⟩)
    (halloc : ∀ fuel p heap, malloc fuel st.heap 1024 = some (p, heap) → p ≠ 0)
    (h : FindsHeader (v.fileBytes finfo l) (min multiBootMaxSearch finfo.size) 0
      ⟨w.uninit .header st.fs.loads⟩ res) :
    ∃ fuel₀, ∀ fuel, fuel₀ ≤ fuel → ∃ st', mbFindHeader w v fuel st finfo = some (res, st') := by
  obtain ⟨bs, hinv⟩ := runInv_reachable hr
  obtain ⟨buffer, heap, hmalloc⟩ : ∃ buffer heap,
      malloc (bs.length + 1) st.heap 1024 = some (buffer, heap) := by
    rcases malloc_spec hinv.repr (Nat.lt_succ_self _) 1024 with
      ⟨hnull, -⟩ | ⟨_, _, _, _, _, _, _, hsome, -⟩
    · exact ⟨_, _, hnull⟩
    · exact ⟨_, _, hsome⟩
  have hbuf := halloc _ _ _ hmalloc
  obtain ⟨bs', hinv'⟩ := runInv_malloc hinv hmalloc
  rw [if_neg hbuf] at hinv'
  obtain ⟨heap', -, hfree, -⟩ := runInv_free_total hinv' (List.mem_cons_self ..) (Nat.le_refl _)
  have hmax : multiBootMaxSearch = 8192 := rfl
  have hlen := hk.length_le
  have hsize := hk.size_lt
  -- fuel for the search, for the chain of the file, for the buffer, and to give it back
  refine ⟨max (max 8194 (l.length + 1)) (max (bs.length + 1) bs'.length), fun fuel hfuel => ?_⟩
  have hreads : ReadsFile w v fuel finfo (Coherent v) (v.fileBytes finfo l) :=
    readsFile_of_chain hk.chain hw (by omega)
  obtain ⟨fs', hloop, -⟩ : ∃ fs', searchLoop w v fuel finfo (min multiBootMaxSearch finfo.size)
      fuel 0 (w.uninit .searchBuffer st.fs.loads) ⟨w.uninit .header st.fs.loads⟩ st.fs =
        some (res, fs') ∧ Coherent v fs' :=
    h.searchLoop hreads (by omega) (by omega) (by omega) (by omega) hco
  have hscan : (if finfo.size > multiBootMaxSearch then multiBootMaxSearch else finfo.size) =
      min multiBootMaxSearch finfo.size := by
    split <;> omega
  unfold mbFindHeader
  simp only [hscan, malloc_mono (show bs.length + 1 ≤ fuel by omega) hmalloc,
    Option.bind_eq_bind, Option.bind_some, if_neg hbuf, hloop,
    free_mono (show bs'.length ≤ fuel by omega) hfree]
  exact ⟨_, rfl⟩

/-- **The search is complete**: a call that gets its buffer reports the first
    header that may be reported, whatever candidates stand in front of it. -/
theorem mbFindHeader_complete (hk : KernelFile v finfo l) (hw : ¬ w.Faulty)
    (hco : Coherent v st.fs) (hu : ∀ loads, (w.uninit .header loads).length = MultiBootHeader.sizeof)
    {r : HeapRegion} {live : List Nat} (hr : r.Reachable ⟨st.heap, live⟩)
    (halloc : ∀ fuel p heap, malloc fuel st.heap 1024 = some (p, heap) → p ≠ 0)
    (hq : IsLeast {p | Reportable (v.fileBytes finfo l) p} q) :
    ∃ fuel₀, ∀ fuel, fuel₀ ≤ fuel → ∃ st', mbFindHeader w v fuel st finfo =
      some (some (q, headerAt (v.fileBytes finfo l) q), st') := by
  have hlen := hk.length_le
  have hend := hq.1.complete
  have hlt := hq.1.lt
  have hpos : 0 < MultiBootHeader.sizeof := by decide
  refine mbFindHeader_finds hk hw hco hr halloc (finds_first hq (by omega) ?_)
  exact Nat.le_of_eq (hu _)

/-- The heap of `freshBoot`. -/
def freshRegion : HeapRegion := ⟨4096, heapMaxSize, by decide, heapMaxSize_ge, by decide⟩

theorem freshBoot_reachable : freshRegion.Reachable ⟨freshBoot.heap, []⟩ :=
  ⟨fun _ => 0, .refl⟩

theorem freshBoot_alloc (fuel p : Nat) (heap : Heap)
    (h : malloc fuel freshBoot.heap 1024 = some (p, heap)) : p ≠ 0 := by
  refine malloc_ne_zero (runInv_start freshRegion fun _ => 0) (by decide) ?_ h
  exact ⟨_, List.mem_cons_self .., rfl, by decide⟩

/-- The header behind 16 other bytes. -/
theorem mbFindHeader_complete_shifted :
    ∃ fuel₀, ∀ fuel, fuel₀ ≤ fuel → ∃ st', mbFindHeader reliable shiftedKernel fuel freshBoot
      shiftedKernelFile = some (some (16, shiftedHeader), st') := by
  have hfile : shiftedKernel.fileBytes shiftedKernelFile [3] =
      List.replicate 16 0xAA ++ shiftedHeader.raw := by decide
  have hleast : IsLeast {p | Reportable (shiftedKernel.fileBytes shiftedKernelFile [3]) p} 16 := by
    rw [hfile]
    refine ⟨⟨rfl, by decide, by decide, by decide⟩, fun p hp => ?_⟩
    by_contra hlt
    have hfalse : ∀ p < 16, (headerAt (List.replicate 16 0xAA ++ shiftedHeader.raw) p).isValid =
        false := by decide
    exact absurd hp.valid (Bool.eq_false_iff.mp (hfalse p (by omega)))
  have h := mbFindHeader_complete shiftedKernelFile_ok not_faulty_reliable
    (Coherent.new shiftedKernel [] []) (fun _ => rfl) freshBoot_reachable freshBoot_alloc hleast
  rw [hfile] at h
  exact h

end Hausboot

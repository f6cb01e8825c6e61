import Hausboot.Stage2.Candidates

/-! # The stage2 Boot Loader: Which Headers Can Be Trusted

    `MBFindHeader` checks neither whether a candidate has been read completely
    nor where it lies. A candidate that the end of the file cuts off is checked
    together with what was in memory before, and its length moves the next block
    off the grid. A block that does not start at a multiple of 1024 can reach
    behind the limit.

    So the first candidate that is cut off or lies behind the limit decides
    whether a reported header can be trusted. -/

open ByteLib

namespace Hausboot

variable {f : Bytes} {u hdr : MultiBootHeader} {o k limit : Nat}

/-! ## Section 1: Searches without a result -/

/-- The search ends without a result if all candidates up to the first one at
    or behind the limit are turned down. -/
theorem finds_none (hgrid : limit % 32 = 0 ∨ f.length ≤ limit)
    (hdis : ∀ k, (∀ m < k, HasMagic f (4 * m) → 4 * m < limit) → Dismissed f k)
    (ho : o % 32 = 0) (hraw : hdr.raw.length ≤ MultiBootHeader.sizeof) :
    FindsHeader f limit o hdr none := by
  have h32 : MultiBootHeader.sizeof = 32 := rfl
  generalize hn : limit - o = n
  induction n using Nat.strong_induction_on generalizing o hdr with
  | h n ih =>
  by_cases hlim : o < limit
  swap
  · exact .past (by omega)
  by_cases hend : o < f.length
  swap
  · exact .short (by omega)
  have hlen := length_slice f o 1024
  refine Resumes.finds hlim hend ?_
  rcases exists_first (fun m => HasMagic f (o + m * 4)) ((slice f o 1024).length / 4) with
    hno | ⟨i, hi, hmagic, hno⟩
  · refine .skip (Nat.zero_le _) (Nat.le_refl _) (fun m _ hm => hno m hm) ?_
    refine .done (Nat.le_refl _) ?_
    by_cases hlast : f.length ≤ o + 1024
    · exact .short (by omega)
    · exact ih _ (by omega) (by omega) hraw rfl
  · -- no candidate in front of this one lies at or behind the limit
    have hfront : ∀ m < o / 4 + i, HasMagic f (4 * m) → 4 * m < limit := by
      intro m hm hcand
      by_contra hover
      refine hno (m - o / 4) (by omega) ?_
      rwa [show o + (m - o / 4) * 4 = 4 * m by omega]
    refine .first (u := hdr) hraw (by omega) hi hno hmagic (hdis _ hfront) ?_
    by_cases hgroup : i < 8
    · refine .group ho hraw (j := 8) (by omega) (Nat.le_refl _) (fun m _ hm => ?_) ?_
      · refine hdis _ fun m' hm' hcand => ?_
        have hle := hcand.le_length
        omega
      · exact .done (by omega) (ih _ (by omega) (by omega) (length_latest hraw) rfl)
    · exact .done (by omega) (ih _ (by omega) (by omega) (length_latest hraw) rfl)

/-! ## Section 2: The first improper candidate -/

/-- A candidate in front of the limit that has all of its bytes in the file. -/
def Proper (f : Bytes) (k : Nat) : Prop :=
  4 * k < multiBootMaxSearch ∧ 4 * k + MultiBootHeader.sizeof ≤ f.length

structure FirstImproper (f : Bytes) (k : Nat) : Prop where
  magic : HasMagic f (4 * k)
  improper : ¬ Proper f k
  first : ∀ m < k, HasMagic f (4 * m) → Proper f m

/-- There is a header to report, or the first improper candidate is harmless:
    it is not in a block that is searched, or it is complete and not valid. -/
def ScanTrusted (f : Bytes) : Prop :=
  (∃ p, Reportable f p) ∨ ∀ k, FirstImproper f k → multiBootMaxSearch ≤ blockOf f k ∨
    (4 * k + MultiBootHeader.sizeof ≤ f.length ∧ (headerAt f (4 * k)).isValid = false)

/-- The first improper candidate is tried and cut off, but turned down whatever
    the memory behind it holds. -/
def CutOff (f : Bytes) : Prop :=
  ∃ k, FirstImproper f k ∧ blockOf f k < multiBootMaxSearch ∧
    f.length < 4 * k + MultiBootHeader.sizeof ∧
    ∀ u : MultiBootHeader, u.raw.length = MultiBootHeader.sizeof →
      (readOver f (4 * k) (latest f u k)).isValid = false

theorem dismissed_of_proper (hnone : ¬ ∃ p, Reportable f p)
    (hproper : HasMagic f (4 * k) → Proper f k) : Dismissed f k := by
  intro hmagic
  obtain ⟨hlt, hend⟩ := hproper hmagic
  refine ⟨hend, Bool.eq_false_iff.mpr fun hvalid => hnone ⟨4 * k, ?_, hlt, hend, hvalid⟩⟩
  omega

/-- Where there is an improper candidate, there is a first one. -/
theorem exists_firstImproper (h : ∃ k, HasMagic f (4 * k) ∧ ¬ Proper f k) :
    ∃ k, FirstImproper f k := by
  classical
  obtain ⟨hmagic, himproper⟩ := Nat.find_spec h
  refine ⟨Nat.find h, hmagic, himproper, fun m hm hcand => ?_⟩
  by_contra hbad
  exact Nat.find_min h hm ⟨hcand, hbad⟩

/-- With the first improper candidate out of the way, nothing is found. -/
theorem ScanTrusted.finds_none (h : ScanTrusted f) (hnone : ¬ ∃ p, Reportable f p)
    (hu : u.raw.length ≤ MultiBootHeader.sizeof) {size : Nat} (hsize : f.length ≤ size) :
    FindsHeader f (min multiBootMaxSearch size) 0 u none := by
  have hmax : multiBootMaxSearch = 8192 := rfl
  have h32 : MultiBootHeader.sizeof = 32 := rfl
  have hgrid : min multiBootMaxSearch size % 32 = 0 ∨
      f.length ≤ min multiBootMaxSearch size := by omega
  by_cases hex : ∃ k, HasMagic f (4 * k) ∧ ¬ Proper f k
  swap
  · refine Hausboot.finds_none hgrid (fun k _ => dismissed_of_proper hnone fun hmagic => ?_) rfl hu
    by_contra hbad
    exact hex ⟨k, hmagic, hbad⟩
  obtain ⟨k, hk⟩ := exists_firstImproper hex
  have hend := hk.magic.le_length
  have hle := blockOf_le (f := f) (k := k)
  rcases h with hrep | hall
  · exact absurd hrep hnone
  rcases hall k hk with hfar | ⟨hcomplete, hvalid⟩
  · exact (Approach.start hu).finds hu hend
      (fun m hm => dismissed_of_proper hnone (hk.first m hm)) (fun _ => rfl)
      (fun hlt => by omega)
  · -- it lies behind the limit, so no candidate behind it is tried
    have hlimit : multiBootMaxSearch ≤ 4 * k := by
      by_contra hlt
      exact hk.improper ⟨by omega, hcomplete⟩
    refine Hausboot.finds_none hgrid (fun m hfront => ?_) rfl hu
    rcases Nat.lt_trichotomy m k with hlt | rfl | hgt
    · exact dismissed_of_proper hnone (hk.first m hlt)
    · exact fun _ => ⟨hcomplete, hvalid⟩
    · have hcand := hfront k hgt hk.magic
      omega

/-! ## Section 3: Soundness -/

variable {v : Volume} {finfo : FatFile} {l : List Nat}

/-- The bytes that `MBFindHeader` can read of a file. -/
def searchedBytes (v : Volume) (finfo : FatFile) (l : List Nat) : Bytes :=
  (v.content l).take finfo.size

/-- What a reported header is meant to be: aligned, in front of the limit, and
    read completely from its place, on any device and whatever the memory held
    before. -/
def SearchSound (v : Volume) (finfo : FatFile) (l : List Nat) : Prop :=
  ∀ (w : World) (fuel : Nat) (st st' : Boot) (offset : Nat) (hdr : MultiBootHeader),
    (∀ loads, (w.uninit .header loads).length = MultiBootHeader.sizeof) → Coherent v st.fs →
    mbFindHeader w v fuel st finfo = some (some (offset, hdr), st') →
    offset % 4 = 0 ∧ offset < multiBootMaxSearch ∧
      offset + MultiBootHeader.sizeof ≤ (searchedBytes v finfo l).length ∧
      hdr.raw = slice (searchedBytes v finfo l) offset MultiBootHeader.sizeof

theorem KernelFile.searchedBytes_eq (hk : KernelFile v finfo l) :
    searchedBytes v finfo l = v.fileBytes finfo l := by
  rw [Volume.fileBytes, if_pos hk.pos]
  rfl

theorem mbFindHeader_searchLoop {w : World} {fuel : Nat} {st st' : Boot} {offset : Nat}
    (h : mbFindHeader w v fuel st finfo = some (some (offset, hdr), st')) :
    ∃ fs', searchLoop w v fuel finfo (min multiBootMaxSearch finfo.size) fuel 0
      (w.uninit .searchBuffer st.fs.loads) ⟨w.uninit .header st.fs.loads⟩ st.fs =
        some (some (offset, hdr), fs') := by
  have hscan : (if finfo.size > multiBootMaxSearch then multiBootMaxSearch else finfo.size) =
      min multiBootMaxSearch finfo.size := by
    split <;> omega
  simp only [mbFindHeader, hscan, Option.bind_eq_bind, Option.bind_eq_some_iff] at h
  obtain ⟨⟨buffer, heap⟩, -, h⟩ := h
  split at h
  · cases h
  · obtain ⟨⟨res, fs'⟩, hloop, h⟩ := Option.bind_eq_some_iff.mp h
    obtain ⟨heap', -, h⟩ := Option.bind_eq_some_iff.mp h
    cases h
    exact ⟨fs', hloop⟩

/-- The first improper candidate of a file that is not trusted is tried. -/
theorem FirstImproper.finds (hk : FirstImproper f k) (hnone : ¬ ∃ p, Reportable f p)
    (htried : blockOf f k < multiBootMaxSearch) (hu : u.raw.length ≤ MultiBootHeader.sizeof)
    {size : Nat} (hsize : f.length ≤ size)
    (hvalid : (readOver f (4 * k) (latest f u k)).isValid = true) :
    FindsHeader f (min multiBootMaxSearch size) 0 u
      (some (4 * k, readOver f (4 * k) (latest f u k))) := by
  have hend := hk.magic.le_length
  have hle := blockOf_le (f := f) (k := k)
  have hmod := blockOf_mod (f := f) (k := k)
  refine (Approach.start hu).finds hu hend
    (fun m hm => dismissed_of_proper hnone (hk.first m hm)) (fun hfar => by omega) ?_
  intro _ r _ hi
  exact .accept_word (by omega) hle hi hk.magic hvalid

theorem length_searchedBytes (v : Volume) (finfo : FatFile) (l : List Nat) :
    (searchedBytes v finfo l).length ≤ finfo.size := by
  rw [searchedBytes, List.length_take]
  exact Nat.min_le_left _ _

/-- What is reported for a file that is trusted is its first header. -/
theorem ScanTrusted.sound (hch : v.FsChain finfo.cluster l) (hsize : finfo.size < 2 ^ 32)
    (htrust : ScanTrusted (searchedBytes v finfo l)) : SearchSound v finfo l := by
  intro w fuel st st' offset hdr hu hco hcall
  have hlen := length_searchedBytes v finfo l
  obtain ⟨fs', hloop⟩ := mbFindHeader_searchLoop hcall
  by_cases hpos : 0 < finfo.size
  swap
  · -- nothing is searched of an empty file
    rw [Nat.eq_zero_of_not_pos hpos] at hloop
    cases fuel with
    | zero => cases hloop
    | succ fuel =>
      rw [searchLoop, if_neg (by omega)] at hloop
      cases hloop
  have hk : KernelFile v finfo l := ⟨hch, hpos, hsize⟩
  rw [hk.searchedBytes_eq] at htrust hlen ⊢
  generalize hfile : v.fileBytes finfo l = f at *
  have hraw := Nat.le_of_eq (hu st.fs.loads)
  rcases searchLoop_finds hk hco hloop with hbad | hfinds
  · cases hbad
  rw [hfile] at hfinds
  -- the search is deterministic, so its result is the one that is known
  by_cases hrep : ∃ p, Reportable f p
  · classical
    have hleast : IsLeast {p | Reportable f p} (Nat.find hrep) :=
      ⟨Nat.find_spec hrep, fun p hp => Nat.find_min' hrep hp⟩
    have hreport := hleast.1
    have hend := hreport.complete
    have hlt := hreport.lt
    have hsz : 0 < MultiBootHeader.sizeof := by decide
    have hres := hfinds.unique (finds_first hleast (by omega) hraw)
    simp only [Option.some.injEq, Prod.mk.injEq] at hres
    obtain ⟨rfl, rfl⟩ := hres
    exact ⟨hreport.mod, hlt, hend, rfl⟩
  · cases hfinds.unique (htrust.finds_none hrep hraw hlen)

/-- An improper candidate that is tried, and not always turned down if it is cut
    off, is accepted for some memory. -/
theorem FirstImproper.accepted (hk : FirstImproper f k)
    (htried : blockOf f k < multiBootMaxSearch)
    (hreject : 4 * k + MultiBootHeader.sizeof ≤ f.length →
      ¬ (headerAt f (4 * k)).isValid = false) (hncut : ¬ CutOff f) :
    ∃ u : MultiBootHeader, u.raw.length = MultiBootHeader.sizeof ∧
      (readOver f (4 * k) (latest f u k)).isValid = true := by
  by_cases hend : 4 * k + MultiBootHeader.sizeof ≤ f.length
  · -- a complete candidate does not depend on the memory
    refine ⟨⟨List.replicate MultiBootHeader.sizeof 0⟩, List.length_replicate, ?_⟩
    rw [readOver_complete (length_latest (Nat.le_of_eq List.length_replicate)) hend]
    exact Bool.eq_true_of_not_eq_false (hreject hend)
  · by_contra hall
    refine hncut ⟨k, hk, htried, by omega, fun u hu => ?_⟩
    exact Bool.eq_false_iff.mpr fun hvalid => hall ⟨u, hu, hvalid⟩

/-- The first improper candidate of any other file is reported for some memory,
    unless it is cut off and turned down for each. -/
theorem SearchSound.trusted (hch : v.FsChain finfo.cluster l) (hsize : finfo.size < 2 ^ 32)
    (hsound : SearchSound v finfo l) :
    ScanTrusted (searchedBytes v finfo l) ∨ CutOff (searchedBytes v finfo l) := by
  have hlen := length_searchedBytes v finfo l
  by_contra hnot
  obtain ⟨huntrusted, hncut⟩ := not_or.mp hnot
  obtain ⟨hnone, hbad⟩ := not_or.mp huntrusted
  simp only [not_forall, not_or, not_and, Nat.not_le] at hbad
  obtain ⟨k, hfirst, htried, hreject⟩ := hbad
  generalize hfile : searchedBytes v finfo l = f at *
  have hmagic := hfirst.magic.le_length
  have hk : KernelFile v finfo l := ⟨hch, by omega, hsize⟩
  obtain ⟨u, hu, hvalid⟩ := hfirst.accepted htried hreject hncut
  -- a device without failures, and this memory
  let w : World := { fault := fun _ _ => none, uninit := fun _ _ => u.raw }
  have hw : ¬ w.Faulty := fun ⟨_, _, hbad⟩ => hbad rfl
  have hfinds := hfirst.finds hnone htried (Nat.le_of_eq hu) hlen hvalid
  rw [← hfile, hk.searchedBytes_eq] at hfinds
  obtain ⟨fuel, hfuel⟩ : ∃ fuel₀, ∀ fuel, fuel₀ ≤ fuel → ∃ st',
      mbFindHeader w v fuel freshBoot finfo = some (some (4 * k, _), st') :=
    mbFindHeader_finds hk hw (Coherent.new v [] []) freshBoot_reachable freshBoot_alloc hfinds
  obtain ⟨st', hcall⟩ := hfuel fuel (Nat.le_refl _)
  obtain ⟨-, hlt, hend, -⟩ := hsound w fuel freshBoot st' _ _ (fun _ => hu)
    (Coherent.new v [] []) hcall
  rw [hfile] at hend
  exact hfirst.improper ⟨hlt, hend⟩

/-- **Which headers can be trusted**: every header that is reported for a file
    is sound if the file has a header to report or its first improper candidate
    is harmless; and else that candidate is reported itself for some memory, or
    is cut off. -/
theorem mbFindHeader_sound (hch : v.FsChain finfo.cluster l) (hsize : finfo.size < 2 ^ 32) :
    (ScanTrusted (searchedBytes v finfo l) → SearchSound v finfo l) ∧
    (SearchSound v finfo l →
      ScanTrusted (searchedBytes v finfo l) ∨ CutOff (searchedBytes v finfo l)) := by
  constructor
  · intro htrust
    exact htrust.sound hch hsize
  · intro hsound
    exact hsound.trusted hch hsize

/-- Every header that is reported for `shiftedKernel` is sound. -/
theorem mbFindHeader_sound_shifted :
    shiftedKernel.FsChain 3 [3] ∧ SearchSound shiftedKernel shiftedKernelFile [3] :=
  ⟨shiftedKernelFile_ok.chain, (mbFindHeader_sound shiftedKernelFile_ok.chain (by decide)).1
    (.inl ⟨16, by decide, by decide, by decide, by decide⟩)⟩

/-- A file of 12 bytes that are the front of a valid header. -/
def cutKernel : Volume :=
  sampleVolume [0x0FFFFFF8, 0x0FFFFFFF, 0x0FFFFFFF, 0x0FFFFFFF] fun lba =>
    if lba = 3 then shiftedHeader.raw.take 12 else []

def cutKernelFile : FatFile := ⟨3, 12, 0⟩

/-- Its header is reported with 20 bytes that are not from the file. -/
theorem mbFindHeader_reports_cut :
    ∃ hdr st', mbFindHeader reliable cutKernel 20 freshBoot cutKernelFile =
        some (some (0, hdr), st') ∧
      hdr.raw = shiftedHeader.raw.take 12 ++ List.replicate 20 0 ∧
      hdr.raw ≠ slice (searchedBytes cutKernel cutKernelFile [3]) 0 MultiBootHeader.sizeof ∧
      ¬ SearchSound cutKernel cutKernelFile [3] := by
  have hfind : (mbFindHeader reliable cutKernel 20 freshBoot cutKernelFile).map Prod.fst =
      some (some (0, ⟨shiftedHeader.raw.take 12 ++ List.replicate 20 0⟩)) := by
    decide
  obtain ⟨⟨_, st'⟩, hfind, rfl⟩ := Option.map_eq_some_iff.mp hfind
  have hne : (shiftedHeader.raw.take 12 ++ List.replicate 20 0) ≠
      slice (searchedBytes cutKernel cutKernelFile [3]) 0 MultiBootHeader.sizeof := by
    decide
  refine ⟨_, st', hfind, rfl, hne, fun hsound => ?_⟩
  have hraw := hsound reliable 20 freshBoot st' 0 _ (fun _ => rfl) (Coherent.new _ [] []) hfind
  exact hne hraw.2.2.2

end Hausboot

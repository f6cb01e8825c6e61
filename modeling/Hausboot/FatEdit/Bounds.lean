import Hausboot.FatEdit.Names
import Hausboot.FatEdit.View

/-! # The fatedit Tool: Cluster Numbers Out of Range

    `NextClusterInFile` leaves the bounds check to `std::vector::at`, but the
    index that it hands over was multiplied by four in 32 bits. So the numbers
    from 2 ^ 30 on, which a directory record can well contain, are looked up
    modulo 2 ^ 30. This file follows the four reads of the source, and states
    for which numbers the check does what it is there for. -/

open ByteLib

namespace Hausboot.FatEdit

/-! ## Section 1: The four reads -/

/-- `std::vector::at` -/
def ByteVec.vectorAt (v : ByteVec) (idx : Nat) : Except Fail UInt8 :=
  if idx < v.size then .ok (v.bytes idx) else .error (.throw .outOfRange)

/-- `NextClusterInFile` as the source has it, one byte after the other. -/
def nextClusterByBytes (s : Session) (N : Nat) : Except Fail Nat := do
  let idx := u32 (N * 4)
  let out := (← s.fatRaw.vectorAt idx).toNat
  let out := out ||| (← s.fatRaw.vectorAt (u32 (idx + 1))).toNat <<< 8
  let out := out ||| (← s.fatRaw.vectorAt (u32 (idx + 2))).toNat <<< 16
  let out := out ||| (← s.fatRaw.vectorAt (u32 (idx + 3))).toNat <<< 24
  return out &&& 0x0FFFFFFF

/-- A byte above the bits that are there already. -/
theorem or_shiftLeft_of_lt {out : Nat} (b : UInt8) {k : Nat} (h : out < 2 ^ k) :
    out ||| b.toNat <<< k = out + 2 ^ k * b.toNat := by
  rw [Nat.shiftLeft_eq, Nat.mul_comm, or_mul_of_lt h]

/-- Four bytes, put together with shifts, are a little-endian number. -/
theorem or_bytes_eq_readLE (m : Store) (a : Nat) :
    (m a).toNat ||| (m (a + 1)).toNat <<< 8 ||| (m (a + 2)).toNat <<< 16 |||
      (m (a + 3)).toNat <<< 24 = m.readLE a 4 := by
  have h0 := (m a).toNat_lt
  have h1 := (m (a + 1)).toNat_lt
  have h2 := (m (a + 2)).toNat_lt
  have hread : m.read a 4 = [m a, m (a + 1), m (a + 2), m (a + 3)] := rfl
  rw [or_shiftLeft_of_lt (m (a + 1)) (k := 8) (by omega),
    or_shiftLeft_of_lt (m (a + 2)) (k := 16) (by omega),
    or_shiftLeft_of_lt (m (a + 3)) (k := 24) (by omega), Store.readLE, hread]
  simp only [leNat]
  omega

/-- The two forms of the function are the same. The index is a multiple of
    four, so only the product can wrap around. -/
theorem nextClusterByBytes_eq (s : Session) (N : Nat) :
    nextClusterByBytes s N = nextClusterInFile s N := by
  have hidx : u32 (N * 4) % 4 = 0 ∧ u32 (N * 4) < 2 ^ 32 := by
    unfold u32
    omega
  have hmask : ∀ x : Nat, x &&& 0x0FFFFFFF = x % 2 ^ 28 := fun x => Nat.and_two_pow_sub_one_eq_mod x 28
  unfold nextClusterByBytes nextClusterInFile
  dsimp only
  generalize u32 (N * 4) = idx at hidx
  rw [u32_of_lt (by omega), u32_of_lt (by omega), u32_of_lt (by omega)]
  by_cases h : idx + 3 < s.fatRaw.size
  · -- all four reads are inside
    have hin : ∀ k ≤ 3, s.fatRaw.vectorAt (idx + k) = .ok (s.fatRaw.bytes (idx + k)) :=
      fun k hk => if_pos (by omega)
    rw [if_pos h, hin 1 (by omega), hin 2 (by omega), hin 3 (by omega), ← or_bytes_eq_readLE,
      ← hmask]
    exact congrArg (· >>= _) (hin 0 (by omega))
  · rw [if_neg h]
    -- some read is outside, and it throws what the others would throw
    unfold ByteVec.vectorAt
    split_ifs <;> rfl

/-! ## Section 2: Which entry is read -/

/-- Entry `N` of the table lies wholly in the vector. -/
def EntryIn (s : Session) (N : Nat) : Prop := 4 * N + 4 ≤ s.fatRaw.size

/-- The entry that is read is the one of `N` modulo 2 ^ 30. -/
theorem nextClusterInFile_of_in {s : Session} {N : Nat} (h : EntryIn s (N % 2 ^ 30)) :
    nextClusterInFile s N = .ok (s.link (N % 2 ^ 30)) := by
  have hidx : u32 (N * 4) = 4 * (N % 2 ^ 30) := by
    unfold u32
    omega
  unfold EntryIn at h
  simp only [nextClusterInFile, hidx]
  exact if_pos (by omega)

theorem nextClusterInFile_of_not_in {s : Session} {N : Nat} (h : ¬EntryIn s (N % 2 ^ 30)) :
    nextClusterInFile s N = .error (.throw .outOfRange) := by
  have hidx : u32 (N * 4) = 4 * (N % 2 ^ 30) := by
    unfold u32
    omega
  unfold EntryIn at h
  simp only [nextClusterInFile, hidx]
  exact if_neg (by omega)

/-- Cluster numbers that agree modulo 2 ^ 30 are followed alike. -/
theorem nextClusterInFile_mod (s : Session) (N : Nat) :
    nextClusterInFile s (N % 2 ^ 30) = nextClusterInFile s N := by
  have hmod : N % 2 ^ 30 % 2 ^ 30 = N % 2 ^ 30 := Nat.mod_mod _ _
  by_cases h : EntryIn s (N % 2 ^ 30)
  · rw [nextClusterInFile_of_in h, nextClusterInFile_of_in (by rwa [hmod]), hmod]
  · rw [nextClusterInFile_of_not_in h, nextClusterInFile_of_not_in (by rwa [hmod])]

/-! ## Section 3: What the check is there for -/

/-- The lookup of `N` throws exactly when its entry is not in the vector, and
    otherwise gives the low 28 bits of that entry. -/
structure Caught (s : Session) (N : Nat) : Prop where
  throws : nextClusterInFile s N = .error (.throw .outOfRange) ↔ ¬EntryIn s N
  returns : EntryIn s N → nextClusterInFile s N = .ok (s.link N)

/-- **Bounds of `NextClusterInFile`**: the lookup of `N` is right if and only
    if `4 * N` does not wrap around, or the entry that it wraps around to is
    not in the vector either, or both entries are in the vector and have the
    same low 28 bits. -/
theorem nextClusterInFile_caught_iff (s : Session) (N : Nat) (hN : N < 2 ^ 32) :
    Caught s N ↔
      N < 2 ^ 30 ∨ ¬EntryIn s (N % 2 ^ 30) ∨
      (EntryIn s N ∧ s.link N = s.link (N % 2 ^ 30)) := by
  have hle : EntryIn s N → EntryIn s (N % 2 ^ 30) := by
    unfold EntryIn
    omega
  constructor
  · intro hcaught
    by_cases hmod : EntryIn s (N % 2 ^ 30)
    · have hok := nextClusterInFile_of_in hmod
      have hin : EntryIn s N := by
        by_contra hout
        rw [hcaught.throws.mpr hout] at hok
        cases hok
      have hlink := hcaught.returns hin
      rw [hok] at hlink
      exact .inr (.inr ⟨hin, (Except.ok.inj hlink).symm⟩)
    · exact .inr (.inl hmod)
  · intro hcond
    by_cases hmod : EntryIn s (N % 2 ^ 30)
    · have hok := nextClusterInFile_of_in hmod
      -- the entry that is read is that of `N`, or says the same
      have hin : EntryIn s N ∧ s.link N = s.link (N % 2 ^ 30) := by
        rcases hcond with hlt | hnot | hin
        · rw [Nat.mod_eq_of_lt hlt] at hmod ⊢
          exact ⟨hmod, rfl⟩
        · exact absurd hmod hnot
        · exact hin
      constructor
      · rw [hok]
        simp [hin.1]
      · intro _
        rw [hok, hin.2]
    · have herr := nextClusterInFile_of_not_in hmod
      have hout : ¬EntryIn s N := fun hin => hmod (hle hin)
      exact ⟨by simp [herr, hout], fun hin => absurd hin hout⟩

/-- A FAT with the links 2 to 3 and 3 to the end. -/
def sampleFat : Session where
  file := ⟨fun _ => 0, 0⟩
  fatRaw := ⟨Store.writeLE (Store.writeLE (fun _ => 0) 8 4 3) 12 4 0x0FFFFFF8, 16⟩
  fsinfo := []
  cout := []
  cerr := []

/-- A record whose first cluster is 2 ^ 30 + 2. -/
def astrayRecord : FatDirent := FatDirent.default.setClusterIndex (2 ^ 30 + 2)

theorem nextClusterInFile_caught_two : Caught sampleFat 2 :=
  (nextClusterInFile_caught_iff sampleFat 2 (by decide)).mpr (.inl (by decide))

/-- The first cluster of the record is far behind the FAT, but the lookup
    gives the link of cluster 2. -/
theorem nextClusterInFile_astray :
    astrayRecord.clusterIndex = 2 ^ 30 + 2 ∧ ¬EntryIn sampleFat (2 ^ 30 + 2) ∧
    nextClusterInFile sampleFat astrayRecord.clusterIndex = .ok 3 ∧
    ¬∀ s N, N < 2 ^ 32 → Caught s N := by
  have hidx : astrayRecord.clusterIndex = 2 ^ 30 + 2 := by decide
  have hout : ¬EntryIn sampleFat (2 ^ 30 + 2) := by
    unfold EntryIn
    decide
  have hok : nextClusterInFile sampleFat (2 ^ 30 + 2) = .ok 3 := by decide
  refine ⟨hidx, hout, hidx ▸ hok, ?_⟩
  intro hall
  have herr := (hall sampleFat (2 ^ 30 + 2) (by decide)).throws.mpr hout
  rw [hok] at herr
  cases herr

/-- A FAT below 4 GiB with an entry or more maps some number astray. -/
theorem caught_all_iff {s : Session} (hsize : s.fatRaw.size < 2 ^ 32) :
    (∀ N < 2 ^ 32, Caught s N) ↔ s.fatRaw.size < 4 := by
  constructor
  · intro hall
    by_contra h4
    have hzero : EntryIn s (2 ^ 30 % 2 ^ 30) := by
      unfold EntryIn
      omega
    have hout : ¬EntryIn s (2 ^ 30) := by
      unfold EntryIn
      omega
    have herr := (hall (2 ^ 30) (by decide)).throws.mpr hout
    rw [nextClusterInFile_of_in hzero] at herr
    cases herr
  · intro h4 N _
    have hnone : ∀ n, ¬EntryIn s n := fun n => by
      unfold EntryIn
      omega
    have herr := nextClusterInFile_of_not_in (hnone (N % 2 ^ 30))
    exact ⟨by simp [herr, hnone N], fun hin => absurd hin (hnone N)⟩

end Hausboot.FatEdit

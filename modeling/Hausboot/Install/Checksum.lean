import Hausboot.Install.Header

/-! # The Stage 2 Header: What the Checksum Protects

    The checksum is one of the words that it is computed over. `UpdateChecksum`
    makes the sum of all words zero, so any other value of a single word makes
    it non-zero. An image whose other words add up to zero already gets the
    checksum 0, which `Verify` does not accept. -/

open ByteLib

namespace Hausboot

namespace Stage2Header

variable {hdr : Stage2Header}

/-! ## Section 1: The checksum as a sum of words -/

theorem sumLoop_words (raw : Bytes) (i n : Nat) {acc : Nat} (hacc : acc < 2 ^ 32) :
    sumLoop raw n (4 * i) acc = u32 (acc + ∑ j ∈ Finset.range n, word raw (i + j)) := by
  induction n generalizing i acc with
  | zero => rw [sumLoop, Finset.sum_range_zero, Nat.add_zero, u32_of_lt hacc]
  | succ n ih =>
    have hnext : 4 * i + 4 = 4 * (i + 1) := by omega
    have hshift : ∀ j, word raw (i + 1 + j) = word raw (i + (j + 1)) := by
      intro j
      rw [Nat.add_right_comm, Nat.add_assoc]
    rw [sumLoop, hnext, ih (i + 1) (u32_lt _), Finset.sum_range_succ']
    simp only [hshift, Nat.add_zero, u32, Nat.mod_add_mod]
    rw [show leNat (slice raw (4 * i) 4) = word raw i from rfl]
    congr 1
    omega

/-- `ComputeChecksum` adds up the words of the sectors. -/
theorem computeChecksum_words (hdr : Stage2Header) :
    hdr.computeChecksum = u32 (wordSum hdr.raw (128 * hdr.sectorCount)) := by
  have hloop := @sumLoop_words hdr.raw 0 (hdr.sectorCount * 128) 0 (by decide)
  simp only [Nat.zero_add, Nat.mul_zero] at hloop
  rw [computeChecksum, hloop, wordSum, Nat.mul_comm]

theorem setChecksum_raw (value : Nat) : (hdr.setChecksum value).raw = setWord hdr.raw 1 value := rfl

theorem sectorCount_setChecksum (h : sizeof ≤ hdr.raw.length) (value : Nat) :
    (hdr.setChecksum value).sectorCount = hdr.sectorCount := by
  rw [sectorCount, slice_setChecksum h _ (.inr (by decide)), sectorCount]

/-! ## Section 2: UpdateChecksum -/

/-- **UpdateChecksum** makes the words of the covered sectors add up to 0. -/
theorem wordSum_updateChecksum (hpos : 0 < hdr.sectorCount)
    (hlen : 512 * hdr.sectorCount ≤ hdr.raw.length) :
    wordSum hdr.updateChecksum.raw (128 * hdr.sectorCount) % 2 ^ 32 = 0 := by
  have hsize : sizeof ≤ hdr.raw.length := by
    rw [show sizeof = 28 from rfl]
    omega
  have hlen₀ := length_setChecksum hsize 0
  -- the word of the checksum itself counts as zero first
  have hword : word (hdr.setChecksum 0).raw 1 = 0 := by
    rw [setChecksum_raw]
    exact word_setWord_same (by omega) (by decide)
  have hvalue : u32 (2 ^ 32 - (hdr.setChecksum 0).computeChecksum) < 2 ^ 32 := u32_lt _
  have hsum := @wordSum_setWord (hdr.setChecksum 0).raw 1 (128 * hdr.sectorCount)
    (u32 (2 ^ 32 - (hdr.setChecksum 0).computeChecksum)) (by omega) (by omega) hvalue
  have hcompute := computeChecksum_words (hdr.setChecksum 0)
  rw [sectorCount_setChecksum hsize] at hcompute
  rw [hword, Nat.add_zero] at hsum
  rw [updateChecksum, setChecksum_raw, hsum, hcompute, u32, u32]
  omega

theorem magic_updateChecksum (h : sizeof ≤ hdr.raw.length) :
    hdr.updateChecksum.magic = hdr.magic := by
  have h0 := length_setChecksum h 0
  unfold updateChecksum magic
  rw [slice_setChecksum (by omega) _ (.inl (by decide)), slice_setChecksum h _ (.inl (by decide))]

/-- The header accepts itself unless the checksum is the reserved value. -/
theorem verify_updateChecksum (hmagic : hdr.magic = stage2Magic) (hpos : 0 < hdr.sectorCount)
    (hlen : 512 * hdr.sectorCount ≤ hdr.raw.length) {m : Nat} (hm : hdr.sectorCount ≤ m) :
    hdr.updateChecksum.verify m = true ↔ hdr.updateChecksum.checksum ≠ 0 := by
  have hsize : sizeof ≤ hdr.raw.length := by
    rw [show sizeof = 28 from rfl]
    omega
  have hcount := sectorCount_updateChecksum hsize
  have hcompute : hdr.updateChecksum.computeChecksum = 0 := by
    rw [computeChecksum_words, hcount, u32]
    exact wordSum_updateChecksum hpos hlen
  rw [verify_iff, magic_updateChecksum hsize, hcount, hcompute]
  constructor
  · rintro ⟨-, -, -, hne, -⟩
    exact hne
  · intro hne
    exact ⟨hmagic, hpos, hm, hne, rfl⟩

/-! ## Section 3: A changed word -/

/-- The image with another value in one of its words. -/
def changeWord (hdr : Stage2Header) (i v : Nat) : Stage2Header := ⟨setWord hdr.raw i v⟩

/-- A header whose words add up to 0 does so with no other value of a word. -/
theorem verify_changeWord {i v : Nat} (hi : i < 128 * hdr.sectorCount) (hcount : i ≠ 2)
    (hv : v < 2 ^ 32) (hne : v ≠ word hdr.raw i) (hlen : 512 * hdr.sectorCount ≤ hdr.raw.length)
    (hsum : wordSum hdr.raw (128 * hdr.sectorCount) % 2 ^ 32 = 0) (m : Nat) :
    (hdr.changeWord i v).verify m = false := by
  have hword : 4 * i + 4 ≤ hdr.raw.length := by omega
  -- the number of sectors is in the word at 8
  have hsame : (hdr.changeWord i v).sectorCount = hdr.sectorCount := by
    rw [sectorCount, changeWord, slice_setWord hword (by omega), sectorCount]
  have hchanged := wordSum_setWord_ne hi (by omega) hv hne hsum
  have hcompute : (hdr.changeWord i v).computeChecksum ≠ 0 := by
    rw [computeChecksum_words, hsame, u32]
    exact hchanged
  by_contra hverify
  rw [Bool.not_eq_false, verify_iff] at hverify
  exact hcompute hverify.2.2.2.2

/-- **The checksum protects the image**: the words add up to 0, the image is
    accepted unless its checksum is the reserved 0, and no other value of a
    word is accepted, but for the word with the number of sectors. -/
theorem checksum_protects (hdr : Stage2Header) (size : Nat) (hpos : 1 ≤ sectors size)
    (hlt : sectors size < 65536) (hlen : 512 * sectors size ≤ hdr.raw.length)
    (hmagic : hdr.magic = stage2Magic) :
    wordSum (hdr.setSectorCount size).updateChecksum.raw (128 * sectors size) % 2 ^ 32 = 0 ∧
    (∀ m, sectors size ≤ m →
      ((hdr.setSectorCount size).updateChecksum.verify m = true ↔
        (hdr.setSectorCount size).updateChecksum.checksum ≠ 0)) ∧
    ∀ i v, i < 128 * sectors size → i ≠ 2 → v < 2 ^ 32 →
      v ≠ word (hdr.setSectorCount size).updateChecksum.raw i →
      ∀ m, ((hdr.setSectorCount size).updateChecksum.changeWord i v).verify m = false := by
  have hsize : sizeof ≤ hdr.raw.length := by
    rw [show sizeof = 28 from rfl]
    omega
  have hcount := sectorCount_setSectorCount hsize hlt
  have hlength := length_setSectorCount hsize size
  have hmagic₁ : (hdr.setSectorCount size).magic = stage2Magic := by
    rw [← hmagic, magic, magic, setSectorCount]
    congr 1
    exact slice_splice_before (by rw [show sizeof = 28 from rfl] at hsize; omega) (by decide)
  have hsize₁ : sizeof ≤ (hdr.setSectorCount size).raw.length := by rw [hlength]; exact hsize
  have hcount₂ := (sectorCount_updateChecksum hsize₁).trans hcount
  have hlength₂ := (length_updateChecksum hsize₁).trans hlength
  have hsum := @wordSum_updateChecksum (hdr.setSectorCount size) (by omega)
    (by rw [hcount, hlength]; exact hlen)
  rw [hcount] at hsum
  refine ⟨hsum, ?_, ?_⟩
  · intro m hm
    exact verify_updateChecksum hmagic₁ (by omega) (by rw [hcount, hlength]; exact hlen)
      (by rw [hcount]; exact hm)
  · intro i v hi hne hv hother m
    exact verify_changeWord (by rw [hcount₂]; exact hi) hne hv hother
      (by rw [hcount₂, hlength₂]; exact hlen) (by rw [hcount₂]; exact hsum) m

set_option maxRecDepth 3000

/-- An empty image of one sector, and the same with a bit of its last word set. -/
theorem checksum_protects_empty :
    let hdr := ((init ⟨List.replicate 512 0⟩).setSectorCount 512).updateChecksum
    hdr.verify 1 = true ∧ (hdr.changeWord 127 1).verify 1 = false := by
  have hsectors : sectors 512 = 1 := by decide
  obtain ⟨-, hself, hother⟩ := checksum_protects (init ⟨List.replicate 512 0⟩) 512 (by decide)
    (by decide) (by decide) (by decide)
  refine ⟨(hself 1 (by decide)).mpr (by decide +kernel), ?_⟩
  exact hother 127 1 (by rw [hsectors]; decide) (by decide) (by decide) (by decide) 1

end Stage2Header

end Hausboot

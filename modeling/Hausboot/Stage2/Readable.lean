import Hausboot.Stage2.Allocations
import Hausboot.Stage2.Spec

/-! # The stage2 Boot Loader: Files That Can Be Read

    Where the driver reads a file and the heap has room for a buffer,
    `MBFindHeader` finds what the ideal loader finds, and `MBLoadKernel` leaves
    the memory that it leaves. Both give their buffer back. -/

open ByteLib

namespace Hausboot

open HeapEntry

variable {w : World} {v : Volume} {mc : Machine} {fuel : Nat} {I : FatFs → Prop} {finfo : FatFile}
  {file : Bytes} {r : HeapRegion} {us : List Block} {e : Nat} {st : Boot}

/-! ## Section 1: The search -/

/-- The search on the bytes, if it can be trusted. -/
theorem finds_firstHeader (htrust : ScanTrusted file) {u : MultiBootHeader}
    (hu : u.raw.length ≤ MultiBootHeader.sizeof) :
    FindsHeader file (min multiBootMaxSearch file.length) 0 u (firstHeader file) := by
  classical
  by_cases hex : ∃ p, Reportable file p
  · have hleast : IsLeast {p | Reportable file p} (Nat.find hex) :=
      ⟨Nat.find_spec hex, fun p hp => Nat.find_min' hex hp⟩
    have hpos : 0 < MultiBootHeader.sizeof := by decide
    have hend := hleast.1.complete
    rw [firstHeader_eq_some hleast]
    exact finds_first hleast (lt_min hleast.1.lt (by omega)) hu
  · rw [firstHeader_eq_none hex]
    exact htrust.finds_none hex hu (Nat.le_refl _)

section Buffer

variable (hreads : file ≠ [] → ReadsFile w v fuel finfo I file) (hlen : file.length < 2 ^ 32)
  (hsize : finfo.size = file.length) (hs : Stacked r us e) (hpos : 0 < r.basePtr)
  (hroom : e + 8 + 1024 ≤ r.stop) (hfuel : r.maxSize < fuel) (hheap : InUse r st.heap us)
  (hI : I st.fs)
include hreads hlen hsize hs hpos hroom hfuel hheap hI

theorem mbFindHeader_reads (htrust : ScanTrusted file)
    (hu : (w.uninit .header st.fs.loads).length ≤ MultiBootHeader.sizeof)
    (hsearch : multiBootMaxSearch < fuel) :
    ∃ heap fs, mbFindHeader w v fuel st finfo =
        some (firstHeader file, { st with heap := heap, fs := fs }) ∧
      InUse r heap us ∧ I fs := by
  have hmax : multiBootMaxSearch = 8192 := rfl
  have hround : roundCount (1024 : UInt32).toNat = 1024 := rfl
  obtain ⟨heap, heap', hmalloc, hfree, hheap'⟩ :
      ∃ h₁ h₂, malloc fuel st.heap 1024 = some (e + 8, h₁) ∧ free fuel h₁ (e + 8) = some h₂ ∧
        InUse r h₂ us := hheap.buffer hs hpos (by omega) hfuel
  have hscan : (if finfo.size > multiBootMaxSearch then multiBootMaxSearch else finfo.size) =
      min multiBootMaxSearch file.length := by
    rw [hsize]
    split <;> omega
  obtain ⟨fs', hloop, hI'⟩ : ∃ fs', searchLoop w v fuel finfo (min multiBootMaxSearch file.length)
      fuel 0 (w.uninit .searchBuffer st.fs.loads) ⟨w.uninit .header st.fs.loads⟩ st.fs =
        some (firstHeader file, fs') ∧ I fs' := by
    have hfinds := finds_firstHeader htrust hu
    by_cases hempty : file = []
    · -- nothing is read of an empty file
      subst hempty
      obtain ⟨n, rfl⟩ : ∃ n, fuel = n + 1 := ⟨fuel - 1, by omega⟩
      have hnone := hfinds.unique (.past (Nat.min_le_right _ _))
      rw [hnone, searchLoop, if_neg (by simp)]
      exact ⟨st.fs, rfl, hI⟩
    · exact hfinds.searchLoop (hreads hempty) hlen (by omega) (by omega) (by omega) hI
  refine ⟨heap', fs', ?_, hheap', hI'⟩
  simp only [mbFindHeader, hscan, hmalloc, Option.bind_eq_bind, Option.bind_some,
    if_neg (Nat.succ_ne_zero (e + 7)), hloop, hfree]

/-! ## Section 2: The load -/

theorem mbLoadKernel_reads {hdr : MultiBootHeader} {off fileStart memStart count : Nat}
    (hoff : off < file.length)
    (hlay : hdr.extractMemLayout off file.length = some (fileStart, memStart, count))
    (hcopy : file.length < fuel) :
    ∃ heap fs calls, mbLoadKernel w v fuel st finfo hdr off = some (true, { st with
        heap := heap
        fs := fs
        screen := st.screen ++ loadingMessage memStart count
        pmCalls := st.pmCalls ++ calls }) ∧
      InUse r heap us ∧ I fs ∧ ∀ mem, PmCall.runAll calls mem =
        loadedMemory mem memStart (loadedPart file fileStart count) hdr.bssSize := by
  have hround : roundCount (1024 : UInt32).toNat = 1024 := rfl
  have hlayout := extractMemLayout_spec (by omega) hlay
  have hmem : memStart < 2 ^ 32 := hlayout.memStart_eq ▸ hdr.field_lt 4
  obtain ⟨heap, heap', hmalloc, hfree, hheap'⟩ :
      ∃ h₁ h₂, malloc fuel st.heap 1024 = some (e + 8, h₁) ∧ free fuel h₁ (e + 8) = some h₂ ∧
        InUse r h₂ us := hheap.buffer hs hpos (by omega) hfuel
  generalize hst : { st.print (loadingMessage memStart count) with heap := heap } = st₁
  have hI₁ : I st₁.fs := by
    rw [← hst]
    exact hI
  have hle := loadedBytes_le file.length (sub32 count fileStart) fileStart
  have hne : file ≠ [] := List.length_pos_iff.mp (by omega)
  rcases (hreads hne).copyLoop hlen (sub32 count fileStart) fuel fileStart hI₁ hmem with
    ⟨-, hno | hdry⟩ | ⟨fs', calls, hI', hloop, heff⟩ | ⟨hno, -⟩
  · exact hno.elim
  · omega
  · refine ⟨heap', fs', calls ++ [.clear (u32 (memStart +
      loadedBytes file.length (sub32 count fileStart) fileStart)) hdr.bssSize], ?_, hheap', hI', ?_⟩
    · rw [← hsize] at hlay
      simp only [mbLoadKernel, hlay, Boot.print, hmalloc, Option.bind_eq_bind, Option.bind_some,
        if_neg (Nat.succ_ne_zero (e + 7))]
      simp only [Boot.print] at hst
      rw [hst, hloop]
      simp only [Option.bind_some, ← hst, hfree, Boot.protectedModeCall, List.append_assoc]
    · intro mem
      rw [PmCall.runAll_append, heff, loadedMemory, length_loadedPart]
      rfl
  · exact hno.elim

end Buffer

/-! ## Section 3: The tables for the kernel -/

theorem mbGenInfo_ends {d : Nat} (hheap : InUse r st.heap us) (hs : Stacked r us d)
    (hd : d + 3508 ≤ r.stop) (hpos : 0 < r.basePtr) (hcount : (mc.mmap.getD []).length ≤ 32)
    (hfuel : r.maxSize < fuel) :
    ∃ info heap, mbGenInfo mc fuel st = some (some info, { st with heap := heap }) := by
  have hround : roundCount (128 : UInt32).toNat = 128 := rfl
  obtain ⟨h₁, hmalloc, hu₁⟩ : ∃ h₁, malloc fuel st.heap 128 = some (d + 8, h₁) ∧
      InUse r h₁ (us ++ [⟨d, blockEnd r d (roundCount (128 : UInt32).toNat), true⟩]) :=
    hheap.malloc_room hs hpos (by omega) hfuel
  have hs₁ := hs.push (c := 128) (by omega)
  rw [hround] at hu₁
  rw [blockEnd_of_room (by omega)] at hs₁ hu₁
  generalize hn : UInt32.ofNat (24 * (mc.mmap.getD []).length) = n
  have hsize : roundCount n.toNat ≤ 768 := by
    rw [← hn]
    exact (roundCount_le_iff rfl (by omega)).mpr (by omega)
  obtain ⟨h₂, hmalloc₂, -⟩ := hu₁.malloc_room hs₁ hpos
    (show d + 8 + 128 + 8 + roundCount n.toNat ≤ r.stop by omega) hfuel
  refine ⟨d + 8, h₂, ?_⟩
  simp only [mbGenInfo, hmalloc, Option.bind_eq_bind, Option.bind_some,
    if_neg (Nat.succ_ne_zero (d + 7)), hn, hmalloc₂]
  rw [if_neg (by simp)]

end Hausboot

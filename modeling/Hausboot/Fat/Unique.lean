import Hausboot.Fat.Fresh

/-! # Unique Short Names

    No directory of a volume has two live records with the same short name,
    compared as the 11 bytes in which the records store it. A directory that
    grows by one record keeps this exactly if the name of the record is new. -/

open ByteLib

namespace Hausboot

namespace FatDirent

/-- The 11 bytes of name and extension. -/
def nameField (e : FatDirent) : Bytes := slice e.raw 0 11

variable {e e' : FatDirent}

/-- Only the 11 bytes matter for the name that is shown. -/
theorem nameToString_congr (h : e.nameField = e'.nameField) :
    e.nameToString = e'.nameToString := by
  have hbyte : ∀ i, i < 11 → e.raw.getD i 0 = e'.raw.getD i 0 := by
    intro i hi
    have hfield : ∀ d : FatDirent, d.nameField.getD i 0 = d.raw.getD i 0 := by
      intro d
      rw [nameField, getD_slice hi, Nat.zero_add]
    rw [← hfield e, ← hfield e', h]
  have hslice : ∀ o n, o + n ≤ 11 → slice e.raw o n = slice e'.raw o n := by
    intro o n hon
    have hwin : ∀ bs : Bytes, slice bs o n = slice (slice bs 0 11) o n := by
      intro bs
      rw [slice, slice, slice, List.drop_zero, List.drop_take, List.take_take,
        Nat.min_eq_left (by omega)]
    rw [hwin, hwin e'.raw]
    exact congrArg (fun bs => slice bs o n) h
  rw [nameToString, nameToString, hbyte 0 (by decide), hbyte 8 (by decide), name, name, extension,
    extension, hslice 0 8 (by decide), hslice 8 3 (by decide)]

theorem shortName_congr (h : e.nameField = e'.nameField) : e.shortName = e'.shortName := by
  rw [shortName, shortName, nameToString_congr h]

end FatDirent

namespace Vol

/-- No directory has two live records with the same name. -/
def UniqueNames (v : Vol) : Prop :=
  ∀ ⦃c p l⦄, v.IsDir c p → v.Chain c l → ((live (v.content l)).map FatDirent.nameField).Nodup

variable {v v' : Vol} {P : Nat} {lP lP' lr : List Nat} {r : FatDirent}

namespace Grew

/-- A new directory has the names `.` and `..`. -/
theorem nodup_of_new (hg : Grew v v' P lP lP' r lr) (hisDir : r.isDirectory = true) :
    ((live (v'.content lr)).map FatDirent.nameField).Nodup := by
  obtain ⟨d, dd, hbody, hd, hdd⟩ := hg.newDir hisDir
  have hne : d.nameField ≠ dd.nameField := by
    intro heq
    have hshown := FatDirent.shortName_congr heq
    rw [hd.shortName, hdd.shortName] at hshown
    cases hshown
  rw [live, hbody, List.filter_cons_of_pos hd.isLive, List.filter_cons_of_pos hdd.isLive]
  simpa using hne

/-- The directory of the new record. -/
theorem nodup_self_iff (hg : Grew v v' P lP lP' r lr)
    (hold : ((live (v.content lP)).map FatDirent.nameField).Nodup) :
    ((live (v'.content lP')).map FatDirent.nameField).Nodup ↔
      r.nameField ∉ (live (v.content lP)).map FatDirent.nameField := by
  rw [hg.live_eq, List.map_append, List.map_singleton, List.nodup_append]
  constructor
  · intro h hmem
    exact h.2.2 _ hmem _ (List.mem_singleton_self _) rfl
  · intro hnew
    refine ⟨hold, List.nodup_singleton _, ?_⟩
    intro a ha b hb heq
    obtain rfl := List.mem_singleton.mp hb
    exact hnew (heq ▸ ha)

/-- **Growing keeps names unique** exactly if the new name is not there yet. -/
theorem uniqueNames_iff (hg : Grew v v' P lP lP' r lr) (hs : v.Sound) (hu : v.UniqueNames) :
    v'.UniqueNames ↔ r.nameField ∉ (live (v.content lP)).map FatDirent.nameField := by
  obtain ⟨p, hP⟩ := hg.dir
  have hself := hg.nodup_self_iff (hu hP hg.chain)
  constructor
  · intro hu'
    exact hself.mp (hu' (hg.isDir hs hP) hg.chain')
  · intro hnew c q l' hdir' hch'
    rcases hg.isDir_cases hs hdir' with hdir | ⟨rfl, rfl, hisDir⟩
    · obtain ⟨l, hch, hcases⟩ := hg.live_cases hs hdir hch'
      rcases hcases with ⟨rfl, rfl, rfl⟩ | ⟨-, rfl, hcont⟩
      · exact hself.mpr hnew
      · rw [hcont]
        exact hu hdir hch
    · -- the directory that came with the record
      obtain ⟨hlr, -⟩ := hg.entry.dir hisDir
      obtain rfl := ChainLib.Chain.unique hch' hlr
      exact hg.nodup_of_new hisDir

end Grew

/-- A fresh volume has no names yet. -/
theorem Fresh.uniqueNames (h : v.Fresh) : v.UniqueNames := by
  intro c p l hdir hch
  rw [List.eq_nil_iff_forall_not_mem.mpr fun r => h.not_mem_live hdir hch]
  exact List.nodup_nil

end Vol

end Hausboot

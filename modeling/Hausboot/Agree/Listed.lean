import Hausboot.FatEdit.ScanInverse
import Hausboot.FatFs.Search

/-! # Loader and Tool: Listed Records

    The inner loop of `FindInDirectory` on records that `ScanDirectory` has
    listed: it finds the first entry with the name, as long as the record
    behind each long name is a live one. -/

open ByteLib

namespace Hausboot

open FatEdit (DirEntry Listed Piece)

/-! ## Section 1: The inner loop -/

/-- What stage2 has found is what the entry says. -/
structure SameEntry (out : FatFile) (e : DirEntry) : Prop where
  cluster : out.cluster = e.firstCluster
  size : out.size = e.size
  isDirectory : FlagField.isSet out.flags FatDirent.directory = e.isDirectory

/-- The file that stage2 makes of a record. -/
def recordFile (r : FatDirent) : FatFile :=
  { cluster := r.clusterIndex, size := r.size, flags := r.entryFlags }

/-- The first entry with the name. -/
def lookup (es : List DirEntry) (name : Bytes) : Option DirEntry :=
  es.find? fun e => e.shortName == cstr name

/-- How the inner loop of `FindInDirectory` ends on listed records. -/
def Finds (name : Bytes) (es : List DirEntry) (res : FatFs.ScanResult) : Prop :=
  match lookup es name with
  | some e => ∃ r, res = .found r ∧ SameEntry (recordFile r) e
  | none => ∃ buffer, res = .more buffer

theorem findEntry_skip {name buffer : Bytes} {ps rs : List FatDirent}
    (h : ∀ p ∈ ps, p.isLastInList = false ∧ (p.isLongName || p.isDummiedOut) = true) :
    FatFs.findEntry name buffer (ps ++ rs) = FatFs.findEntry name buffer rs := by
  induction ps with
  | nil => rfl
  | cons p ps ih =>
    obtain ⟨⟨hlast, hskip⟩, hrest⟩ := List.forall_mem_cons.mp h
    rw [List.cons_append, FatFs.findEntry, if_neg (by simp [hlast]), if_pos hskip]
    exact ih hrest

/-- A record that both programs look at. -/
theorem finds_cons {name buffer : Bytes} {r : FatDirent} {rs : List FatDirent} {e : DirEntry}
    {es : List DirEntry} {ls : List FatDirentLong} (hlive : r.isLive = true)
    (hlast : r.isLastInList = false) (hmake : FatEdit.makeEntry r ls = .ok e)
    (hrest : ∀ buffer, Finds name es (FatFs.findEntry name buffer rs)) :
    Finds name (e :: es) (FatFs.findEntry name buffer (r :: rs)) := by
  obtain ⟨hname, hsize, hcluster, hdir, -⟩ := FatEdit.makeEntry_fields hmake
  obtain ⟨n, hn, hcstr⟩ := Option.map_eq_some_iff.mp hname
  simp only [FatDirent.isLive, Bool.and_eq_true, Bool.not_eq_true'] at hlive
  have heq : strEqual n name = (e.shortName == cstr name) := by rw [strEqual, hcstr]
  rw [FatFs.findEntry, if_neg (by simp [hlast]), if_neg (by simp [hlive]), hn,
    Option.getD_some]
  dsimp only
  rw [heq]
  unfold Finds lookup
  rw [List.find?_cons]
  by_cases hsame : (e.shortName == cstr name) = true
  · rw [if_pos hsame, hsame]
    exact ⟨r, rfl, hcluster.symm, hsize.symm, hdir.symm⟩
  · rw [if_neg hsame, Bool.eq_false_iff.mpr hsame]
    exact hrest n

theorem findEntry_front {name buffer : Bytes} {rs rs' : List FatDirent} (h : rs <+: rs')
    {r : FatFs.FindResult} (hr : (FatFs.findEntry name buffer rs).answer = some r) :
    (FatFs.findEntry name buffer rs').answer = some r := by
  obtain ⟨post, rfl⟩ := h
  rw [FatFs.findEntry_append]
  cases hscan : FatFs.findEntry name buffer rs with
  | found e => rwa [hscan] at hr
  | last => rwa [hscan] at hr
  | more b =>
    rw [hscan] at hr
    cases hr

theorem findEntry_more_front {name buffer b : Bytes} {rs rs' : List FatDirent} (h : rs <+: rs')
    (hmore : FatFs.findEntry name buffer rs' = .more b) :
    ∃ b', FatFs.findEntry name buffer rs = .more b' := by
  cases hscan : FatFs.findEntry name buffer rs with
  | more b' => exact ⟨b', rfl⟩
  | found e | last =>
    have hanswer := findEntry_front h (by rw [hscan]; rfl)
    rw [hmore] at hanswer
    cases hanswer

/-- **The inner loop on listed records.** The induction follows the list. -/
theorem finds_of_listed {name : Bytes} {rs : List FatDirent} {es : List DirEntry}
    (h : Listed rs es) (hlong : LongNamesFollowed rs) (buffer : Bytes) :
    Finds name es (FatFs.findEntry name buffer rs) := by
  induction h generalizing buffer with
  | nil => exact ⟨buffer, rfl⟩
  | @deleted r rs es hdel _ ih =>
    have hlast := not_last_of_deleted hdel
    have hskip : FatFs.findEntry name buffer ([r] ++ rs) = FatFs.findEntry name buffer rs :=
      findEntry_skip (by simp [hlast, hdel])
    rw [List.singleton_append] at hskip
    rw [hskip]
    exact ih (hlong.tail_cons hlast) buffer
  | @plain r rs e es hlive hlast hmake _ ih =>
    apply finds_cons hlive hlast hmake
    exact ih (hlong.tail_cons hlast)
  | @long ps r rs ls e es hne hps hr hmake _ ih =>
    have hbehind := hlong.behind hne hps
    rw [findEntry_skip fun p hp => ⟨(hps p hp).notLast, by simp [(hps p hp).long]⟩]
    apply finds_cons (by simp [FatDirent.isLive, hbehind.1, hr]) hbehind.2 hmake
    rw [← List.singleton_append, ← List.append_assoc] at hlong
    exact ih (hlong.tail (noTerminator_group hps hbehind.2))

end Hausboot

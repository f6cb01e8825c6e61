import Hausboot.FatEdit.FreeClusters
import Hausboot.FatEdit.Writer

/-! # The fatedit Tool: Reopening a File

    `FileWriter(idx, size)` finds its place by walking the chain. On a chain
    that a writer has just made it lands where that writer stands, so closing
    and reopening a file makes no difference.

    How a string is split between calls of `Append` makes no difference either:
    each call does what writing the bytes one by one does (`ByteRun`), and that
    is deterministic. -/

open ByteLib Prog

namespace Hausboot.FatEdit

variable {super : FatSuper} {s s' s₁ s₂ : Session} {wr wr' wr₁ wr₂ : FileWriter}

open Session

/-! ## Section 1: Byte by byte -/

/-- The bytes `d` are appended one by one, and a cluster is added whenever there
    is a byte left and no space for it. -/
inductive ByteRun (super : FatSuper) :
    Session → FileWriter → Bytes → Session → FileWriter → Prop where
  | done {s : Session} {wr : FileWriter} : ByteRun super s wr [] s wr
  | byte {s s₁ s' : Session} {wr wr' : FileWriter} {b : UInt8} {d : Bytes} :
      wr.spaceAvailable super ≠ 0 →
      writeFile (clusterFileOffset super wr.cluster + wr.offset) [b] s = .ok () s₁ →
      ByteRun super s₁
        { wr with offset := u32 (wr.offset + 1), totalSize := u32 (wr.totalSize + 1) } d s' wr' →
      ByteRun super s wr (b :: d) s' wr'
  | grow {s s₁ s' : Session} {wr wr' : FileWriter} {x : Nat} {d : Bytes} :
      d ≠ [] → wr.spaceAvailable super = 0 →
      allocateClusterAfter super wr.cluster s = .ok x s₁ →
      ByteRun super s₁ { wr with cluster := x, offset := 0 } d s' wr' → ByteRun super s wr d s' wr'

namespace ByteRun

/-- There is only one way to do it. -/
theorem unique {d : Bytes} (h : ByteRun super s wr d s₁ wr₁) (h' : ByteRun super s wr d s₂ wr₂) :
    s₁ = s₂ ∧ wr₁ = wr₂ := by
  induction h with
  | done =>
    cases h' with
    | done => exact ⟨rfl, rfl⟩
    | grow hne => exact absurd rfl hne
  | byte hspace hwrite _ ih =>
    cases h' with
    | byte _ hwrite' hrest' =>
      obtain rfl := (EStateM.Result.ok.inj (hwrite.symm.trans hwrite')).2
      exact ih hrest'
    | grow _ hfull => exact absurd hfull hspace
  | grow hne hfull halloc _ ih =>
    cases h' with
    | done => exact absurd rfl hne
    | byte hspace => exact absurd hfull hspace
    | grow _ _ halloc' hrest' =>
      obtain ⟨rfl, rfl⟩ := EStateM.Result.ok.inj (halloc.symm.trans halloc')
      exact ih hrest'

theorem trans {d e : Bytes} (h : ByteRun super s wr d s₁ wr₁)
    (h' : ByteRun super s₁ wr₁ e s₂ wr₂) : ByteRun super s wr (d ++ e) s₂ wr₂ := by
  induction h with
  | done => exact h'
  | byte hspace hwrite _ ih => exact .byte hspace hwrite (ih h')
  | grow hne hfull halloc _ ih => exact .grow (by simp [hne]) hfull halloc (ih h')

end ByteRun

/-! ## Section 2: Append -/

/-- A write of several bytes is a write of the first one and of the others. -/
theorem writeFile_cons {offset : Nat} {b : UInt8} {d : Bytes} (hoff : offset + 1 < 2 ^ 63)
    (h : writeFile offset (b :: d) s = .ok () s') :
    ∃ s₁, writeFile offset [b] s = .ok () s₁ ∧ writeFile (offset + 1) d s₁ = .ok () s' := by
  -- what a write does, also one of no bytes
  have hwrite : ∀ (s : Session) (offset : Nat) (d : Bytes), offset < 2 ^ 63 →
      writeFile offset d s = .ok () { s with file :=
        if d = [] then s.file else
          { bytes := s.file.bytes.write offset d, size := max s.file.size (offset + d.length) } } := by
    intro s offset d hlt
    unfold writeFile ByteVec.writeAt
    by_cases hd : d = []
    · rw [if_pos hd, if_pos hd]
    · rw [if_neg hd, if_neg hd, if_neg (by omega)]
  rw [hwrite s offset (b :: d) (by omega)] at h
  obtain rfl := (EStateM.Result.ok.inj h).2
  refine ⟨_, hwrite s offset [b] (by omega), ?_⟩
  rw [hwrite _ _ _ hoff, if_neg (List.cons_ne_nil b d), if_neg (List.cons_ne_nil b [])]
  by_cases hd : d = []
  · rw [if_pos hd, hd]
  · rw [if_neg hd]
    have hbytes := Store.write_append s.file.bytes offset [b] d
    rw [List.length_singleton, List.singleton_append] at hbytes
    rw [hbytes]
    have hsize : max (max s.file.size (offset + [b].length)) (offset + 1 + d.length) =
        max s.file.size (offset + (b :: d).length) := by
      simp only [List.length_cons, List.length_nil]
      omega
    rw [hsize]

theorem clusterFileOffset_lt (super : FatSuper) (c : Nat) : clusterFileOffset super c < 2 ^ 32 :=
  u32_lt _

/-- A write inside of one cluster. -/
theorem byteRun_chunk {d : Bytes} (hroom : wr.offset + d.length ≤ bytesPerCluster super)
    (htotal : wr.totalSize < 2 ^ 32)
    (h : writeFile (clusterFileOffset super wr.cluster + wr.offset) d s = .ok () s') :
    ByteRun super s wr d s' { wr with
      offset := u32 (wr.offset + d.length), totalSize := u32 (wr.totalSize + d.length) } := by
  have hbpc := bytesPerCluster_lt super
  induction d generalizing s wr with
  | nil =>
    have hnil : writeFile (clusterFileOffset super wr.cluster + wr.offset) [] s = .ok () s := rfl
    rw [hnil] at h
    obtain rfl := (EStateM.Result.ok.inj h).2
    rw [List.length_nil, Nat.add_zero, Nat.add_zero, u32_of_lt (by rw [List.length_nil] at hroom; omega),
      u32_of_lt htotal]
    exact .done
  | cons b d ih =>
    rw [List.length_cons] at hroom
    have hlt := clusterFileOffset_lt super wr.cluster
    -- the first byte, and the others one place further on
    obtain ⟨s₁, hfirst, hrest⟩ := writeFile_cons (by omega) h
    have hoff : u32 (wr.offset + 1) = wr.offset + 1 := u32_of_lt (by omega)
    have hspace : wr.spaceAvailable super ≠ 0 := by
      rw [spaceAvailable_eq (by omega) (by omega)]
      omega
    refine .byte hspace hfirst ?_
    have hroom₁ : u32 (wr.offset + 1) + d.length ≤ bytesPerCluster super := by omega
    rw [Nat.add_assoc, ← hoff] at hrest
    have hrun : ByteRun super s₁
        { wr with offset := u32 (wr.offset + 1), totalSize := u32 (wr.totalSize + 1) } d s'
        { wr with
          offset := u32 (u32 (wr.offset + 1) + d.length)
          totalSize := u32 (u32 (wr.totalSize + 1) + d.length) } :=
      ih hroom₁ (u32_lt _) hrest
    -- two steps of the 32 bit counters are one
    have hsum : ∀ n, u32 (u32 (n + 1) + d.length) = u32 (n + (b :: d).length) := by
      intro n
      rw [u32, u32, u32, Nat.mod_add_mod, List.length_cons]
      congr 1
      omega
    rw [hsum, hsum] at hrun
    exact hrun

/-- A call of `Append` does what appending its bytes one by one does. -/
theorem byteRun_appendLoop (hpos : 0 < bytesPerCluster super) {n : Nat} {d : Bytes}
    (hoff : wr.offset ≤ bytesPerCluster super) (htotal : wr.totalSize < 2 ^ 32)
    (hfuel : 2 * d.length ≤ n + 1) (hfull : wr.offset = bytesPerCluster super → 2 * d.length ≤ n)
    (h : wr.appendLoop super n d s = .ok wr' s') : ByteRun super s wr d s' wr' := by
  have hbpc := bytesPerCluster_lt super
  induction n generalizing s wr d with
  | zero =>
    obtain rfl : d = [] := List.eq_nil_of_length_eq_zero (by omega)
    obtain ⟨rfl, rfl⟩ := EStateM.Result.ok.inj h
    exact .done
  | succ n ih =>
    unfold FileWriter.appendLoop at h
    by_cases hd : d = []
    · subst hd
      rw [if_pos rfl] at h
      obtain ⟨rfl, rfl⟩ := EStateM.Result.ok.inj h
      exact .done
    rw [if_neg hd] at h
    have hlen := List.length_pos_iff.mpr hd
    have hspace : wr.spaceAvailable super = bytesPerCluster super - wr.offset :=
      spaceAvailable_eq (by omega) hoff
    rw [hspace] at h
    -- a full cluster takes a round without a byte
    by_cases hend : wr.offset = bytesPerCluster super
    · rw [if_pos (by omega)] at h
      obtain ⟨x, s₁, halloc, h⟩ := bind_eq_ok.mp h
      have hfull' := hfull hend
      refine .grow hd (by omega) halloc (ih (Nat.zero_le _) htotal (by omega) (fun heq => ?_) h)
      exact absurd heq (Nat.ne_of_lt hpos)
    · rw [if_neg (by omega)] at h
      obtain ⟨_, s₁, hwrite, h⟩ := bind_eq_ok.mp h
      -- fill the rest of the cluster, then go on with what is left
      generalize hdiff : min (bytesPerCluster super - wr.offset) d.length = diff at h hwrite
      have htake : (d.take diff).length = diff := List.length_take_of_le (by omega)
      have hdrop : (d.drop diff).length = d.length - diff := List.length_drop
      have hchunk := byteRun_chunk (by rw [htake]; omega) htotal hwrite
      rw [htake] at hchunk
      have hoff' : u32 (wr.offset + diff) = wr.offset + diff := u32_of_lt (by omega)
      have hle : u32 (wr.offset + diff) ≤ bytesPerCluster super := by omega
      have hrest : ByteRun super s₁
          { wr with offset := u32 (wr.offset + diff), totalSize := u32 (wr.totalSize + diff) }
          (d.drop diff) s' wr' :=
        ih hle (u32_lt _) (by omega) (fun _ => by omega) h
      have hall := hchunk.trans hrest
      rwa [List.take_append_drop] at hall

theorem byteRun_append (hpos : 0 < bytesPerCluster super) {d : Bytes}
    (hoff : wr.offset ≤ bytesPerCluster super) (htotal : wr.totalSize < 2 ^ 32)
    (h : wr.append super d s = .ok wr' s') : ByteRun super s wr d s' wr' :=
  byteRun_appendLoop hpos hoff htotal (by omega) (fun _ => Nat.le_refl _) h

/-! ## Section 3: A file written in pieces -/

/-- Several calls of `Append`. -/
def FileWriter.appendAll (super : FatSuper) : FileWriter → List Bytes → M FileWriter
  | wr, [] => pure wr
  | wr, d :: ds => do
    let wr ← wr.append super d
    appendAll super wr ds

/-- A new file with these pieces. -/
def writeOnce (super : FatSuper) (ds : List Bytes) : M FileWriter := do
  let wr ← FileWriter.create super
  wr.appendAll super ds

/-- A new file that is opened again behind the first pieces. -/
def writeTwice (super : FatSuper) (ds es : List Bytes) : M FileWriter := do
  let wr ← writeOnce super ds
  let wr ← reading fun s => FileWriter.reopen super s wr.firstCluster ds.flatten.length
  wr.appendAll super es

/-- The writer stands behind the bytes `d` of a file that it has made since the
    session `s₀`. -/
structure FileWriter.Behind (super : FatSuper) (s₀ : Session) (d : Bytes) (s : Session)
    (wr : FileWriter) (w : Vol.Cursor) : Prop where
  kept : Kept super s₀ s
  new : (memView super s₀).NewChain wr.firstCluster d (memView super s) w
  cursor : wr.At w
  totalSize : wr.totalSize = d.length

namespace FileWriter.Behind

variable {s₀ : Session} {d : Bytes} {w : Vol.Cursor} {n : Nat}

/-- More pieces, as long as there is space for them. -/
theorem appendAll (h : wr.Behind super s₀ d s w) (hs : s₀.Ok super)
    (hv : (memView super s₀).Sane) (hn : n < 2 ^ 32)
    (hfree : Vol.clustersFor (bytesPerCluster super) n ≤ (memView super s₀).freeSet.card)
    (ds : List Bytes) (hlen : d.length + ds.flatten.length ≤ n) :
    ∃ wr' s' w', wr.appendAll super ds s = .ok wr' s' ∧
      wr'.Behind super s₀ (d ++ ds.flatten) s' w' ∧ wr'.firstCluster = wr.firstCluster ∧
      ByteRun super s wr ds.flatten s' wr' := by
  induction ds generalizing d s wr w with
  | nil =>
    refine ⟨wr, s, w, rfl, ?_, rfl, .done⟩
    rw [List.flatten_nil, List.append_nil]
    exact h
  | cons e ds ih =>
    rw [List.flatten_cons, List.length_append] at hlen
    obtain ⟨hv₁, hw⟩ := h.new.atEnd hv
    have htotal : wr.totalSize < 2 ^ 32 := by
      rw [h.totalSize]
      omega
    have hoff : wr.offset ≤ bytesPerCluster super := by
      rw [h.cursor.offset]
      exact hw.offset_le
    -- there is room: the append cannot fail
    have hspec := append_spec (hs.kept h.kept) hv₁ hw h.cursor htotal e
    cases hrun : wr.append super e s with
    | error x s₁ =>
      have hout := (hspec.of_error hrun).new hs hv h.new (n := n) (by omega)
      omega
    | ok wr₁ s₁ =>
      obtain ⟨hkept, hfirst, hsize, w₁, hat, happ⟩ := hspec.of_ok hrun
      have hbehind : wr₁.Behind super s₀ (d ++ e) s₁ w₁ :=
        { kept := h.kept.trans hkept
          new := by
            rw [hfirst]
            exact h.new.append happ
          cursor := hat
          totalSize := by rw [hsize, h.totalSize, List.length_append, u32_of_lt (by omega)] }
      obtain ⟨wr', s', w', hall, hbehind', hfirst', hbytes⟩ :=
        ih hbehind (by rw [List.length_append]; omega)
      refine ⟨wr', s', w', bind_eq_ok.mpr ⟨wr₁, s₁, hrun, hall⟩, ?_, hfirst'.trans hfirst, ?_⟩
      · rwa [List.flatten_cons, ← List.append_assoc]
      · exact (byteRun_append hs.layout.bytesPerCluster_pos hoff htotal hrun).trans hbytes

/-- Opening the file again gives the writer that has written it. -/
theorem reopen (h : wr.Behind super s₀ d s w) (hs : s₀.Ok super)
    (hv : (memView super s₀).Sane) :
    FileWriter.reopen super s wr.firstCluster d.length = .ok wr := by
  obtain ⟨-, hw⟩ := h.new.atEnd hv
  have hpos : w.pos (bytesPerCluster super) = d.length := h.new.pos_eq
  have hlast := h.new.pre_or_offset
  rcases reopen_spec (hs.kept h.kept) hw.chain (by simp [Vol.Cursor.chain]) (h.new.length_le hv)
    with ⟨w', heq, hchain, -, hpos', -⟩ | ⟨-, hlen, hle⟩
  · -- the same chain and the same length: the same place
    obtain ⟨hpre, hcluster⟩ := List.append_inj' hchain rfl
    have hoffset : w'.offset = w.offset := by
      rw [Vol.Cursor.pos] at hpos hpos'
      rw [hpre] at hpos'
      omega
    rw [heq, List.singleton_inj.mp hcluster, hoffset, ← h.cursor.cluster, ← h.cursor.offset,
      ← h.totalSize]
  · -- the last byte is in the last cluster
    simp only [Vol.Cursor.chain, List.length_append, List.length_singleton] at hlen hle
    rw [Nat.add_sub_cancel, ← hpos, Vol.Cursor.pos] at hle
    rcases hlast with hpre | hoff
    · rw [hpre, List.length_nil] at hlen
      omega
    · omega

end FileWriter.Behind

/-- A new file where a cluster is left. -/
theorem create_behind (hs : s.Ok super) (hfree : 0 < (memView super s).freeSet.card) :
    ∃ wr s' w, FileWriter.create super s = .ok wr s' ∧ wr.Behind super s [] s' w := by
  have hspec := create_spec hs
  cases hrun : FileWriter.create super s with
  | error e s' =>
    obtain ⟨-, -, hnone⟩ := hspec.of_error hrun
    rw [hnone, Finset.card_empty] at hfree
    omega
  | ok wr s' =>
    obtain ⟨hkept, htotal, hat, hnew⟩ := hspec.of_ok hrun
    exact ⟨wr, s', _, rfl, hkept, hnew, hat, htotal⟩

/-- Closing a file and opening it again makes no difference, and neither does
    the way the bytes are split. -/
theorem writeTwice_eq_writeOnce (hs : s.Ok super) (h0 : (memView super s).next 0 ≠ 0)
    (h1 : (memView super s).next 1 ≠ 0) {as bs cs : List Bytes}
    (hsplit : cs.flatten = as.flatten ++ bs.flatten)
    (hlen : as.flatten.length + bs.flatten.length < 2 ^ 32)
    (hfree : max 1 ((as.flatten.length + bs.flatten.length + bytesPerCluster super - 1) /
      bytesPerCluster super) ≤ (memView super s).freeSet.card) :
    ∃ wr s' l, writeTwice super as bs s = .ok wr s' ∧ writeOnce super cs s = .ok wr s' ∧
      (memView super s').Chain wr.firstCluster l ∧
      l.length = max 1 ((as.flatten.length + bs.flatten.length + bytesPerCluster super - 1) /
        bytesPerCluster super) ∧
      ((memView super s').content l).take (as.flatten.length + bs.flatten.length) =
        as.flatten ++ bs.flatten ∧
      (∀ c ∈ l, (memView super s).next c = 0) ∧
      ∀ c, c ∉ l → (memView super s').entry c = (memView super s).entry c ∧
        (memView super s').data c = (memView super s).data c := by
  have hv := hs.sane h0 h1
  obtain ⟨wr₀, s₀, w₀, hcreate, hbehind₀⟩ := create_behind hs (by omega)
  obtain ⟨wr₁, s₁, w₁, hrun₁, hbehind₁, -, hbytes₁⟩ :=
    hbehind₀.appendAll hs hv hlen hfree as (by rw [List.length_nil]; omega)
  rw [List.nil_append] at hbehind₁
  obtain ⟨wr₂, s₂, w₂, hrun₂, hbehind₂, -, hbytes₂⟩ :=
    hbehind₁.appendAll hs hv hlen hfree bs (Nat.le_refl _)
  obtain ⟨wr₃, s₃, w₃, hrun₃, -, -, hbytes₃⟩ :=
    hbehind₀.appendAll hs hv hlen hfree cs (by
      rw [hsplit, List.length_append, List.length_nil]
      omega)
  -- both have appended the same bytes one by one to the same file
  rw [hsplit] at hbytes₃
  obtain ⟨rfl, rfl⟩ := (hbytes₁.trans hbytes₂).unique hbytes₃
  have honce : writeOnce super as s = .ok wr₁ s₁ := bind_eq_ok.mpr ⟨wr₀, s₀, hcreate, hrun₁⟩
  have hreopen : reading (fun s => FileWriter.reopen super s wr₁.firstCluster as.flatten.length) s₁ =
      .ok wr₁ s₁ := reading_eq_ok.mpr ⟨hbehind₁.reopen hs hv, rfl⟩
  have htake := hbehind₂.new.content_take hv
  rw [List.length_append] at htake
  have hcount := hbehind₂.new.length_chain hv
  rw [List.length_append] at hcount
  exact ⟨wr₂, s₂, w₂.chain,
    bind_eq_ok.mpr ⟨wr₁, s₁, honce, bind_eq_ok.mpr ⟨wr₁, s₁, hreopen, hrun₂⟩⟩,
    bind_eq_ok.mpr ⟨wr₀, s₀, hcreate, hrun₃⟩, (hbehind₂.new.atEnd hv).2.chain, hcount, htake,
    fun c hc => (hbehind₂.new.fresh hv hc).2, fun c hc => hbehind₂.new.frame hc⟩

set_option maxRecDepth 3000

/-- A full cluster, and another one behind it. -/
theorem writeTwice_eq_writeOnce_full :
    ∃ wr s', writeTwice (tableSuper 5) [List.replicate 512 0x41] [List.replicate 512 0x42]
        (tableSession [endMark, endMark]) = .ok wr s' ∧
      writeOnce (tableSuper 5) [List.replicate 500 0x41, List.replicate 12 0x41 ++
        List.replicate 512 0x42] (tableSession [endMark, endMark]) = .ok wr s' := by
  have hs : (tableSession [endMark, endMark]).Ok (tableSuper 5) :=
    { layout := ⟨by decide, by decide, by decide, by decide,
        by decide, by decide, by decide⟩
      fatSize := by decide }
  have hsplit : [List.replicate 500 (0x41 : UInt8), List.replicate 12 0x41 ++
      List.replicate 512 0x42].flatten =
      [List.replicate 512 0x41].flatten ++ [List.replicate 512 0x42].flatten := by
    decide +kernel
  obtain ⟨wr, s', -, htwice, honce, -⟩ := writeTwice_eq_writeOnce hs (by decide)
    (by decide) hsplit (by decide) (by decide)
  exact ⟨wr, s', htwice, honce⟩

end Hausboot.FatEdit

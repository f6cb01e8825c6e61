import Hausboot.FatEdit.View

/-! # The fatedit Tool: FileReader

    A `FileReader` on a terminated chain delivers the bytes of the chain up to
    its size, in pieces of any length (`readEach_spec`). -/

open ByteLib Prog

namespace Hausboot.FatEdit

variable {super : FatSuper} {s : Session}

open Session

/-! ## Section 1: What a reader still delivers -/

inductive Delivers (super : FatSuper) (s : Session) : FileReader → Bytes → Prop where
  | done {rd : FileReader} : rd.size = 0 → Delivers super s rd []
  | inChain {rd : FileReader} {l : List Nat} :
      (memView super s).Chain rd.cluster (rd.cluster :: l) →
      rd.offset ≤ bytesPerCluster super →
      Delivers super s rd
        ((((memView super s).data rd.cluster).drop rd.offset ++
          (memView super s).content l).take rd.size)

theorem Delivers.congr {s' : Session} {rd rd' : FileReader} {d : Bytes}
    (h : Delivers super s rd d) (hview : memView super s' = memView super s)
    (hcluster : rd'.cluster = rd.cluster) (hoffset : rd'.offset = rd.offset)
    (hsize : rd'.size = rd.size) : Delivers super s' rd' d := by
  cases h with
  | done hzero => exact .done (hsize.trans hzero)
  | inChain hch hoff =>
    rw [← hview, ← hcluster, ← hoffset, ← hsize]
    rw [← hview, ← hcluster] at hch
    exact .inChain hch (hoffset ▸ hoff)

theorem Delivers.new {c size : Nat} {l : List Nat} (hch : (memView super s).Chain c l)
    (hne : l ≠ []) :
    Delivers super s (.new c size) (((memView super s).content l).take size) := by
  cases hch with
  | done _ => exact absurd rfl hne
  | link hns hvalid hch =>
    exact @Delivers.inChain _ _ (.new c size) _ (.link hns hvalid hch) (Nat.zero_le _)

theorem dataLeft_eq {rd : FileReader} :
    rd.dataLeftInCluster super = min (bytesPerCluster super - rd.offset) rd.size := by
  unfold FileReader.dataLeftInCluster
  dsimp only
  split <;> split <;> omega

/-- The top of the loop of `Read`: afterwards there is something left in the
    current cluster, or nothing to deliver at all. -/
theorem advance_spec (hs : s.Ok super) {rd : FileReader} {d : Bytes} (h : Delivers super s rd d) :
    ∃ rd', rd.advance super s = .ok rd' ∧ rd'.totalRead = rd.totalRead ∧
      ((d = [] ∧ rd'.size = 0) ∨
      ∃ l, 0 < rd'.dataLeftInCluster super ∧ rd'.offset ≤ bytesPerCluster super ∧
        (memView super s).Chain rd'.cluster (rd'.cluster :: l) ∧
        d = (((memView super s).data rd'.cluster).drop rd'.offset ++
          (memView super s).content l).take rd'.size) := by
  have hcs := hs.layout.bytesPerCluster_pos
  have hadv : rd.advance super s =
      if rd.dataLeftInCluster super = 0 then FileReader.nextCluster s rd else .ok rd := rfl
  rw [hadv]
  cases h with
  | done hsize =>
    have hnext : FileReader.nextCluster s rd = .ok { rd with offset := 0, cluster := 0 } :=
      if_pos hsize
    rw [if_pos (by rw [dataLeft_eq]; omega), hnext]
    exact ⟨_, rfl, rfl, .inl ⟨rfl, hsize⟩⟩
  | @inChain l hch hoff =>
    by_cases hleft : rd.dataLeftInCluster super = 0
    · rw [if_pos hleft]
      rw [dataLeft_eq] at hleft
      by_cases hsize : rd.size = 0
      · have hnext : FileReader.nextCluster s rd = .ok { rd with offset := 0, cluster := 0 } :=
          if_pos hsize
        rw [hnext]
        exact ⟨_, rfl, rfl, .inl ⟨by rw [hsize, List.take_zero], hsize⟩⟩
      · -- the current cluster has been read to its end
        have hfull : ((memView super s).data rd.cluster).drop rd.offset = [] := by
          have hlen := length_data super s (hch.valid (x := rd.cluster) (by simp)).1
          exact List.drop_eq_nil_of_le (by omega)
        have hvalid := hch.valid (x := rd.cluster) (by simp)
        have hnext : FileReader.nextCluster s rd =
            if (memView super s).next rd.cluster < 2 ||
                (memView super s).next rd.cluster ≥ endMark then
              .ok { rd with offset := 0, size := 0, cluster := 0 }
            else .ok { rd with offset := 0, cluster := (memView super s).next rd.cluster } := by
          rw [FileReader.nextCluster, if_neg hsize, next_valid hs hvalid]
          rfl
        rw [hnext, hfull, List.nil_append]
        cases hch with
        | @link _ _ _ _ hrest =>
          cases hrest with
          | done hend =>
            rw [if_pos (by simp [hend])]
            exact ⟨_, rfl, rfl, .inl ⟨by simp, rfl⟩⟩
          | @link _ l hns hok hrest =>
            have h2 := hok.1
            rw [if_neg (by simp only [Bool.or_eq_true, decide_eq_true_eq]; omega)]
            refine ⟨_, rfl, rfl, .inr ⟨l, ?_, Nat.zero_le _, .link hns hok hrest, rfl⟩⟩
            rw [dataLeft_eq]
            show 0 < min (bytesPerCluster super - 0) rd.size
            omega
    · rw [if_neg hleft]
      exact ⟨rd, rfl, rfl, .inr ⟨l, Nat.pos_of_ne_zero hleft, hoff, hch, rfl⟩⟩

/-! ## Section 2: Read -/

theorem size_of_advance {rd rd' : FileReader} (h : rd.advance super s = .ok rd') :
    rd'.size ≤ rd.size := by
  unfold FileReader.advance at h
  split at h
  · unfold FileReader.nextCluster at h
    split at h
    · obtain rfl := Except.ok.inj h
      exact Nat.le_refl _
    · obtain ⟨e, -, h⟩ := except_bind_eq_ok.mp h
      split at h
      · obtain rfl := Except.ok.inj h
        exact Nat.zero_le _
      · obtain rfl := Except.ok.inj h
        exact Nat.le_refl _
  · obtain rfl := Except.ok.inj h
    exact Nat.le_refl _

theorem totalRead_of_advance {rd rd' : FileReader} (h : rd.advance super s = .ok rd') :
    rd'.totalRead = rd.totalRead := by
  unfold FileReader.advance at h
  split at h
  · unfold FileReader.nextCluster at h
    split at h
    · obtain rfl := Except.ok.inj h
      rfl
    · obtain ⟨e, -, h⟩ := except_bind_eq_ok.mp h
      split at h
      · obtain rfl := Except.ok.inj h
        rfl
      · obtain rfl := Except.ok.inj h
        rfl
  · obtain rfl := Except.ok.inj h
    rfl

/-- A reader never delivers more than its size, whatever the chain is. -/
theorem length_of_readLoop {n size : Nat} {rd rd' : FileReader} {out out' : Bytes}
    (h : rd.readLoop super s n size out = .ok (out', rd')) :
    out'.length + rd'.size ≤ out.length + rd.size := by
  induction n generalizing rd size out with
  | zero =>
    obtain ⟨rfl, rfl⟩ := Prod.mk.inj (Except.ok.inj h)
    exact Nat.le_refl _
  | succ n ih =>
    unfold FileReader.readLoop at h
    split at h
    · obtain ⟨rfl, rfl⟩ := Prod.mk.inj (Except.ok.inj h)
      exact Nat.le_refl _
    obtain ⟨rd₁, hadv, h⟩ := except_bind_eq_ok.mp h
    have hsize := size_of_advance hadv
    split at h
    · obtain ⟨rfl, rfl⟩ := Prod.mk.inj (Except.ok.inj h)
      omega
    · obtain ⟨d, hd, h⟩ := except_bind_eq_ok.mp h
      -- what is read now is taken off the size
      have hlen : d.length = min (rd₁.dataLeftInCluster super) size := by
        rw [readAt_ok hd, Store.length_read]
      have hleft : rd₁.dataLeftInCluster super ≤ rd₁.size := by
        rw [dataLeft_eq]
        omega
      have hrest := ih h
      simp only [List.length_append] at hrest
      omega

/-- It never delivers more than asked for, either. -/
theorem readLoop_bounds {n size : Nat} {rd rd' : FileReader} {out out' : Bytes}
    (h : rd.readLoop super s n size out = .ok (out', rd')) :
    out'.length ≤ out.length + size ∧ rd'.totalRead = rd.totalRead := by
  induction n generalizing rd size out with
  | zero =>
    obtain ⟨rfl, rfl⟩ := Prod.mk.inj (Except.ok.inj h)
    exact ⟨Nat.le_add_right _ _, rfl⟩
  | succ n ih =>
    unfold FileReader.readLoop at h
    split at h
    · obtain ⟨rfl, rfl⟩ := Prod.mk.inj (Except.ok.inj h)
      exact ⟨Nat.le_add_right _ _, rfl⟩
    obtain ⟨rd₁, hadv, h⟩ := except_bind_eq_ok.mp h
    have htotal := totalRead_of_advance hadv
    split at h
    · obtain ⟨rfl, rfl⟩ := Prod.mk.inj (Except.ok.inj h)
      exact ⟨Nat.le_add_right _ _, htotal⟩
    · obtain ⟨d, hd, h⟩ := except_bind_eq_ok.mp h
      -- no more than what is still wanted
      have hlen : d.length = min (rd₁.dataLeftInCluster super) size := by
        rw [readAt_ok hd, Store.length_read]
      obtain ⟨hle, htotal'⟩ := ih h
      rw [List.length_append] at hle
      exact ⟨by omega, htotal'.trans htotal⟩

theorem read_bounds {rd rd' : FileReader} {n : Nat} {out : Bytes}
    (h : rd.read super s n = .ok (out, rd')) :
    out.length ≤ n ∧ rd'.totalRead = rd.totalRead + out.length := by
  obtain ⟨⟨out', rd₁⟩, hloop, h⟩ := except_bind_eq_ok.mp h
  obtain ⟨rfl, rfl⟩ := Prod.mk.inj (Except.ok.inj h)
  obtain ⟨hle, htotal⟩ := readLoop_bounds hloop
  rw [List.length_nil, Nat.zero_add] at hle
  exact ⟨hle, by rw [htotal]⟩

theorem readLoop_spec (hs : s.Ok super) {rd : FileReader} {d : Bytes} (h : Delivers super s rd d)
    (n size : Nat) (out : Bytes) (hfuel : size ≤ n) :
    ∃ rd', rd.readLoop super s n size out = .ok (out ++ d.take size, rd') ∧
      rd'.totalRead = rd.totalRead ∧ Delivers super s rd' (d.drop size) := by
  induction n generalizing rd d size out with
  | zero =>
    obtain rfl : size = 0 := by omega
    exact ⟨rd, by simp [FileReader.readLoop], rfl, by simpa using h⟩
  | succ n ih =>
    by_cases hsize : size = 0
    · subst hsize
      exact ⟨rd, by simp [FileReader.readLoop], rfl, by simpa using h⟩
    obtain ⟨rd₁, hadv, htotal, ⟨rfl, hzero⟩ | ⟨l, hleft, hoff, hch, rfl⟩⟩ := advance_spec hs h
    · refine ⟨rd₁, ?_, htotal, by simpa using .done hzero⟩
      rw [FileReader.readLoop, if_neg hsize, hadv]
      show (if rd₁.dataLeftInCluster super = 0 then _ else _) = _
      rw [if_pos (by rw [dataLeft_eq]; omega)]
      simp
    · have hvalid := hch.valid (x := rd₁.cluster) (by simp)
      have hlt := bytesPerCluster_lt super
      have hlen := length_data super s hvalid.1
      rw [dataLeft_eq] at hleft
      generalize hdiff : min (rd₁.dataLeftInCluster super) size = diff
      have hd := hdiff
      rw [dataLeft_eq] at hd
      have hread := readCluster_spec hs hvalid (o := rd₁.offset) (n := diff) (by omega)
      -- what is read now, and what is left for later
      have hnow : ∀ rest : Bytes, ((((memView super s).data rd₁.cluster).drop rd₁.offset ++
          rest).take rd₁.size).take diff =
          slice ((memView super s).data rd₁.cluster) rd₁.offset diff := by
        intro rest
        rw [List.take_take, Nat.min_eq_left (by omega), List.take_append_of_le_length
          (by rw [List.length_drop]; omega), slice]
      have hlater : ∀ rest : Bytes, ((((memView super s).data rd₁.cluster).drop rd₁.offset ++
          rest).take rd₁.size).drop diff =
          (((memView super s).data rd₁.cluster).drop (rd₁.offset + diff) ++
            rest).take (rd₁.size - diff) := by
        intro rest
        rw [List.drop_take, List.drop_append_of_le_length (by rw [List.length_drop]; omega),
          List.drop_drop]
      have hnext : Delivers super s
          { rd₁ with offset := u32 (rd₁.offset + diff), size := rd₁.size - diff }
          (((((memView super s).data rd₁.cluster).drop rd₁.offset ++
            (memView super s).content l).take rd₁.size).drop diff) := by
        have hin : rd₁.offset + diff ≤ bytesPerCluster super := by omega
        rw [hlater, u32_of_lt (n := rd₁.offset + diff) (by omega)]
        exact @Delivers.inChain _ _
          { rd₁ with offset := rd₁.offset + diff, size := rd₁.size - diff } _ hch hin
      obtain ⟨rd', hloop, htotal', hdel⟩ := ih hnext (size - diff)
        (out ++ slice ((memView super s).data rd₁.cluster) rd₁.offset diff) (by omega)
      refine ⟨rd', ?_, htotal'.trans htotal, ?_⟩
      · rw [FileReader.readLoop, if_neg hsize, hadv]
        show (if rd₁.dataLeftInCluster super = 0 then _ else _) = _
        rw [if_neg (by rw [dataLeft_eq]; omega), hdiff, hread]
        show FileReader.readLoop super s n _ _ _ = _
        rw [hloop, List.append_assoc, ← hnow ((memView super s).content l), ← List.take_add,
          Nat.add_sub_cancel' (by omega)]
      · rw [List.drop_drop, Nat.add_sub_cancel' (by omega)] at hdel
        exact hdel

/-- `Read` delivers the next bytes, as many as there are. -/
theorem read_spec (hs : s.Ok super) {rd : FileReader} {d : Bytes} (h : Delivers super s rd d)
    (size : Nat) :
    ∃ rd', rd.read super s size = .ok (d.take size, rd') ∧
      rd'.totalRead = rd.totalRead + (d.take size).length ∧
      Delivers super s rd' (d.drop size) := by
  obtain ⟨rd', hloop, htotal, hdel⟩ := readLoop_spec hs h size size [] (Nat.le_refl _)
  refine ⟨{ rd' with totalRead := rd'.totalRead + (d.take size).length }, ?_, ?_, ?_⟩
  · rw [FileReader.read, hloop]
    rfl
  · show rd'.totalRead + _ = _
    rw [htotal]
  · exact hdel.congr rfl rfl rfl rfl

/-! ## Section 3: Any sequence of reads -/

/-- Calls of `Read` with these sizes, one after the other. -/
def readEach (super : FatSuper) (s : Session) :
    FileReader → List Nat → Except Fail (List Bytes × FileReader)
  | rd, [] => .ok ([], rd)
  | rd, n :: ns => do
    let (out, rd) ← rd.read super s n
    let (outs, rd) ← readEach super s rd ns
    .ok (out :: outs, rd)

theorem readEach_cons_ok {rd rd' : FileReader} {n : Nat} {ns : List Nat} {outs : List Bytes} :
    readEach super s rd (n :: ns) = .ok (outs, rd') ↔
      ∃ out rd₁ outs₁, rd.read super s n = .ok (out, rd₁) ∧
        readEach super s rd₁ ns = .ok (outs₁, rd') ∧ outs = out :: outs₁ := by
  constructor
  · intro h
    obtain ⟨⟨out, rd₁⟩, hread, h⟩ := except_bind_eq_ok.mp h
    obtain ⟨⟨outs₁, rd₂⟩, hreads, h⟩ := except_bind_eq_ok.mp h
    obtain ⟨rfl, rfl⟩ := Prod.mk.inj (Except.ok.inj h)
    exact ⟨out, rd₁, outs₁, hread, hreads, rfl⟩
  · rintro ⟨out, rd₁, outs₁, hread, hreads, rfl⟩
    exact except_bind_eq_ok.mpr ⟨(out, rd₁), hread, except_bind_eq_ok.mpr ⟨_, hreads, rfl⟩⟩

theorem readEach_pieces (hs : s.Ok super) {rd : FileReader} {d : Bytes} (h : Delivers super s rd d)
    (ns : List Nat) :
    ∃ rd', readEach super s rd ns = .ok (pieces d ns, rd') ∧
      rd'.totalRead = rd.totalRead + (pieces d ns).flatten.length := by
  induction ns generalizing rd d with
  | nil => exact ⟨rd, rfl, rfl⟩
  | cons n ns ih =>
    obtain ⟨rd₁, hread, htotal, hrest⟩ := read_spec hs h n
    obtain ⟨rd', hreads, htotal'⟩ := ih hrest
    refine ⟨rd', readEach_cons_ok.mpr ⟨_, rd₁, _, hread, hreads, rfl⟩, ?_⟩
    rw [htotal', htotal, pieces, List.flatten_cons, List.length_append, Nat.add_assoc]

theorem length_content_chain {c : Nat} {l : List Nat}
    (hch : (memView super s).Chain c l) :
    ((memView super s).content l).length = l.length * bytesPerCluster super := by
  induction hch with
  | done _ => simp
  | link _ hvalid _ ih =>
    have hdata := length_data super s hvalid.1
    rw [Vol.content_cons, List.length_append, ih, hdata, List.length_cons, Nat.succ_mul,
      Nat.add_comm]

/-- **A reader delivers the same bytes however it is read**: any sequence of
    calls gives the front of the chain in pieces, each one as long as asked for
    unless everything has been delivered with it; behind a short piece there is
    nothing. -/
theorem readEach_spec (hs : s.Ok super) {c : Nat} {l : List Nat}
    (hch : (memView super s).Chain c l) (hc : (memView super s).Valid c) (size : Nat)
    (ns : List Nat) :
    ∃ outs rd, readEach super s (.new c size) ns = .ok (outs, rd) ∧ outs.length = ns.length ∧
      outs.flatten = ((memView super s).content l).take
        (min ns.sum (min size (l.length * bytesPerCluster super))) ∧
      outs.flatten.length = min ns.sum (min size (l.length * bytesPerCluster super)) ∧
      rd.totalRead = outs.flatten.length ∧
      (∀ i < ns.length, (outs.getD i []).length = ns.getD i 0 ∨
        (outs.take (i + 1)).flatten.length = min size (l.length * bytesPerCluster super)) ∧
      ∀ i j, i < j → (outs.getD i []).length < ns.getD i 0 → outs.getD j [] = [] := by
  have hlen := length_content_chain hch
  have hne : l ≠ [] := by
    rintro rfl
    cases hch with
    | done hend =>
      have hlt := hc.2
      have hcount := hs.layout.dataClusters_lt
      have hlt' : c < dataClusters super + 2 := hlt
      omega
  generalize hd : ((memView super s).content l).take size = d
  have hdlen : d.length = min size (l.length * bytesPerCluster super) := by
    rw [← hd, List.length_take, hlen]
  have hdel : Delivers super s (.new c size) (((memView super s).content l).take size) :=
    Delivers.new hch hne
  rw [hd] at hdel
  obtain ⟨rd, hreads, htotal⟩ := readEach_pieces hs hdel ns
  refine ⟨_, rd, hreads, length_pieces d ns, ?_, ?_, ?_, fun i _ => ?_, fun i j => piece_eq_nil⟩
  · rw [flatten_pieces, ← hd, List.take_take, List.take_eq_take_iff, hlen]
    omega
  · rw [flatten_pieces, List.length_take, hdlen]
  · rw [htotal]
    exact Nat.zero_add _
  · -- a piece that is too short is the last one
    refine (length_piece d ns i).imp_right fun hend => ?_
    rw [take_pieces, flatten_pieces, List.length_take, ← hdlen]
    omega

/-- A volume of two clusters that make one chain. -/
def pairSuper : FatSuper := ⟨smallSuper 1 4 1⟩

def pairSession : Session where
  file := ⟨fun _ => 0x41, 2048⟩
  fatRaw := ⟨Store.write (fun _ => 0) 0 ([endMark, endMark, 3, endMark].flatMap (leBytes 4)), 512⟩
  fsinfo := []
  cout := []
  cerr := []

theorem pairSession_ok : pairSession.Ok pairSuper where
  layout := ⟨by decide, by decide, by decide, by decide,
    by decide, by decide, by decide⟩
  fatSize := by decide

theorem pairSession_chain : (memView pairSuper pairSession).Chain 2 [2, 3] := by
  have hnext : (memView pairSuper pairSession).next 2 = 3 := by decide
  refine .link (by decide) ⟨by decide, by decide⟩ ?_
  rw [hnext]
  exact .link (by decide) ⟨by decide, by decide⟩ (.done (by decide))

/-- Three reads of a file of 700 bytes. -/
theorem readEach_spec_pair :
    ∃ outs rd, readEach pairSuper pairSession (.new 2 700) [512, 512, 5] = .ok (outs, rd) ∧
      outs.flatten.length = 700 ∧ rd.totalRead = 700 := by
  obtain ⟨outs, rd, hreads, -, -, hlen, htotal, -⟩ :=
    readEach_spec pairSession_ok pairSession_chain ⟨by decide, by decide⟩ 700 [512, 512, 5]
  have hmin : min [512, 512, 5].sum (min 700 ([2, 3].length * bytesPerCluster pairSuper)) = 700 := by
    decide
  rw [hmin] at hlen
  exact ⟨outs, rd, hreads, hlen, htotal.trans hlen⟩

/-! ## Section 4: Printing a file -/

theorem dumpLoop_spec (hs : s.Ok super) {rd : FileReader} {d : Bytes} (h : Delivers super s rd d)
    (n : Nat) (hfuel : d.length < n) :
    dumpLoop super n rd s = .ok () { s with cout := s.cout ++ d } := by
  induction n generalizing s rd d with
  | zero => omega
  | succ n ih =>
    obtain ⟨rd', hread, -, hdel⟩ := read_spec hs h 512
    have hreading : reading (rd.read super · 512) s = .ok (d.take 512, rd') s := by
      simp only [reading, hread]
    unfold dumpLoop
    apply bind_eq_ok.mpr
    refine ⟨_, s, hreading, ?_⟩
    dsimp only
    -- an empty read is the end of the file
    by_cases hd : d = []
    · subst hd
      rw [if_pos (by simp)]
      simp [pure_eq_ok]
    · have hpos := List.length_pos_iff.mpr hd
      have htake : d.take 512 ≠ [] := by simp [hd]
      rw [if_neg htake]
      apply bind_eq_ok.mpr
      refine ⟨(), { s with cout := s.cout ++ d.take 512 }, rfl, ?_⟩
      have hnext : Delivers super { s with cout := s.cout ++ d.take 512 } rd' (d.drop 512) :=
        hdel.congr rfl rfl rfl rfl
      rw [ih (s := { s with cout := s.cout ++ d.take 512 }) ⟨hs.layout, hs.fatSize⟩ hnext (by rw [List.length_drop]; omega)]
      simp only [List.append_assoc, List.take_append_drop]

end Hausboot.FatEdit

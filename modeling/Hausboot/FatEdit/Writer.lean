import Hausboot.FatEdit.Names
import Hausboot.FatEdit.View

/-! # The fatedit Tool: FileWriter

    `FileWriter` refines `Vol.Appends`: whatever it does to the volume in
    memory is appending at a cursor. It throws only when no free cluster is
    left, and what it has written by then is a part of the data. -/

open ByteLib Prog

namespace Hausboot.FatEdit

variable {super : FatSuper} {s s' : Session}

open Session

/-! ## Section 1: Append -/

/-- The writer stands at the cursor. -/
structure FileWriter.At (wr : FileWriter) (w : Vol.Cursor) : Prop where
  cluster : wr.cluster = w.last
  offset : wr.offset = w.offset

theorem spaceAvailable_eq {wr : FileWriter} (hl : bytesPerCluster super < 2 ^ 64)
    (h : wr.offset ≤ bytesPerCluster super) :
    wr.spaceAvailable super = bytesPerCluster super - wr.offset := by
  rw [FileWriter.spaceAvailable, show bytesPerCluster super + (2 ^ 64 - wr.offset) =
    (bytesPerCluster super - wr.offset) + 2 ^ 64 by omega, Nat.add_mod_right,
    Nat.mod_eq_of_lt (by omega)]


/-- The data `d` could not be written as a whole: a part of it was, up to the
    end of the chain, and no free cluster is left. -/
def OutOfSpace (super : FatSuper) (s : Session) (w : Vol.Cursor) (d : Bytes) (e : Fail)
    (s' : Session) : Prop :=
  e = .throw .noFreeCluster ∧ Kept super s s' ∧ ∃ d₁ w', d₁ <+: d ∧ d₁.length < d.length ∧
    (memView super s).Appends w d₁ (memView super s') w' ∧
    w'.offset = bytesPerCluster super ∧ (memView super s').freeSet = ∅

theorem appendLoop_spec (hs : s.Ok super) (hv : (memView super s).Sane) {first : Nat}
    {w : Vol.Cursor} (hw : (memView super s).AtEnd first w) {wr : FileWriter} (hat : wr.At w)
    (htotal : wr.totalSize < 2 ^ 32) (n : Nat) (data : Bytes)
    (hfuel : 2 * data.length ≤ n + 1)
    (hfull : w.offset = bytesPerCluster super → 2 * data.length ≤ n) :
    Holds (wr.appendLoop super n data) s
      (fun wr' s' => Kept super s s' ∧ wr'.firstCluster = wr.firstCluster ∧
        wr'.totalSize = u32 (wr.totalSize + data.length) ∧
        ∃ w', wr'.At w' ∧ (memView super s).Appends w data (memView super s') w')
      (OutOfSpace super s w data) := by
  have hcs := hs.layout.bytesPerCluster_pos
  have hlt := bytesPerCluster_lt super
  induction n generalizing s w wr data with
  | zero =>
    obtain rfl : data = [] := List.eq_nil_of_length_eq_zero (by omega)
    exact ⟨Kept.rfl, rfl, (u32_of_lt htotal).symm, w, hat, .done⟩
  | succ n ih =>
    unfold FileWriter.appendLoop
    by_cases hd : data = []
    · rw [if_pos hd]
      subst hd
      exact ⟨Kept.rfl, rfl, (u32_of_lt htotal).symm, w, hat, .done⟩
    rw [if_neg hd]
    have hpos := List.length_pos_iff.mpr hd
    have hle : w.offset ≤ bytesPerCluster super := hw.offset_le
    have hspace : wr.spaceAvailable super = bytesPerCluster super - w.offset := by
      rw [spaceAvailable_eq (by omega) (by rw [hat.offset]; exact hle), hat.offset]
    by_cases hend : w.offset = bytesPerCluster super
    · -- the cluster is full: hang a free one behind it
      rw [hspace, if_pos (by omega)]
      apply holds_bind
      rw [hat.cluster]
      apply (allocateClusterAfter_spec hs hw.valid_last).mono
      · intro x s₁ hx
        obtain ⟨hx, hfree, -, hkept, hview⟩ := hx
        have hv₁ := hv.link hw.valid_last (hv.valid_of_free hx hfree)
        have hw₁ := hw.grow hv hx hfree
        rw [← hview] at hv₁ hw₁
        have hfull₁ := hfull hend
        have hstep : ∀ {d₁ : Bytes} {v' : Vol} {w' : Vol.Cursor}, d₁ ≠ [] →
            (memView super s₁).Appends ⟨w.chain, x, 0⟩ d₁ v' w' →
            (memView super s).Appends w d₁ v' w' := fun hd₁ happ =>
          .grow hd₁ hend hx hfree (hview ▸ happ)
        have hat₁ : FileWriter.At { wr with cluster := x, offset := 0 } ⟨w.chain, x, 0⟩ := ⟨rfl, rfl⟩
        apply (ih (hs.kept hkept) hv₁ hw₁ hat₁ htotal data (by omega)
          fun h0 => absurd h0 (Nat.ne_of_lt hcs)).mono
        · intro wr' s₂ hr
          obtain ⟨hkept₂, hfirst, hsize, w', hat', happ⟩ := hr
          exact ⟨hkept.trans hkept₂, hfirst, hsize, w', hat', hstep hd happ⟩
        · intro e s₂ he
          obtain ⟨rfl, hkept₂, d₁, w', hpre, hlen, happ, hoff, hnone⟩ := he
          refine ⟨rfl, hkept.trans hkept₂, d₁, w', hpre, hlen, ?_, hoff, hnone⟩
          -- the new cluster is not full, so something went into it
          apply hstep _ happ
          rintro rfl
          obtain ⟨-, rfl⟩ := happ.eq_of_nil rfl
          exact absurd hoff (Nat.ne_of_lt hcs)
      · intro e s₁ he
        obtain ⟨rfl, rfl, hnone⟩ := he
        exact ⟨rfl, Kept.rfl, [], w, List.nil_prefix, hpos, .done, hend, hnone⟩
    · -- fill up the cluster
      rw [hspace, if_neg (by omega)]
      generalize hdiff : min (bytesPerCluster super - w.offset) data.length = diff
      have htake : (data.take diff).length = diff := List.length_take_of_le (by omega)
      have hne : data.take diff ≠ [] := by
        intro hnil
        rw [hnil] at htake
        simp only [List.length_nil] at htake
        omega
      have hfit : w.offset + (data.take diff).length ≤ bytesPerCluster super := by omega
      obtain ⟨s₁, hwrite, -, hkept, hview⟩ :=
        writeCluster_spec hs hw.valid_last (o := w.offset) hfit hne
      have hv₁ := hv.write hw hfit
      have hw₁ := hw.write hfit
      rw [← hview] at hv₁ hw₁
      have hstep : ∀ {d₁ : Bytes} {v' : Vol} {w' : Vol.Cursor},
          (memView super s₁).Appends { w with offset := w.offset + (data.take diff).length } d₁
            v' w' → (memView super s).Appends w (data.take diff ++ d₁) v' w' := fun happ =>
        .write hne hfit (hview ▸ happ)
      apply holds_bind
      rw [hat.cluster, hat.offset]
      apply holds_of_ok hwrite
      have hoff : u32 (w.offset + diff) = w.offset + (data.take diff).length := by
        rw [htake, u32_of_lt (by omega)]
      have hdrop : (data.drop diff).length = data.length - diff := List.length_drop
      have hsum : u32 (u32 (wr.totalSize + diff) + (data.drop diff).length) =
          u32 (wr.totalSize + data.length) := by
        rw [u32, u32, u32, Nat.mod_add_mod, hdrop]
        congr 1
        omega
      have hat₁ : FileWriter.At { wr with
          cluster := w.last
          offset := u32 (w.offset + diff)
          totalSize := u32 (wr.totalSize + diff) }
          { w with offset := w.offset + (data.take diff).length } := ⟨rfl, hoff⟩
      apply (ih (hs.kept hkept) hv₁ hw₁ hat₁ (u32_lt _) (data.drop diff) (by omega)
        fun _ => by omega).mono
      · intro wr' s₂ hr
        obtain ⟨hkept₂, hfirst, hsize, w', hat', happ⟩ := hr
        refine ⟨hkept.trans hkept₂, hfirst, hsize.trans hsum, w', hat', ?_⟩
        have happ' := hstep happ
        rwa [List.take_append_drop] at happ'
      · intro e s₂ he
        obtain ⟨rfl, hkept₂, d₁, w', hpre, hlen, happ, hoff', hnone⟩ := he
        refine ⟨rfl, hkept.trans hkept₂, data.take diff ++ d₁, w', ?_, ?_, hstep happ, hoff', hnone⟩
        · obtain ⟨t, ht⟩ := hpre
          exact ⟨t, by rw [List.append_assoc, ht, List.take_append_drop]⟩
        · rw [List.length_append]
          omega

/-- `Append` at the end of a chain. -/
theorem append_spec (hs : s.Ok super) (hv : (memView super s).Sane) {first : Nat}
    {w : Vol.Cursor} (hw : (memView super s).AtEnd first w) {wr : FileWriter} (hat : wr.At w)
    (htotal : wr.totalSize < 2 ^ 32) (data : Bytes) :
    Holds (wr.append super data) s
      (fun wr' s' => Kept super s s' ∧ wr'.firstCluster = wr.firstCluster ∧
        wr'.totalSize = u32 (wr.totalSize + data.length) ∧
        ∃ w', wr'.At w' ∧ (memView super s).Appends w data (memView super s') w')
      (OutOfSpace super s w data) :=
  appendLoop_spec hs hv hw hat htotal _ data (by omega) fun _ => Nat.le_refl _

/-! ## Section 2: Running out of space -/

/-- Too few free clusters were left for the data. -/
theorem OutOfSpace.card_lt {w : Vol.Cursor} {d : Bytes} {e : Fail}
    (h : OutOfSpace super s w d e s') (hv : (memView super s).Sane) {first : Nat}
    (hw : (memView super s).AtEnd first w) :
    ((memView super s).freeSet.card + w.chain.length) * bytesPerCluster super <
      w.pos (bytesPerCluster super) + d.length := by
  obtain ⟨-, -, d₁, w', -, hlen, happ, hoff, hnone⟩ := h
  have hcard := happ.card_freeSet hv hw
  have hpos : w'.pos (bytesPerCluster super) = w.pos (bytesPerCluster super) + d₁.length :=
    happ.pos_eq
  rw [hnone, Finset.card_empty] at hcard
  have hsum : (memView super s).freeSet.card + w.chain.length = w'.pre.length + 1 := by
    simp only [Vol.Cursor.chain, List.length_append, List.length_singleton]
    omega
  rw [hsum, Nat.succ_mul]
  have hw' : w'.pos (bytesPerCluster super) =
      w'.pre.length * bytesPerCluster super + bytesPerCluster super := by
    rw [Vol.Cursor.pos, hoff]
  omega

theorem le_clustersFor_mul {cs n : Nat} (hcs : 0 < cs) : n ≤ Vol.clustersFor cs n * cs := by
  have hdiv := Nat.div_add_mod (n + cs - 1) cs
  have hmod := Nat.mod_lt (n + cs - 1) hcs
  have hmul : (n + cs - 1) / cs * cs ≤ Vol.clustersFor cs n * cs :=
    Nat.mul_le_mul_right _ (Nat.le_max_right _ _)
  rw [Nat.mul_comm] at hdiv
  omega

/-- Too few free clusters were left for a new file. -/
theorem OutOfSpace.new {s₀ : Session} {w : Vol.Cursor} {d₀ d : Bytes} {e : Fail} {first n : Nat}
    (h : OutOfSpace super s w d e s') (hs : s₀.Ok super) (hv : (memView super s₀).Sane)
    (hnew : (memView super s₀).NewChain first d₀ (memView super s) w)
    (hn : d₀.length + d.length ≤ n) :
    (memView super s₀).freeSet.card < Vol.clustersFor (bytesPerCluster super) n := by
  obtain ⟨hv', hw⟩ := hnew.atEnd hv
  have hlt := h.card_lt hv' hw
  have hpos : w.pos (bytesPerCluster super) = d₀.length := hnew.pos_eq
  rw [hnew.card_freeSet hv, hpos] at hlt
  have hcs := hs.layout.bytesPerCluster_pos
  by_contra hge
  have hmul := Nat.mul_le_mul_right (bytesPerCluster super) (Nat.le_of_not_lt hge)
  have hle := le_clustersFor_mul (n := n) hcs
  omega

/-! ## Section 3: New files -/

/-- `FileWriter()` -/
theorem create_spec (hs : s.Ok super) :
    Holds (FileWriter.create super) s
      (fun wr s' => Kept super s s' ∧ wr.totalSize = 0 ∧
        wr.At ⟨[], wr.firstCluster, 0⟩ ∧
        (memView super s).NewChain wr.firstCluster [] (memView super s') ⟨[], wr.firstCluster, 0⟩)
      (fun e s' => e = .throw .noFreeCluster ∧ s' = s ∧ (memView super s).freeSet = ∅) := by
  unfold FileWriter.create
  apply holds_bind
  apply (allocateCluster_spec hs).mono
  · intro x s' hx
    obtain ⟨hx, hfree, -, hkept, hview⟩ := hx
    apply holds_pure
    refine ⟨hkept, rfl, ⟨rfl, rfl⟩, hx, hfree, ?_⟩
    show Vol.Appends _ _ _ (memView super s') _
    rw [hview]
    exact .done
  · intro e s' he
    exact he

/-- The copy loop of `PackDirectory` appends the rest of the input. It ends by
    an exception where reading the input fails. -/
theorem packLoop_spec (hs : s.Ok super) (hv : (memView super s).Sane) {first : Nat}
    {w : Vol.Cursor} (hw : (memView super s).AtEnd first w) {wr : FileWriter} (hat : wr.At w)
    (htotal : wr.totalSize < 2 ^ 32) (fails : Bool) (n : Nat) (rest : Bytes)
    (hfuel : rest.length < n) :
    Holds (packLoop super fails n wr rest) s
      (fun wr' s' => fails = false ∧ Kept super s s' ∧ wr'.firstCluster = wr.firstCluster ∧
        wr'.totalSize = u32 (wr.totalSize + rest.length) ∧
        ∃ w', wr'.At w' ∧ (memView super s).Appends w rest (memView super s') w')
      (fun e s' => (fails = true ∧ e = .throw .readError) ∨ OutOfSpace super s w rest e s') := by
  induction n generalizing s w wr rest with
  | zero => omega
  | succ n ih =>
    unfold packLoop
    -- the last read is the short one: there an input that fails throws
    by_cases hfail : (rest.length < 512 && fails) = true
    · rw [if_pos hfail]
      apply holds_throw
      exact .inl ⟨by simp only [Bool.and_eq_true] at hfail; exact hfail.2, rfl⟩
    rw [if_neg hfail]
    by_cases hnil : rest = []
    · subst hnil
      rw [if_pos rfl]
      apply holds_pure
      exact ⟨by simpa using hfail, Kept.rfl, rfl, (u32_of_lt htotal).symm, w, hat, .done⟩
    · rw [if_neg hnil]
      have hpos := List.length_pos_iff.mpr hnil
      have hlen : (rest.take 512).length + (rest.drop 512).length = rest.length := by
        rw [← List.length_append, List.take_append_drop]
      have htake : (rest.take 512).length = min 512 rest.length := List.length_take
      apply holds_bind
      apply (append_spec hs hv hw hat htotal (rest.take 512)).mono
      · intro wr₁ s₁ hr
        obtain ⟨hkept, hfirst, hsize, w₁, hat₁, happ⟩ := hr
        obtain ⟨hv₁, hw₁⟩ := happ.atEnd hv hw
        -- the 32 bit size adds up over the rounds
        have hsum : u32 (wr₁.totalSize + (rest.drop 512).length) =
            u32 (wr.totalSize + rest.length) := by
          rw [hsize, u32, u32, u32, Nat.mod_add_mod]
          congr 1
          omega
        apply (ih (hs.kept hkept) hv₁ hw₁ hat₁ (hsize ▸ u32_lt _) (rest.drop 512) (by omega)).mono
        · intro wr' s₂ hr
          obtain ⟨hok, hkept₂, hfirst₂, hsize₂, w', hat', happ₂⟩ := hr
          have hall := happ.trans happ₂
          rw [List.take_append_drop] at hall
          exact ⟨hok, hkept.trans hkept₂, hfirst₂.trans hfirst, hsize₂.trans hsum, w', hat', hall⟩
        · intro e s₂ he
          rcases he with hfails | ⟨rfl, hkept₂, d₁, w', hpre, hlt, happ₂, hoff, hnone⟩
          · exact .inl hfails
          · refine .inr ⟨rfl, hkept.trans hkept₂, rest.take 512 ++ d₁, w', ?_, ?_,
              happ.trans happ₂, hoff, hnone⟩
            · obtain ⟨t, ht⟩ := hpre
              exact ⟨t, by rw [List.append_assoc, ht, List.take_append_drop]⟩
            · rw [List.length_append]
              omega
      · intro e s₁ he
        obtain ⟨rfl, hkept, d₁, w', hpre, hlt, happ, hoff, hnone⟩ := he
        exact .inr ⟨rfl, hkept, d₁, w', hpre.trans (List.take_prefix _ _), by omega, happ, hoff,
          hnone⟩

/-! ## Section 4: Going on behind the last record -/

/-- The walk of `FileWriter(idx, size)` ends at the cluster of the last byte. -/
theorem walk_spec (hs : s.Ok super) {c : Nat} {l : List Nat} (hch : (memView super s).Chain c l)
    (hne : l ≠ []) (n size : Nat) (hsize : size ≤ l.length * bytesPerCluster super)
    (hfuel : size < n) :
    ∃ pre c' post, l = pre ++ c' :: post ∧ (memView super s).Chain c' (c' :: post) ∧
      FileWriter.walk super s n c size = .ok (c', size - pre.length * bytesPerCluster super) ∧
      size ≤ (pre.length + 1) * bytesPerCluster super ∧
      pre.length * bytesPerCluster super ≤ size ∧
      (pre = [] ∨ pre.length * bytesPerCluster super < size) := by
  have hcs := hs.layout.bytesPerCluster_pos
  induction n generalizing c l size with
  | zero => omega
  | succ n ih =>
    cases hch with
    | done _ => exact absurd rfl hne
    | @link c l hns hvalid hch =>
      rw [FileWriter.walk]
      -- more than one cluster is left: follow the link
      by_cases hbig : size > bytesPerCluster super
      · rw [if_pos hbig]
        rw [List.length_cons, Nat.succ_mul] at hsize
        cases hch with
        | done _ =>
          rw [List.length_nil] at hsize
          omega
        | @link c₁ l hns₁ hvalid₁ hch₁ =>
          have hnext := next_valid hs hvalid
          obtain ⟨pre, c', post, hl, hch', hwalk, hhi, hlo, hpos⟩ :=
            ih (.link hns₁ hvalid₁ hch₁) (by simp) (size - bytesPerCluster super) (by omega)
              (by omega)
          have hlen : (c :: pre).length * bytesPerCluster super =
              pre.length * bytesPerCluster super + bytesPerCluster super := by
            rw [List.length_cons, Nat.succ_mul]
          refine ⟨c :: pre, c', post, by rw [hl]; rfl, hch', ?_, ?_, by omega, .inr ?_⟩
          · rw [hnext]
            have h2 := hvalid₁.1
            -- a link to a data cluster is not taken for a broken chain
            have hif : (decide ((memView super s).next c < 2) ||
                decide ((memView super s).next c ≥ endMark)) = false := by
              rw [Bool.or_eq_false_iff, decide_eq_false_iff_not, decide_eq_false_iff_not]
              omega
            show (if (decide ((memView super s).next c < 2) ||
              decide ((memView super s).next c ≥ endMark)) = true then _ else _) = _
            rw [hif, if_neg (by decide), hwalk, hlen]
            congr 2
            omega
          · rw [Nat.succ_mul] at hhi ⊢
            omega
          · rcases hpos with rfl | hpos
            · simp only [List.length_nil, List.length_singleton] at *
              omega
            · omega
      · rw [if_neg hbig]
        refine ⟨[], c, l, rfl, .link hns hvalid hch, ?_, by simp; omega, by simp, .inl rfl⟩
        simp

/-- `FileWriter(idx, size)` on a chain that is long enough: it needs the last
    byte to be in the last cluster. -/
theorem reopen_spec (hs : s.Ok super) {c : Nat} {l : List Nat}
    (hch : (memView super s).Chain c l) (hne : l ≠ []) {size : Nat}
    (hsize : size ≤ l.length * bytesPerCluster super) :
    (∃ w, FileWriter.reopen super s c size = .ok ⟨w.last, w.offset, c, size⟩ ∧ w.chain = l ∧
      (memView super s).AtEnd c w ∧ w.pos (bytesPerCluster super) = size ∧
      (w.pre = [] ∨ 0 < w.offset)) ∨
    (FileWriter.reopen super s c size = .error (.throw .chainNotTerminated) ∧ 1 < l.length ∧
      size ≤ (l.length - 1) * bytesPerCluster super) := by
  obtain ⟨pre, c', post, rfl, hch', hwalk, hhi, hlo, hpos⟩ :=
    walk_spec hs hch hne (size + 1) size hsize (Nat.lt_succ_self _)
  have hvalid : (memView super s).Valid c' := hch'.valid (by simp)
  have hreopen : FileWriter.reopen super s c size =
      if (memView super s).next c' < endMark then .error (.throw .chainNotTerminated)
      else .ok ⟨c', size - pre.length * bytesPerCluster super, c, size⟩ := by
    rw [FileWriter.reopen, hwalk]
    show (nextClusterInFile s c' >>= fun ent => _) = _
    rw [next_valid hs hvalid]
    rfl
  rw [hreopen]
  rw [Nat.succ_mul] at hhi
  -- the walk has ended in the last cluster, or in front of it
  cases hch' with
  | @link _ _ _ _ hrest =>
    cases hrest with
    | done hend =>
      refine .inl ⟨⟨pre, c', size - pre.length * bytesPerCluster super⟩, ?_, rfl, ⟨hch, ?_⟩, ?_, ?_⟩
      · rw [if_neg (Nat.not_lt.mpr hend)]
      · show size - pre.length * bytesPerCluster super ≤ bytesPerCluster super
        omega
      · simp only [Vol.Cursor.pos]
        omega
      · rcases hpos with rfl | hpos
        · exact .inl rfl
        · exact .inr (by show 0 < size - pre.length * bytesPerCluster super; omega)
    | @link _ post hns _ _ =>
      refine .inr ⟨?_, by simp only [List.length_append, List.length_cons]; omega, ?_⟩
      · rw [if_pos (Nat.lt_of_not_le hns)]
      · have hmul : (pre.length + 1) * bytesPerCluster super ≤
            ((pre ++ c' :: (memView super s).next c' :: post).length - 1) * bytesPerCluster super :=
          Nat.mul_le_mul_right _ (by simp)
        rw [Nat.succ_mul] at hmul
        omega

/-! ## Section 5: Directories -/

/-- `InitializeEmptyDirectory` makes a new file of the two dot records and a
    terminator. -/
theorem initializeEmptyDirectory_spec (hs : s.Ok super) (hv : (memView super s).Sane)
    (parentIdx : Nat) :
    Holds (initializeEmptyDirectory super parentIdx) s
      (fun x s' => Kept super s s' ∧ ∃ w, (memView super s).NewChain x
        ((dotRecord (lit ".") x).raw ++ terminated (dotRecord (lit "..") parentIdx))
        (memView super s') w)
      (fun e _ => e = .throw .noFreeCluster ∧ (memView super s).freeSet = ∅) := by
  have hcs := hs.layout.bytesPerCluster_ge
  -- 96 bytes fit into the first cluster
  have hroom : ∀ {s₁ s' : Session} {w : Vol.Cursor} {d₀ d : Bytes} {e : Fail} {first : Nat},
      (memView super s).NewChain first d₀ (memView super s₁) w → OutOfSpace super s₁ w d e s' →
      d₀.length + d.length ≤ 96 →
      e = .throw .noFreeCluster ∧ (memView super s).freeSet = ∅ := by
    intro s₁ s' w d₀ d e first hnew hout hlen
    have hcard := hout.new hs hv hnew hlen
    have hone : Vol.clustersFor (bytesPerCluster super) 96 = 1 := by
      have h : Vol.clustersFor (bytesPerCluster super) (0 * bytesPerCluster super + 96) = 0 + 1 :=
        Vol.clustersFor_eq (by omega) (by omega) (.inl rfl)
      rwa [Nat.zero_mul, Nat.zero_add] at h
    exact ⟨hout.1, Finset.card_eq_zero.mp (by omega)⟩
  unfold initializeEmptyDirectory
  apply holds_bind
  apply (create_spec hs).mono
  · intro wr s₀ h₀
    obtain ⟨hkept₀, htotal₀, hat₀, hnew₀⟩ := h₀
    obtain ⟨hv₀, hw₀⟩ := hnew₀.atEnd hv
    apply holds_bind
    apply (append_spec (hs.kept hkept₀) hv₀ hw₀ hat₀ (by omega) _).mono
    · intro wr₁ s₁ h₁
      obtain ⟨hkept₁, -, htotal₁, w₁, hat₁, happ₁⟩ := h₁
      have hnew₁ := hnew₀.append happ₁
      obtain ⟨hv₁, hw₁⟩ := hnew₁.atEnd hv
      have hok₁ := (hs.kept hkept₀).kept hkept₁
      apply holds_bind
      apply (append_spec hok₁ hv₁ hw₁ hat₁ (htotal₁ ▸ u32_lt _) _).mono
      · intro wr₂ s₂ h₂
        obtain ⟨hkept₂, -, htotal₂, w₂, hat₂, happ₂⟩ := h₂
        have hnew₂ := hnew₁.append happ₂
        obtain ⟨hv₂, hw₂⟩ := hnew₂.atEnd hv
        apply holds_bind
        apply (append_spec (hok₁.kept hkept₂) hv₂ hw₂ hat₂ (htotal₂ ▸ u32_lt _) _).mono
        · intro wr₃ s₃ h₃
          obtain ⟨hkept₃, -, -, w₃, -, happ₃⟩ := h₃
          have hnew₃ := hnew₂.append happ₃
          rw [List.nil_append, List.append_assoc] at hnew₃
          apply holds_pure
          exact ⟨((hkept₀.trans hkept₁).trans hkept₂).trans hkept₃, w₃, hnew₃⟩
        · intro e s₃ h₃
          exact hroom hnew₂ h₃ (by simp [length_dotRecord, length_zero, FatDirent.sizeof])
      · intro e s₂ h₂
        exact hroom hnew₁ h₂ (by simp [length_dotRecord, FatDirent.sizeof])
    · intro e s₁ h₁
      exact hroom hnew₀ h₁ (by simp [length_dotRecord, FatDirent.sizeof])
  · intro e s₀ h₀
    exact ⟨h₀.1, h₀.2.2⟩

/-- `AppendDirectoryEntry` at the end of the records of a directory. It throws
    where the records end in front of the last cluster, and where no cluster is
    left for the record and the terminator. -/
theorem appendDirectoryEntry_spec (hs : s.Ok super) (hv : (memView super s).Sane) {c : Nat}
    {l : List Nat} (hch : (memView super s).Chain c l) (hne : l ≠ []) {size : Nat}
    (hsize : size ≤ l.length * bytesPerCluster super) (hsize32 : size < 2 ^ 32) (isDir : Bool)
    (name : Bytes) (fileCluster fileSize : Nat) :
    Holds (appendDirectoryEntry super c size isDir name fileCluster fileSize) s
      (fun _ s' => Kept super s s' ∧ ∃ w w', w.chain = l ∧ (memView super s).AtEnd c w ∧
        w.pos (bytesPerCluster super) = size ∧ (w.pre = [] ∨ 0 < w.offset) ∧
        (memView super s).Appends w (terminated (entryRecord isDir name fileCluster fileSize))
          (memView super s') w')
      (fun e _ => (e = .throw .chainNotTerminated ∧ 1 < l.length ∧
          size ≤ (l.length - 1) * bytesPerCluster super) ∨
        (e = .throw .noFreeCluster ∧
          ((memView super s).freeSet.card + l.length) * bytesPerCluster super <
            size + (terminated (entryRecord isDir name fileCluster fileSize)).length)) := by
  unfold appendDirectoryEntry
  apply holds_bind
  rw [u32_of_lt hsize32]
  rcases reopen_spec hs hch hne hsize with ⟨w, heq, hchain, hw, hpos, hpre⟩ | ⟨heq, hlen, hle⟩
  · apply holds_reading_ok heq
    apply holds_bind
    apply (append_spec hs hv hw ⟨rfl, rfl⟩ hsize32 _).mono
    · intro wr₁ s₁ h₁
      obtain ⟨hkept₁, -, htotal₁, w₁, hat₁, happ₁⟩ := h₁
      obtain ⟨hv₁, hw₁⟩ := happ₁.atEnd hv hw
      apply holds_bind
      apply (append_spec (hs.kept hkept₁) hv₁ hw₁ hat₁ (htotal₁ ▸ u32_lt _) _).mono
      · intro wr₂ s₂ h₂
        obtain ⟨hkept₂, -, -, w₂, -, happ₂⟩ := h₂
        apply holds_pure
        exact ⟨hkept₁.trans hkept₂, w, w₂, hchain, hw, hpos, hpre, happ₁.trans happ₂⟩
      · intro e s₂ h₂
        have hlt := h₂.card_lt hv₁ hw₁
        -- what the record has taken is missing for the terminator
        have hcard := happ₁.card_freeSet hv hw
        have hpos₁ : w₁.pos (bytesPerCluster super) = w.pos (bytesPerCluster super) + _ :=
          happ₁.pos_eq
        have hsum : (memView super s₁).freeSet.card + w₁.chain.length =
            (memView super s).freeSet.card + l.length := by
          rw [← hchain]
          simp only [Vol.Cursor.chain, List.length_append, List.length_singleton]
          omega
        rw [hsum, hpos₁, hpos] at hlt
        exact .inr ⟨h₂.1, by rw [terminated, List.length_append]; omega⟩
    · intro e s₁ h₁
      have hlt := h₁.card_lt hv hw
      rw [hchain, hpos] at hlt
      exact .inr ⟨h₁.1, by rw [terminated, List.length_append]; omega⟩
  · apply holds_reading
    · intro a ha
      rw [heq] at ha
      cases ha
    · intro e he
      rw [heq] at he
      cases he
      exact .inl ⟨rfl, hlen, hle⟩

end Hausboot.FatEdit

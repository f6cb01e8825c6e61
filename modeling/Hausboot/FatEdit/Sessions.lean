import Hausboot.FatEdit.Commands

/-! # The fatedit Tool: Whole Sessions

    A line of input changes nothing of the volume in memory, or adds one record
    to one directory. This module says so for each command, and derives what
    any number of lines keeps. The loading of the image and the end of `main`
    connect the volume in memory with the one on disk. -/

open ByteLib Prog

namespace Hausboot.FatEdit

open FatDirent Session

variable {super : FatSuper} {s s' : Session}

/-! ## Section 1: Commands that only read -/

/-- Only the output streams differ. -/
structure Session.Quiet (s s' : Session) : Prop where
  file : s'.file = s.file
  fatRaw : s'.fatRaw = s.fatRaw
  fsinfo : s'.fsinfo = s.fsinfo

theorem Session.Quiet.refl (s : Session) : Quiet s s := ⟨rfl, rfl, rfl⟩

theorem Session.Quiet.trans {s'' : Session} (h : Quiet s s') (h' : Quiet s' s'') : Quiet s s'' :=
  ⟨h'.file.trans h.file, h'.fatRaw.trans h.fatRaw, h'.fsinfo.trans h.fsinfo⟩

theorem Session.Quiet.kept (h : Quiet s s') : Kept super s s' where
  front i _ := by rw [h.file]
  size := by rw [h.file]
  fatSize := by rw [h.fatRaw]
  fsinfo := h.fsinfo

theorem Session.Quiet.view (h : Quiet s s') : memView super s' = memView super s := by
  rw [memView, memView, h.file, h.fatRaw]

/-- A program that changes the output streams at most. -/
def ReadsOnly {α : Type} (x : M α) : Prop :=
  ∀ s, Holds x s (fun _ s' => Quiet s s') fun _ s' => Quiet s s'

theorem readsOnly_pure {α : Type} (a : α) : ReadsOnly (pure a) := by
  intro s
  exact holds_pure (Quiet.refl s)

theorem readsOnly_throw {α : Type} (e : Fail) : ReadsOnly (throw e : M α) := by
  intro s
  exact holds_throw (Quiet.refl s)

theorem readsOnly_reading {α : Type} (f : Session → Except Fail α) : ReadsOnly (reading f) := by
  intro s
  apply holds_reading
  · intro a _
    exact Quiet.refl s
  · intro e _
    exact Quiet.refl s

theorem readsOnly_print (d : Bytes) : ReadsOnly (print d) := by
  intro s
  exact holds_modify ⟨rfl, rfl, rfl⟩

theorem ReadsOnly.bind {α β : Type} {x : M α} {f : α → M β} (hx : ReadsOnly x)
    (hf : ∀ a, ReadsOnly (f a)) : ReadsOnly (x >>= f) := by
  intro s
  apply holds_bind
  apply (hx s).mono
  · intro a s₁ h₁
    apply (hf a s₁).mono
    · intro b s₂ h₂
      exact h₁.trans h₂
    · intro e s₂ h₂
      exact h₁.trans h₂
  · intro e s₁ h₁
    exact h₁

theorem readsOnly_listDirectory (super : FatSuper) (args : Bytes) :
    ReadsOnly (listDirectory super args) :=
  (readsOnly_reading _).bind fun _ => readsOnly_print _

theorem readsOnly_dumpLoop (super : FatSuper) (n : Nat) (rd : FileReader) :
    ReadsOnly (dumpLoop super n rd) := by
  induction n generalizing rd with
  | zero => exact readsOnly_throw _
  | succ n ih =>
    unfold dumpLoop
    apply (readsOnly_reading _).bind
    intro it
    dsimp only
    split
    · exact readsOnly_pure ()
    · exact (readsOnly_print _).bind fun _ => ih _

theorem readsOnly_dumpFile (super : FatSuper) (args : Bytes) :
    ReadsOnly (dumpFile super args) := by
  unfold dumpFile
  apply (readsOnly_reading _).bind
  intro ent
  split
  · exact readsOnly_throw _
  · exact readsOnly_dumpLoop super _ _

/-! ## Section 2: One line of input -/

/-- What a line of input can do to the volume: nothing, or one record more. -/
def Step (super : FatSuper) (s s' : Session) : Prop :=
  Quiet s s' ∨ ∃ P size lP r d, Target super s P size lP ∧ Added super s P lP r d s'

theorem callback_spec (hs : s.Ok super) (hwf : (memView super s).WellFormed) (host : Host)
    (c : Command) (args : Bytes) :
    Holds (c.callback super host args) s (fun _ s' => Step super s s')
      (fun e s' => Quiet s s' ∨ ∃ x, e = .throw x) := by
  cases c with
  | dir =>
    apply (readsOnly_listDirectory super args s).mono
    · intro _ s' h
      exact .inl h
    · intro e s' h
      exact .inl h
  | type =>
    apply (readsOnly_dumpFile super args s).mono
    · intro _ s' h
      exact .inl h
    · intro e s' h
      exact .inl h
  -- both writing commands: help was printed, or there is a new record
  | mkdir =>
    apply (createDirectory_spec hs hwf args).mono
    · intro _ s' h
      rcases h with ⟨-, rfl⟩ | ⟨name, parent, size, lP, h⟩
      · exact .inl (Quiet.refl s')
      · exact .inr ⟨_, size, lP, _, _, h.2.2.2.1, h.2.2.2.2⟩
    · intro e s' h
      rcases h with rfl | h
      · exact .inl (Quiet.refl s')
      · exact .inr h
  | pack =>
    apply (packDirectory_spec hs hwf host args).mono
    · intro _ s' h
      rcases h with ⟨-, rfl⟩ | ⟨target, name, parent, size, lP, contents, h⟩
      · exact .inl (Quiet.refl s')
      · exact .inr ⟨_, size, lP, _, _, h.2.2.2.2.2.1, h.2.2.2.2.2.2⟩
    · intro e s' h
      rcases h with rfl | h
      · exact .inl (Quiet.refl s')
      · exact .inr h

/-- A line that does not end the program changes nothing of the volume, or is a
    command that has come to its end. -/
theorem runLine_ok (hs : s.Ok super) (hwf : (memView super s).WellFormed) {host : Host}
    {line : Bytes} (h : runLine super host line s = .ok () s') :
    Quiet s s' ∨ ∃ c args, parseLine line = .command c args ∧
      c.callback super host args s = .ok () s' := by
  unfold runLine at h
  cases hline : parseLine line with
  | ignored =>
    rw [hline] at h
    obtain ⟨-, rfl⟩ := pure_eq_ok.mp h
    exact .inl (Quiet.refl s)
  | unknown line =>
    rw [hline] at h
    obtain rfl : _ = s' := (EStateM.Result.ok.inj h).2
    exact .inl ⟨rfl, rfl, rfl⟩
  | command c args =>
    rw [hline] at h
    have hspec := callback_spec hs hwf host c args
    unfold handled at h
    dsimp only at h
    cases hrun : c.callback super host args s with
    | ok _ s₁ =>
      rw [hrun] at h
      obtain rfl : s₁ = s' := (EStateM.Result.ok.inj h).2
      exact .inr ⟨c, args, rfl, hrun⟩
    | error e s₁ =>
      cases e with
      | throw x =>
        rw [hrun] at h
        cases h
      | refuse msg =>
        rw [hrun] at h
        obtain rfl : _ = s' := (EStateM.Result.ok.inj h).2
        -- a command that refuses has changed nothing
        rcases hspec.of_error hrun with hquiet | ⟨x, hx⟩
        · exact .inl (hquiet.trans ⟨rfl, rfl, rfl⟩)
        · cases hx

theorem runLine_step (hs : s.Ok super) (hwf : (memView super s).WellFormed) {host : Host}
    {line : Bytes} (h : runLine super host line s = .ok () s') : Step super s s' := by
  rcases runLine_ok hs hwf h with hquiet | ⟨c, args, -, hrun⟩
  · exact .inl hquiet
  · exact (callback_spec hs hwf host c args).of_ok hrun

namespace Step

/-- What a step does to the volume. -/
theorem grew (hs : s.Ok super) (hwf : (memView super s).WellFormed) (h : Step super s s') :
    (memView super s' = memView super s) ∨
    ∃ P lP lP' r lr, (memView super s').Sane ∧
      Vol.Grew (memView super s) (memView super s') P lP lP' r lr ∧
      ∀ x, (memView super s').entry x = (memView super s).entry x ∨
        (memView super s').entry x < 2 ^ 28 := by
  rcases h with hquiet | ⟨P, size, lP, r, d, ht, hadded⟩
  · exact .inl hquiet.view
  · obtain ⟨first, lP', lr, -, hsane, hg, -, hentry⟩ := hadded.grew hs hwf ht
    exact .inr ⟨P, lP, lP', r first, lr, hsane, hg, hentry⟩

theorem kept (h : Step super s s') : Kept super s s' := by
  rcases h with hquiet | ⟨P, size, lP, r, d, -, hadded⟩
  · exact hquiet.kept
  · exact hadded.1

theorem wellFormed (hs : s.Ok super) (hwf : (memView super s).WellFormed)
    (h : Step super s s') : (memView super s').WellFormed := by
  rcases h.grew hs hwf with heq | ⟨P, lP, lP', r, lr, hsane, hg, -⟩
  · rwa [heq]
  · exact hg.wellFormed hwf hsane

theorem tidy (hs : s.Ok super) (ht : (memView super s).Tidy) (h : Step super s s') :
    (memView super s').Tidy := by
  rcases h.grew hs ht.toWellFormed with heq | ⟨P, lP, lP', r, lr, hsane, hg, hentry⟩
  · rwa [heq]
  · apply hg.tidy ht hsane
    intro n
    have hold := ht.nibble n
    rcases hentry n with heq | hlt
    · rwa [heq]
    · exact hlt

end Step

/-! ## Section 3: The command loop -/

/-- A session whose volume in memory is well formed. -/
structure Session.Sound (super : FatSuper) (s : Session) : Prop extends s.Ok super where
  wellFormed : (memView super s).WellFormed

theorem Session.Sound.step (hs : s.Sound super) (h : Step super s s') : s'.Sound super :=
  ⟨hs.toOk.kept h.kept, h.wellFormed hs.toOk hs.wellFormed⟩

/-- What every step keeps holds at the end of the command loop. -/
theorem runLines_induct {I : Session → Prop}
    (hstep : ∀ s s', s.Sound super → I s → Step super s s' → I s')
    {input : List (Bytes × Host)} (hs : s.Sound super) (hi : I s)
    (h : runLines super input s = .ok () s') : s'.Sound super ∧ I s' := by
  induction input generalizing s with
  | nil =>
    obtain ⟨-, rfl⟩ := pure_eq_ok.mp h
    exact ⟨hs, hi⟩
  | cons it input ih =>
    obtain ⟨line, host⟩ := it
    unfold runLines at h
    obtain ⟨_, s₁, hline, hrest⟩ := bind_eq_ok.mp h
    have hone := runLine_step hs.toOk hs.wellFormed hline
    exact ih (hs.step hone) (hstep s s₁ hs hi hone) hrest

theorem runLines_sound {input : List (Bytes × Host)} (hs : s.Sound super)
    (h : runLines super input s = .ok () s') : s'.Sound super :=
  (runLines_induct (I := fun _ => True) (fun _ _ _ _ _ => trivial) hs trivial h).1

theorem runLines_kept {input : List (Bytes × Host)} (hs : s.Sound super)
    (h : runLines super input s = .ok () s') : Kept super s s' :=
  (runLines_induct (I := Kept super s) (fun _ _ _ hi hone => hi.trans hone.kept) hs Kept.rfl h).2

/-- A tidy volume stays tidy. -/
theorem runLines_tidy {input : List (Bytes × Host)} (hs : s.Ok super)
    (ht : (memView super s).Tidy) (h : runLines super input s = .ok () s') :
    (memView super s').Tidy :=
  (runLines_induct (I := fun s => (memView super s).Tidy) (fun _ _ hsound hi hone => hone.tidy hsound.toOk hi)
    ⟨hs, ht.toWellFormed⟩ ht h).2

end Hausboot.FatEdit

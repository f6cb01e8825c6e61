import Hausboot.FatEdit.Disk
import Hausboot.Lib.Relate

/-! # The fatedit Tool: Writers Print Nothing

    What works on clusters and on the FAT leaves the output streams alone. Only
    `PackDirectory` itself prints a line, between the file and its record. -/

open ByteLib Prog

namespace Hausboot.FatEdit

variable {super : FatSuper} {α β : Type}

/-- The output streams are the same. -/
structure Session.Silent (s s' : Session) : Prop where
  cout : s'.cout = s.cout
  cerr : s'.cerr = s.cerr

open Session

theorem Session.Silent.refl (s : Session) : Silent s s := ⟨rfl, rfl⟩

theorem Session.Silent.trans (s₁ s₂ s₃ : Session) (h : Silent s₁ s₂) (h' : Silent s₂ s₃) :
    Silent s₁ s₃ :=
  ⟨h'.cout.trans h.cout, h'.cerr.trans h.cerr⟩

/-- A program that prints nothing. -/
abbrev PrintsNothing (x : M α) : Prop := Keeps Silent x

theorem PrintsNothing.andThen {x : M α} {f : α → M β} (hx : PrintsNothing x)
    (hf : ∀ a, PrintsNothing (f a)) : PrintsNothing (x >>= f) :=
  Keeps.bind Silent.trans hx hf

theorem printsNothing_pure (a : α) : PrintsNothing (pure a : M α) := keeps_pure Silent.refl a

theorem printsNothing_throw (e : Fail) : PrintsNothing (throw e : M α) :=
  keeps_throw Silent.refl e

theorem printsNothing_get : PrintsNothing (get : M Session) := fun s => holds_get (Silent.refl s)

theorem printsNothing_reading (f : Session → Except Fail α) : PrintsNothing (reading f) :=
  fun s => holds_reading (fun _ _ => Silent.refl s) fun _ _ => Silent.refl s

theorem printsNothing_writeFile (offset : Nat) (d : Bytes) : PrintsNothing (writeFile offset d) := by
  intro s
  unfold Holds writeFile
  cases hwrite : s.file.writeAt offset d with
  | ok f => exact ⟨rfl, rfl⟩
  | error e => exact Silent.refl s

theorem printsNothing_setEntry (N value : Nat) : PrintsNothing (setEntry N value) := by
  refine keeps_modify fun s => ?_
  dsimp only
  split
  · exact Silent.refl s
  · exact ⟨rfl, rfl⟩

/-! ## Section 1: Allocation -/

theorem printsNothing_allocateCluster : PrintsNothing (allocateCluster super) := by
  apply (printsNothing_reading _).andThen
  intro out
  split
  · exact printsNothing_throw _
  · exact (printsNothing_setEntry _ _).andThen fun _ => printsNothing_pure _

theorem printsNothing_allocateClusterAfter (last : Nat) :
    PrintsNothing (allocateClusterAfter super last) :=
  printsNothing_allocateCluster.andThen fun _ =>
    (printsNothing_setEntry _ _).andThen fun _ => printsNothing_pure _

theorem printsNothing_create : PrintsNothing (FileWriter.create super) :=
  printsNothing_allocateCluster.andThen fun _ => printsNothing_pure _

/-! ## Section 2: Writers -/

theorem printsNothing_appendLoop (n : Nat) (wr : FileWriter) (data : Bytes) :
    PrintsNothing (wr.appendLoop super n data) := by
  induction n generalizing wr data with
  | zero => exact printsNothing_pure _
  | succ n ih =>
    unfold FileWriter.appendLoop
    split
    · exact printsNothing_pure _
    · dsimp only
      split
      · exact (printsNothing_allocateClusterAfter _).andThen fun _ => ih _ _
      · exact (printsNothing_writeFile _ _).andThen fun _ => ih _ _

theorem printsNothing_append (wr : FileWriter) (data : Bytes) :
    PrintsNothing (wr.append super data) :=
  printsNothing_appendLoop _ _ _

theorem printsNothing_initializeEmptyDirectory (parentIdx : Nat) :
    PrintsNothing (initializeEmptyDirectory super parentIdx) :=
  printsNothing_create.andThen fun _ => (printsNothing_append _ _).andThen fun _ =>
    (printsNothing_append _ _).andThen fun _ => (printsNothing_append _ _).andThen fun _ =>
      printsNothing_pure _

theorem printsNothing_appendDirectoryEntry (cluster size : Nat) (isDir : Bool) (name : Bytes)
    (fileCluster fileSize : Nat) :
    PrintsNothing (appendDirectoryEntry super cluster size isDir name fileCluster fileSize) :=
  (printsNothing_reading _).andThen fun _ => (printsNothing_append _ _).andThen fun _ =>
    (printsNothing_append _ _).andThen fun _ => printsNothing_pure _

theorem printsNothing_packLoop (fails : Bool) (n : Nat) (wr : FileWriter) (rest : Bytes) :
    PrintsNothing (packLoop super fails n wr rest) := by
  induction n generalizing wr rest with
  | zero => exact printsNothing_throw _
  | succ n ih =>
    unfold packLoop
    split
    · exact printsNothing_throw _
    · split
      · exact printsNothing_pure _
      · exact (printsNothing_append _ _).andThen fun _ => ih _ _

end Hausboot.FatEdit

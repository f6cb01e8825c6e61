import Hausboot.Pm86.A20
import Hausboot.Stage2.Started

/-! # The stage2 Boot Loader: High Memory and the A20 Line

    stage2 on a machine whose A20 line has been dealt with by `EnableA20`.
    Nothing is moved to high memory and no kernel is started unless the line was
    on then, so that no byte ends up 1 MiB below its address. -/

namespace Hausboot

open A20

variable {D : Type} {w : World} {v : Volume} {mc : Machine} {hw : Hardware D} {s : Pc D} {fuel : ℕ}

/-- The machine after `EnableA20`. -/
def Machine.enabledBy (mc : Machine) (hw : Hardware D) (s : Pc D) : Machine :=
  { mc with enableA20 := (hw.run s A20.enableA20).1 }

/-- Without the line, the first thing behind the block device is a message. -/
theorem main_off {out : Outcome} {st : Boot} {calls : List Call} (hoff : mc.enableA20 = false)
    (hmain : main w v mc fuel = some (out, st, calls)) : out = .halted ∧ st.pmCalls = [] := by
  obtain ⟨⟨part, heap⟩, -, hmain⟩ := Option.bind_eq_some_iff.mp hmain
  dsimp only at hmain
  split at hmain
  · cases hmain
    exact ⟨rfl, rfl⟩
  · rw [if_pos (by simp [hoff])] at hmain
    cases hmain
    exact ⟨rfl, rfl⟩

/-- **No call without the line.** On any hardware, stage2 moves and clears memory
    in protected mode, and starts a kernel, only if `EnableA20` has left the line
    on. -/
theorem main_line {out : Outcome} {st : Boot} {calls : List Call}
    (hmain : main w v (mc.enabledBy hw s) fuel = some (out, st, calls))
    (huse : st.pmCalls ≠ [] ∨ out ≠ .halted) : (hw.run s A20.enableA20).2.line = true := by
  cases hres : (hw.run s A20.enableA20).1 with
  | true => exact enableA20_sound s hres
  | false =>
    obtain ⟨rfl, hcalls⟩ := main_off hres hmain
    rcases huse with h | h
    · exact absurd hcalls h
    · exact absurd rfl h

set_option maxRecDepth 3000

/-- The line that the system control port has switched, and a kernel that is
    started behind it. -/
theorem main_line_twoKernels :
    (fastOnly.run ⟨fun _ => 0, false, ()⟩ A20.enableA20).2.line = true := by
  have hsame : sampleMachine.enabledBy fastOnly ⟨fun _ => 0, false, ()⟩ = sampleMachine := by
    have hon : (fastOnly.run ⟨fun _ => 0, false, ()⟩ A20.enableA20).1 = true := by decide
    rw [Machine.enabledBy, hon]
    rfl
  obtain ⟨st, calls, hmain, -⟩ := main_twoKernels
  rw [← hsame] at hmain
  exact main_line hmain (.inr Outcome.noConfusion)

end Hausboot

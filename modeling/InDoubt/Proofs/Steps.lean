import InDoubt.Proofs.Operations
import InDoubt.Proofs.Run

/-!
Steps by what they leave alone. Half of them see to processes and handles: they start a log, move
or register it, claim identifiers, or list branches as in doubt, and touch neither a file nor a
registry (`step_clerical`). What others do to the files changes nothing else (`step_outside`), and
enlisting does to the files what recording does (`files_step_enlist`).
-/

namespace InDoubt.World

/-- The steps that see to processes and handles alone. -/
def isClerical : Step → Bool
  | .openLog _ _ | .relocate _ _ | .bind _ _ _ | .mark _ | .doubtVia _ _ | .register _
  | .unregister _ | .claim _ _ | .unclaim _ _ | .doubt _ _ | .settle _ _ => true
  | _ => false

variable {w : World} {s : Step}

theorem step_clerical (h : isClerical s = true) :
    ∃ processes branches callbacks, (w.step s).2 = { w with processes, branches, callbacks } := by
  cases s with
  | relocate p base =>
      simp only [step, relocate]
      split
      · exact ⟨_, _, _, rfl⟩
      · exact ⟨_, _, _, rfl⟩
  | unregister p =>
      simp only [step, unregister]
      split
      · exact ⟨_, _, _, rfl⟩
      · exact ⟨_, _, _, rfl⟩
  | openLog config node | bind r l node | mark b | doubtVia r b | register p | claim p id
  | unclaim p id | doubt p bs | settle p b => exact ⟨_, _, _, rfl⟩
  | _ => cases h

theorem files_step (h : isClerical s = true) : (w.step s).2.files = w.files := by
  obtain ⟨_, _, _, e⟩ := step_clerical (w := w) h
  rw [e]

theorem registries_step (h : isClerical s = true) : (w.step s).2.registries = w.registries := by
  obtain ⟨_, _, _, e⟩ := step_clerical (w := w) h
  rw [e]

theorem step_outside (w : World) (change : FileStep) :
    (w.step (.outside change)).2 = { w with files := (w.files.apply change).2 } := by
  simp only [step]
  split <;> rename_i e <;> rw [e]

theorem files_step_enlist (w : World) (r : RegistryRef) (l : Locator) (node : String) :
    (w.step (.enlist r l node)).2.files = (w.step (.record r l)).2.files :=
  files_enlist w r l node

end InDoubt.World

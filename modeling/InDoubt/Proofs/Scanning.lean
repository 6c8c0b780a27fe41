import InDoubt.Proofs.Operations

/-!
What a scan does to a world. Each file that the process does not own is recovered on its own, so
what the recovery of one file keeps is kept by a scan, by a sweep and by a sweep of the host.
-/

namespace InDoubt.World

variable {w : World} {p : ProcessRef} {r : RegistryRef} {dir id path : String}

/-- The recovery of one file changes at most the tree, or it adopts the locators that were read. -/
theorem recover_cases (w : World) (p : ProcessRef) (dir id : String) :
    (∃ outcome files, (∀ r, outcome ≠ .recovered r) ∧
      (files = w.files ∨ w.files.readRecords (joinPath dir id) = .ok [] ∧
        files = w.files.unlinkUnlocked (joinPath dir id)) ∧
      w.recover p dir id = (outcome, { w with files })) ∨
    ∃ l ls, w.files.readRecords (joinPath dir id) = .ok (l :: ls) ∧
      w.recover p dir id = (.recovered ⟨w.registries.length⟩,
        (w.adopt p id (joinPath dir id) (l :: ls)).2) := by
  simp only [recover]
  split
  · exact .inl ⟨_, w.files, by simp, .inl rfl, rfl⟩
  · exact .inl ⟨_, w.files, by simp, .inl rfl, rfl⟩
  · rename_i h
    exact .inl ⟨_, _, by simp, .inr ⟨h, rfl⟩, rfl⟩
  · rename_i l ls h
    exact .inr ⟨l, ls, h, rfl⟩

/-! The world after an adoption. -/

section Adopt

variable (w p id path) (ls : List Locator)

theorem registries_adopt : (w.adopt p id path ls).2.registries =
    w.registries ++ [⟨p, id, path, .recovered, ls.length⟩] := rfl

theorem branches_adopt : (w.adopt p id path ls).2.branches =
    w.branches ++ ls.map (Branch.mk · (w.process p).node ⟨w.registries.length⟩) := rfl

theorem processes_adopt : (w.adopt p id path ls).2.processes =
    w.processes.modify p.index fun proc => { proc with
      openIds := proc.openIds.insert id
      inDoubt := proc.inDoubt ++
        (List.range ls.length).map fun i => BranchRef.mk (w.branches.length + i) } :=
  List.modify_modify_eq ..

variable {w p}

theorem process_adopt (running : p.index < w.processes.length) :
    (w.adopt p id path ls).2.process p =
      { w.process p with
        openIds := (w.process p).openIds.insert id
        inDoubt := (w.process p).inDoubt ++
          (List.range ls.length).map fun i => BranchRef.mk (w.branches.length + i) } := by
  rw [process_congr (w := w.updateProcess p _) (processes_adopt ..)]
  exact process_updateProcess_self running _

end Adopt

/-! What is kept by the recovery of one file is kept by a scan. -/

theorem recoverAll_induction {I : World → Prop} {ids : List String}
    (step : ∀ {v id}, id ∈ ids → id ∉ (v.process p).openIds → I v → I (v.recover p dir id).2)
    (h : I w) : I (recoverAll p dir ids w).2 := by
  induction ids generalizing w with
  | nil => exact h
  | cons id rest ih =>
      have later {v : World} : I v → I (recoverAll p dir rest v).2 :=
        ih fun hm => step (List.mem_cons_of_mem _ hm)
      simp only [recoverAll]
      split
      · exact later h
      · rename_i free
        exact later (step List.mem_cons_self free h)

/-- What holds whatever the files, and is kept by adoptions, is kept by a scan. -/
theorem scan_induction {I : World → Prop}
    (tree : ∀ {v : World} files, I v → I { v with files })
    (adopt : ∀ {v id path l ls}, id ∉ (v.process p).openIds → I v →
      I (v.adopt p id path (l :: ls)).2)
    (during : List FileStep) (h : I w) : I (w.scan p during).2 := by
  simp only [scan]
  split
  · exact h
  · apply recoverAll_induction _ (tree _ h)
    intro v id _ free hv
    obtain ⟨_, files, -, -, e⟩ | ⟨l, ls, -, e⟩ := recover_cases v p (w.process p).dir id
    · rw [e]; exact tree files hv
    · rw [e]; exact adopt free hv

theorem sweepEach_induction {I : World → Prop} {ps : List ProcessRef}
    (step : ∀ {v p}, p ∈ ps → I v → I (v.scan p []).2) (h : I w) :
    I (sweepEach ps w).2 := by
  induction ps generalizing w with
  | nil => exact h
  | cons p rest ih =>
      exact ih (fun hm => step (List.mem_cons_of_mem _ hm)) (step List.mem_cons_self h)

end InDoubt.World

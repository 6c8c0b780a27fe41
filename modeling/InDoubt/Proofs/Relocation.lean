import InDoubt.Proofs.Backing

/-!
Moving the directory of a log. A registry keeps the path that it was entered with, so a move that
leaves one behind would hide its file from later scans. The move looks at the size of the open set
alone. Along a disciplined run the open set counts exactly the registries that have been entered and
not deleted (`Ownership.listed`), and every one of them has been entered in the directory that the
log still has (`Homed.step`), through failed creations, scans and deletions alike.
-/

namespace InDoubt.World

variable {w : World} {p : ProcessRef} {r : RegistryRef} {s : Step} {steps : List Step}
  {files : FileSystem} {kept : RegistryRef → Prop}

/-- A disciplined step that creates no registry of the process outside the directory of its log. -/
def Homebound (p : ProcessRef) (w : World) (s : Step) : Prop :=
  Disciplined p w s ∧
    match s with
    | .createIn q dir _ => q = p → dir = (w.process p).dir
    | _ => True

instance (p : ProcessRef) (w : World) : (s : Step) → Decidable (Homebound p w s)
  | .createIn q dir _ => inferInstanceAs (Decidable (_ ∧ (q = p → dir = (w.process p).dir)))
  | .outside _ | .openLog _ _ | .crash _ | .relocate _ _ | .create _ _ | .record _ _ | .enlist _ _ _
  | .bind _ _ _ | .release _ | .releaseFrom _ _ | .mark _ | .doubtVia _ _ | .scan _ _ | .sweep _ _
  | .register _ | .unregister _ | .hostSweep | .claim _ _ | .unclaim _ _ | .doubt _ _
  | .settle _ _ => inferInstanceAs (Decidable (_ ∧ True))

/-- These registries have their paths in the directory that the log of the process has now. -/
def Homed (w : World) (p : ProcessRef) (kept : RegistryRef → Prop) : Prop :=
  ∀ {r}, kept r → (w.registry r).path = joinPath (w.process p).dir (w.registry r).id

/-- What a process owns can be counted: it is a list as long as the open set. -/
theorem Ownership.listed (h : Ownership w p kept) :
    ∃ owned : List RegistryRef, owned.Nodup ∧ (∀ r, r ∈ owned ↔ kept r) ∧
      (w.process p).openIds.size = owned.length := by
  classical
  let owned := ((List.range w.registries.length).map RegistryRef.mk).filter kept
  have mem (r : RegistryRef) : r ∈ owned ↔ kept r := by
    simp only [owned, List.mem_filter, List.mem_map, List.mem_range, decide_eq_true_eq]
    exact and_iff_right_of_imp fun hr => ⟨r.index, (h.known hr).1, rfl⟩
  have unique : owned.Nodup := by
    refine (List.nodup_range.map ?_).filter _
    intro i j same
    exact congrArg RegistryRef.index same
  have ids : (owned.map fun r => (w.registry r).id).Nodup := by
    refine unique.map_on ?_
    intro r hr r' hr' same
    exact h.distinct ((mem r).mp hr) ((mem r').mp hr') same
  have same : (w.process p).openIds.ids.Perm (owned.map fun r => (w.registry r).id) := by
    refine (List.perm_ext_iff_of_nodup (w.process p).openIds.nodup ids).mpr fun id => ?_
    simp only [List.mem_map, mem]
    exact h.mem_iff id
  exact ⟨owned, unique, mem, same.length_eq.trans (List.length_map _)⟩

/-- A log moves only while its process owns nothing. -/
theorem station_step (runs : s ≠ .crash p) {id : String} (held : id ∈ (w.process p).openIds) :
    ((w.step s).2.process p).station = (w.process p).station := by
  by_cases settled : unsettles s = false
  · exact (settled_step w settled).station p
  cases s with
  | openLog config node =>
      have there : p.index < w.processes.length := by
        by_contra out
        rw [process_of_le (Nat.le_of_not_lt out)] at held
        exact OpenSet.not_mem_empty id held
      exact congrArg Process.station (process_openLog_of_lt config node there)
  | crash q =>
      have other : p ≠ q := fun same => runs (congrArg Step.crash same.symm)
      have alone := congrArg Process.station (process_crash_of_ne (w := w) other)
      exact alone.trans ((settled_unregister w q).station p)
  | relocate q base =>
      simp only [step, relocate]
      split
      · rfl
      · rename_i nothing
        have other : p ≠ q := by
          rintro rfl
          exact nothing (List.length_pos_of_mem held)
        exact congrArg Process.station (process_updateProcess_of_ne other _)
  | _ => exact absurd rfl settled

/-- A step that enters registries moves no log. -/
theorem settled_of_entered (hr : Entered w (w.step s).2 p r) : Settled w (w.step s).2 := by
  refine settled_step w ?_
  cases s with
  | openLog config node => exact absurd hr (not_entered (length_registries_step rfl))
  | crash q => exact absurd hr (not_entered (length_registries_step rfl))
  | relocate q base => exact absurd hr (not_entered (length_registries_step rfl))
  | _ => rfl

theorem path_scan (q : ProcessRef) (during : List FileStep)
    (hr : Entered w (w.scan q during).2 p r) :
    ((w.scan q during).2.registry r).path =
      joinPath (w.process p).dir ((w.scan q during).2.registry r).id := by
  obtain ⟨ge, lt, own⟩ := hr
  obtain ⟨id, n, e⟩ := registry_scan_new q during ge lt
  rw [e] at own ⊢
  exact own ▸ rfl

theorem path_createIn {q : ProcessRef} {dir : String} {xid : Xid}
    (inside : q = p → dir = (w.process p).dir) (hr : Entered w (w.createIn q dir xid).2 p r) :
    ((w.createIn q dir xid).2.registry r).path =
      joinPath (w.process p).dir ((w.createIn q dir xid).2.registry r).id := by
  obtain ⟨ge, lt, own⟩ := hr
  obtain ⟨inode, e⟩ := registry_createIn_new ge lt
  rw [e] at own ⊢
  rw [← inside own]

theorem path_hostSweep (hr : Entered w w.hostSweep.2 p r) :
    (w.hostSweep.2.registry r).path =
      joinPath (w.process p).dir (w.hostSweep.2.registry r).id := by
  refine (sweepEach_induction (I := fun v => Extends w v ∧ Settled w v ∧ ∀ {r}, Entered w v p r →
      (v.registry r).path = joinPath (w.process p).dir (v.registry r).id)
    ?_ ⟨.refl w, .of_eq rfl, fun hr => absurd hr (not_entered rfl)⟩).2.2 hr
  rintro v q - ⟨extended, settled, homed⟩
  have more := extends_scan v q []
  refine ⟨extended.trans more, settled.trans (settled_scan v q []), fun {r} hr => ?_⟩
  rcases (entered_trans extended more).mp hr with old | new
  · rw [more.path old.2.1, more.id old.2.1]
    exact homed old
  · have same : (v.process p).dir = (w.process p).dir := congrArg (·.1) (settled.station p)
    rw [← same]
    exact path_scan q [] new

/-- What a step enters is in the directory of the log, which is where it was. -/
theorem path_entered (allowed : Homebound p w s) (hr : Entered w (w.step s).2 p r) :
    ((w.step s).2.registry r).path =
      joinPath (w.process p).dir ((w.step s).2.registry r).id := by
  by_cases entering : enters s = true
  · cases s with
    | create q xid => exact path_createIn (fun own => own ▸ rfl) hr
    | createIn q dir xid => exact path_createIn allowed.2 hr
    | scan q during | sweep q during => exact path_scan q during hr
    | hostSweep => exact path_hostSweep hr
    | _ => cases entering
  · exact absurd hr (not_entered (length_registries_step (Bool.not_eq_true _ ▸ entering)))

/-- The registries that are kept are still at home after a step, and so are those entered. -/
theorem Homed.step (homed : Homed w p kept) (owned : Ownership w p kept)
    (allowed : Homebound p w s) :
    Homed (w.step s).2 p fun r => kept r ∧ ¬w.Deletes s r ∨ Entered w (w.step s).2 p r := by
  have extended := extends_step w s
  rintro r (⟨hr, -⟩ | new)
  · have there := (owned.known hr).1
    have runs : s ≠ .crash p := by
      rintro rfl
      exact allowed.1.2 rfl
    have same : ((w.step s).2.process p).dir = (w.process p).dir :=
      congrArg (·.1) (station_step runs ((owned.mem_iff _).mpr ⟨r, hr, rfl⟩))
    rw [extended.path there, extended.id there, same]
    exact homed hr
  · have same : ((w.step s).2.process p).dir = (w.process p).dir :=
      congrArg (·.1) ((settled_of_entered new).station p)
    rw [same]
    exact path_entered allowed new

theorem homed_along (h : Along (Homebound p) steps (ofFiles files)) :
    Homed (after steps (ofFiles files)) p (Undeleted p steps (ofFiles files)) := by
  refine along_induction
    (I := fun past w => Homed w p (Undeleted p past (ofFiles files)))
    (fun hr => absurd hr.1 (Nat.not_lt_zero _)) ?_ steps h
  intro past s earlier allowed homed r hr
  have owned := ownership_along (earlier.mono fun _ _ => And.left)
  exact homed.step owned allowed (undeleted_concat.mp hr)

/-- A move is refused with the size of the open set, or it only moves the log. -/
theorem relocate_of_size {n : Nat} (size : (w.process p).openIds.size = n) (base : String) :
    w.relocate p base =
      if n = 0 then (.ok (), w.updateProcess p fun proc => { proc with dir := recoveryDir base })
      else (.error (.registriesOpen n), w) := by
  subst size
  simp only [relocate, Nat.pos_iff_ne_zero, ite_not]

/-- At every point of a disciplined run that creates nothing elsewhere, the registries that a
process has created or recovered and not deleted are in the directory of its log. The log can be
moved exactly if there are none; else the failure tells how many there are, and nothing changes. -/
theorem relocate_exact (h : Along (Homebound p) steps (ofFiles files)) :
    let w := after steps (ofFiles files)
    let undeleted := Undeleted p steps (ofFiles files)
    (∀ r, undeleted r → (w.registry r).path = joinPath (w.process p).dir (w.registry r).id) ∧
      ∃ owned : List RegistryRef, owned.Nodup ∧ (∀ r, r ∈ owned ↔ undeleted r) ∧
        ∀ base,
          (owned = [] → w.relocate p base =
            (.ok (), w.updateProcess p fun proc => { proc with dir := recoveryDir base })) ∧
          (owned ≠ [] → ∃ f, w.relocate p base = (.error f, w) ∧
            f = .registriesOpen owned.length ∧
            f.message = "Configuration error: cannot move recovery directory while " ++
              toString owned.length ++ " registries are open") := by
  intro w undeleted
  have owned := ownership_along (h.mono fun _ _ => And.left)
  obtain ⟨list, unique, mem, size⟩ := owned.listed
  refine ⟨fun r hr => homed_along h hr, list, unique, mem, fun base => ⟨?_, ?_⟩⟩
  · rintro rfl
    exact relocate_of_size size base
  · intro undeleted
    refine ⟨_, ?_, rfl, rfl⟩
    rw [relocate_of_size size base, if_neg (mt List.length_eq_zero_iff.mp undeleted)]

/-- A log is moved before it owns anything. It then recovers a registry and creates one, and is
refused a move. The file of the first turns into a directory, so that its last release cannot
delete it. -/
def unmoved : List Step :=
  let dir := "b/xa-recovery"
  let found := joinPath dir "abandoned"
  [.openLog {} "n", .relocate ⟨0⟩ "b",
    .outside (.makeDirectories (Utf8.encode dir)),
    .outside (.write (Utf8.encode found) (Utf8.encode (Record.encode .sample))),
    .scan ⟨0⟩ [], .create ⟨0⟩ .sample, .create ⟨0⟩ .sample, .relocate ⟨0⟩ "c",
    .outside (.unlink (Utf8.encode found)), .outside (.makeDirectories (Utf8.encode found)),
    .release ⟨0⟩, .sweep ⟨0⟩ []]

theorem relocate_exact_unmoved :
    let w := after unmoved (ofFiles .empty)
    let undeleted := Undeleted ⟨0⟩ unmoved (ofFiles .empty)
    Along (Homebound ⟨0⟩) unmoved (ofFiles .empty) ∧ undeleted ⟨0⟩ ∧ undeleted ⟨1⟩ ∧
      w.relocate ⟨0⟩ "d" = (.error (.registriesOpen 2), w) ∧
      ∀ r, undeleted r → (w.registry r).path = joinPath "b/xa-recovery" (w.registry r).id := by
  have allowed : Along (Homebound ⟨0⟩) unmoved (ofFiles .empty) := by decide +kernel
  have moved : ((after unmoved (ofFiles .empty)).process ⟨0⟩).dir = "b/xa-recovery" := by
    decide +kernel
  have homed := (relocate_exact allowed).1
  rw [moved] at homed
  have first : Undeleted ⟨0⟩ unmoved (ofFiles .empty) ⟨0⟩ := by
    simp only [Undeleted]
    decide +kernel
  have second : Undeleted ⟨0⟩ unmoved (ofFiles .empty) ⟨1⟩ := by
    simp only [Undeleted]
    decide +kernel
  exact ⟨allowed, first, second, by decide +kernel, homed⟩

end InDoubt.World

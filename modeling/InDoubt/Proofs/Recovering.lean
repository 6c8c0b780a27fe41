import InDoubt.Proofs.Scanning

/-!
What is recovered under names that have records. The names that have any are recovered in their
order (`Recovers`), each as one registry with a branch in doubt for each record. Nothing is said of
the files, which may be read in whatever way.
-/

namespace InDoubt.World

variable {v w : World} {q : ProcessRef} {dir node : String} {ids : List String}
  {records : String → List Locator} {o : ScanReport}

/-- The identifiers that have records. -/
def recorded (records : String → List Locator) (ids : List String) : List String :=
  ids.filter (records · ≠ [])

/-- The registry that recovery makes of a file. -/
def recoveredRegistry (q : ProcessRef) (dir id : String) (ls : List Locator) : Registry :=
  ⟨q, id, joinPath dir id, .recovered, ls.length⟩

/-- The branches that recovery makes of files, if the registries are entered from `first` on. -/
def recoveredBranches (records : String → List Locator) (node : String) : List String → Nat →
    List Branch
  | [], _ => []
  | id :: rest, first =>
      (records id).map (Branch.mk · node ⟨first⟩) ++ recoveredBranches records node rest (first + 1)

/-- References to registries that are entered from `first` on. -/
def registryRefs (first number : Nat) : List RegistryRef :=
  (List.range number).map fun i => ⟨first + i⟩

/-- References to branches that are entered from `first` on. -/
def branchRefs (first number : Nat) : List BranchRef :=
  (List.range number).map fun i => ⟨first + i⟩

theorem registryRefs_succ (first number : Nat) :
    registryRefs first (number + 1) = ⟨first⟩ :: registryRefs (first + 1) number := by
  simp [registryRefs, List.range_succ_eq_map, Function.comp_def, Nat.add_assoc, Nat.add_comm 1]

theorem branchRefs_add (first m n : Nat) :
    branchRefs first (m + n) = branchRefs first m ++ branchRefs (first + m) n := by
  simp [branchRefs, List.range_add, Nat.add_assoc]

theorem map_registry_refs {gs : List Registry} (h : v.registries = w.registries ++ gs) :
    (registryRefs w.registries.length gs.length).map v.registry = gs := by
  refine List.ext_getElem (by simp [registryRefs]) ?_
  intro i _ lt
  simp [registryRefs, registry, h, lt]

theorem map_branch_refs {bs : List Branch} (h : v.branches = w.branches ++ bs) :
    (branchRefs w.branches.length bs.length).map v.branch = bs := by
  refine List.ext_getElem (by simp [branchRefs]) ?_
  intro i _ lt
  simp [branchRefs, branch, h, lt]

theorem recoveredBranches_congr {records' : String → List Locator} {node : String} {first : Nat}
    (same : ∀ {id}, id ∈ ids → records id = records' id) :
    recoveredBranches records node ids first = recoveredBranches records' node ids first := by
  induction ids generalizing first with
  | nil => rfl
  | cons id rest ih =>
      rw [recoveredBranches, recoveredBranches, same List.mem_cons_self,
        ih fun mem => same (List.mem_cons_of_mem _ mem)]

/-- Registries have been recovered from all files that have records, and nothing else was done to
the registries, the branches and the branches in doubt. -/
structure Recovers (q : ProcessRef) (dir : String) (records : String → List Locator)
    (ids : List String) (w : World) (o : ScanReport) (v : World) : Prop where
  failures : o.failures = []
  recovered : o.recovered = registryRefs w.registries.length (recorded records ids).length
  registries : v.registries = w.registries ++
    (recorded records ids).map fun id => recoveredRegistry q dir id (records id)
  branches : v.branches = w.branches ++
    recoveredBranches records (w.process q).node (recorded records ids) w.registries.length
  inDoubt : (v.process q).inDoubt = (w.process q).inDoubt ++ branchRefs w.branches.length
    (recoveredBranches records (w.process q).node (recorded records ids) w.registries.length).length

namespace Recovers

theorem nil : Recovers q dir records [] w ⟨[], []⟩ w := by
  refine ⟨rfl, ?_, ?_, ?_, ?_⟩ <;>
    simp [recorded, recoveredBranches, registryRefs, branchRefs]

/-- One file without records is passed by. -/
theorem skip {id : String} {files : FileSystem} (empty : records id = [])
    (h : Recovers q dir records ids { w with files } o v) :
    Recovers q dir records (id :: ids) w (Recovery.nothing.addTo o) v := by
  have same : recorded records (id :: ids) = recorded records ids := by simp [recorded, empty]
  refine ⟨h.failures, ?_, ?_, ?_, ?_⟩ <;> rw [same]
  · exact h.recovered
  · exact h.registries
  · exact h.branches
  · exact h.inDoubt

/-- One file with records is recovered. -/
theorem adopt {id : String} (running : q.index < w.processes.length) (nonempty : records id ≠ [])
    (h : Recovers q dir records ids (w.adopt q id (joinPath dir id) (records id)).2 o v) :
    Recovers q dir records (id :: ids) w
      ((Recovery.recovered ⟨w.registries.length⟩).addTo o) v := by
  have more : recorded records (id :: ids) = id :: recorded records ids := by
    simp [recorded, nonempty]
  have process : (w.adopt q id (joinPath dir id) (records id)).2.process q =
      { w.process q with
        openIds := (w.process q).openIds.insert id
        inDoubt := (w.process q).inDoubt ++ branchRefs w.branches.length (records id).length } :=
    process_adopt _ _ _ running
  have length : (w.adopt q id (joinPath dir id) (records id)).2.registries.length =
      w.registries.length + 1 := by
    simp [registries_adopt]
  refine ⟨h.failures, ?_, ?_, ?_, ?_⟩ <;> rw [more]
  · rw [List.length_cons, registryRefs_succ]
    simp only [Recovery.addTo, h.recovered, length]
  · rw [h.registries, registries_adopt, List.append_assoc]
    rfl
  · rw [h.branches, branches_adopt, length, process, List.append_assoc]
    rfl
  · rw [h.inDoubt, length, process, branches_adopt, List.length_append, List.length_map,
      List.append_assoc, recoveredBranches, List.length_append, List.length_map, branchRefs_add]

/-- Only the records of the files themselves matter. -/
theorem congr {records' : String → List Locator} (h : Recovers q dir records ids w o v)
    (same : ∀ id ∈ ids, records id = records' id) : Recovers q dir records' ids w o v := by
  have filled : recorded records ids = recorded records' ids :=
    List.filter_congr fun id mem => by rw [same id mem]
  have same {id : String} (mem : id ∈ recorded records' ids) : records id = records' id :=
    same id (List.mem_filter.mp mem).1
  obtain ⟨failures, recovered, registries, branches, inDoubt⟩ := h
  rw [filled] at recovered registries branches inDoubt
  rw [recoveredBranches_congr same] at branches inDoubt
  refine ⟨failures, recovered, registries.trans ?_, branches, inDoubt⟩
  exact congrArg _ (List.map_congr_left fun id mem => by rw [same mem])

end Recovers

/-! What has been recovered. -/

/-- The branches that a process has in doubt of one registry. -/
def inDoubtOf (w : World) (q : ProcessRef) (r : RegistryRef) : List BranchRef :=
  (w.process q).inDoubt.filter fun b => (w.branch b).registry = r

theorem bounds_of_mem_recoveredBranches {first : Nat} {b : Branch}
    (mem : b ∈ recoveredBranches records node ids first) :
    first ≤ b.registry.index ∧ b.registry.index < first + ids.length := by
  induction ids generalizing first with
  | nil => cases mem
  | cons id rest ih =>
      rw [List.length_cons]
      rcases List.mem_append.mp mem with here | later
      · obtain ⟨l, -, rfl⟩ := List.mem_map.mp here
        exact ⟨Nat.le_refl first, by simp only; omega⟩
      · have bounds := ih later
        omega

/-- The branches of one registry are those of the records of its file, in their order. -/
theorem filter_recoveredBranches {i : Nat} (lt : i < ids.length) (first : Nat) :
    (recoveredBranches records node ids first).filter (fun b => b.registry = ⟨first + i⟩) =
      (records ids[i]).map (Branch.mk · node ⟨first + i⟩) := by
  induction ids generalizing first i with
  | nil => cases lt
  | cons id rest ih =>
      rw [recoveredBranches, List.filter_append]
      cases i with
      | zero =>
          have later : (recoveredBranches records node rest (first + 1)).filter
              (fun b => b.registry = ⟨first + 0⟩) = [] := by
            refine List.filter_eq_nil_iff.mpr fun b mem same => ?_
            have le := (bounds_of_mem_recoveredBranches mem).1
            rw [of_decide_eq_true same] at le
            exact Nat.not_succ_le_self _ le
          rw [later, List.append_nil, List.filter_eq_self.mpr]
          · rfl
          · intro b mem
            obtain ⟨l, -, rfl⟩ := List.mem_map.mp mem
            exact decide_eq_true rfl
      | succ j =>
          have here : ((records id).map (Branch.mk · node ⟨first⟩)).filter
              (fun b => b.registry = ⟨first + (j + 1)⟩) = [] := by
            refine List.filter_eq_nil_iff.mpr fun b mem same => ?_
            obtain ⟨l, -, rfl⟩ := List.mem_map.mp mem
            have same := congrArg RegistryRef.index (of_decide_eq_true same)
            simp only at same
            omega
          have shift : first + (j + 1) = first + 1 + j := by omega
          rw [here, List.nil_append, shift]
          exact ih (Nat.lt_of_succ_lt_succ lt) (first + 1)

/-- The recovered registries are those of the files that have records, in the order of the files. -/
theorem Recovers.map_registry (h : Recovers q dir records ids w o v) :
    o.recovered.map v.registry =
      (recorded records ids).map fun id => recoveredRegistry q dir id (records id) := by
  have refs := map_registry_refs h.registries
  rwa [List.length_map, ← h.recovered] at refs

/-- A file has been recovered if it has records. -/
theorem Recovers.mem_iff (h : Recovers q dir records ids w o v) {g : Registry} :
    (∃ r ∈ o.recovered, v.registry r = g) ↔
      ∃ id ∈ ids, records id ≠ [] ∧ g = recoveredRegistry q dir id (records id) := by
  rw [← List.mem_map, h.map_registry, List.mem_map]
  constructor
  · rintro ⟨id, mem, rfl⟩
    obtain ⟨mem, filled⟩ := List.mem_filter.mp mem
    exact ⟨id, mem, of_decide_eq_true filled, rfl⟩
  · rintro ⟨id, mem, filled, rfl⟩
    exact ⟨id, List.mem_filter.mpr ⟨mem, decide_eq_true filled⟩, rfl⟩

/-- If nothing was in doubt before, a recovered registry has its records in doubt in their order. -/
theorem Recovers.map_inDoubtOf (h : Recovers q dir records ids w o v)
    (fresh : (w.process q).inDoubt = []) {r : RegistryRef} (mem : r ∈ o.recovered) :
    (v.inDoubtOf q r).map v.branch =
      (records (v.registry r).id).map (Branch.mk · (w.process q).node r) := by
  rw [h.recovered] at mem
  obtain ⟨i, lt, rfl⟩ := List.mem_map.mp mem
  have lt := List.mem_range.mp lt
  have entered : v.registry ⟨w.registries.length + i⟩ =
      recoveredRegistry q dir (recorded records ids)[i] (records (recorded records ids)[i]) := by
    simp [registry, h.registries, lt]
  have seen : (v.inDoubtOf q ⟨w.registries.length + i⟩).map v.branch =
      ((v.process q).inDoubt.map v.branch).filter
        fun b => b.registry = ⟨w.registries.length + i⟩ := by
    rw [List.filter_map]
    rfl
  rw [seen, h.inDoubt, fresh, List.nil_append, map_branch_refs h.branches, entered]
  exact filter_recoveredBranches lt _

end InDoubt.World

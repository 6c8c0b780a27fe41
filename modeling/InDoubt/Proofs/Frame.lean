import InDoubt.Recovery.Host
import Mathlib.Data.List.GetD
import Mathlib.Tactic.Common

/-!
What an update of a world leaves alone. Processes, registries and branches are positions in three
lists, so an update of one entry is seen at that position only, and entering a new one is seen at
no position that was taken.
-/

namespace InDoubt.World

variable (w : World) (p q : ProcessRef) (r r' : RegistryRef) (b : BranchRef)

@[simp] theorem files_updateProcess (f : Process → Process) :
    (w.updateProcess p f).files = w.files := rfl

@[simp] theorem registries_updateProcess (f : Process → Process) :
    (w.updateProcess p f).registries = w.registries := rfl

@[simp] theorem branches_updateProcess (f : Process → Process) :
    (w.updateProcess p f).branches = w.branches := rfl

@[simp] theorem callbacks_updateProcess (f : Process → Process) :
    (w.updateProcess p f).callbacks = w.callbacks := rfl

@[simp] theorem length_processes_updateProcess (f : Process → Process) :
    (w.updateProcess p f).processes.length = w.processes.length := by
  simp [updateProcess]

@[simp] theorem files_updateRegistry (f : Registry → Registry) :
    (w.updateRegistry r f).files = w.files := rfl

@[simp] theorem processes_updateRegistry (f : Registry → Registry) :
    (w.updateRegistry r f).processes = w.processes := rfl

@[simp] theorem branches_updateRegistry (f : Registry → Registry) :
    (w.updateRegistry r f).branches = w.branches := rfl

@[simp] theorem callbacks_updateRegistry (f : Registry → Registry) :
    (w.updateRegistry r f).callbacks = w.callbacks := rfl

@[simp] theorem length_registries_updateRegistry (f : Registry → Registry) :
    (w.updateRegistry r f).registries.length = w.registries.length := by
  simp [updateRegistry]

variable {w p q r r' b}

theorem process_congr {v : World} (h : v.processes = w.processes) (p : ProcessRef) :
    v.process p = w.process p := by
  simp only [process, h]

theorem registry_congr {v : World} (h : v.registries = w.registries) (r : RegistryRef) :
    v.registry r = w.registry r := by
  simp only [registry, h]

@[simp] theorem process_updateRegistry (f : Registry → Registry) :
    (w.updateRegistry r f).process p = w.process p := rfl

@[simp] theorem registry_updateProcess (f : Process → Process) :
    (w.updateProcess p f).registry r = w.registry r := rfl

@[simp] theorem branch_updateProcess (f : Process → Process) :
    (w.updateProcess p f).branch b = w.branch b := rfl

@[simp] theorem branch_updateRegistry (f : Registry → Registry) :
    (w.updateRegistry r f).branch b = w.branch b := rfl

theorem updateProcess_eq_self {f : Process → Process}
    (same : f (w.process p) = w.process p) : w.updateProcess p f = w := by
  have processes : w.processes.modify p.index f = w.processes := by
    refine List.ext_getElem? fun i => ?_
    rw [List.getElem?_modify]
    cases entry : w.processes[i]? with
    | none => rfl
    | some proc =>
        by_cases here : p.index = i
        · have mine : w.process p = proc := by
            rw [process, here, List.getD_eq_getElem?_getD, entry, Option.getD_some]
          simp [here, ← mine, same]
        · simp [here]
  rw [updateProcess, processes]

theorem process_updateProcess_self (hp : p.index < w.processes.length) (f : Process → Process) :
    (w.updateProcess p f).process p = f (w.process p) := by
  simp [process, updateProcess, List.getD_eq_getElem?_getD, hp]

theorem process_updateProcess_of_ne (h : q ≠ p) (f : Process → Process) :
    (w.updateProcess p f).process q = w.process q := by
  have : p.index ≠ q.index := fun e => h (by cases p; cases q; cases e; rfl)
  simp [process, updateProcess, List.getD_eq_getElem?_getD, List.getElem?_modify_ne _ _ this]

theorem registry_updateRegistry_self (hr : r.index < w.registries.length)
    (f : Registry → Registry) : (w.updateRegistry r f).registry r = f (w.registry r) := by
  simp [registry, updateRegistry, List.getD_eq_getElem?_getD, hr]

theorem registry_updateRegistry_of_ne (h : r' ≠ r) (f : Registry → Registry) :
    (w.updateRegistry r f).registry r' = w.registry r' := by
  have : r.index ≠ r'.index := fun e => h (by cases r; cases r'; cases e; rfl)
  simp [registry, updateRegistry, List.getD_eq_getElem?_getD, List.getElem?_modify_ne _ _ this]

/-- A part of a process that an update keeps is kept at every position, taken or not. -/
theorem part_updateProcess {α : Type} (part : Process → α) {f : Process → Process}
    (keeps : ∀ proc, part (f proc) = part proc) (q : ProcessRef) :
    part ((w.updateProcess p f).process q) = part (w.process q) := by
  by_cases h : q = p
  · subst h
    by_cases hp : q.index < w.processes.length
    · rw [process_updateProcess_self hp, keeps]
    · have : w.processes.modify q.index f = w.processes :=
        List.modify_eq_self (Nat.le_of_not_lt hp)
      simp only [process, updateProcess, this]
  · rw [process_updateProcess_of_ne h]

theorem part_updateRegistry {α : Type} (part : Registry → α) {f : Registry → Registry}
    (keeps : ∀ g, part (f g) = part g) (r' : RegistryRef) :
    part ((w.updateRegistry r f).registry r') = part (w.registry r') := by
  by_cases h : r' = r
  · subst h
    by_cases hr : r'.index < w.registries.length
    · rw [registry_updateRegistry_self hr, keeps]
    · have : w.registries.modify r'.index f = w.registries :=
        List.modify_eq_self (Nat.le_of_not_lt hr)
      simp only [registry, updateRegistry, this]
  · rw [registry_updateRegistry_of_ne h]

/-! Entries that are added. -/

theorem registry_append {v : World} {gs : List Registry}
    (h : v.registries = w.registries ++ gs) (hr : r.index < w.registries.length) :
    v.registry r = w.registry r := by
  simp only [registry, h, List.getD_append _ _ _ _ hr]

theorem registry_append_new {v : World} {g : Registry} (h : v.registries = w.registries ++ [g]) :
    v.registry ⟨w.registries.length⟩ = g := by
  simp [registry, h]

theorem branch_append {v : World} {bs : List Branch} (h : v.branches = w.branches ++ bs)
    (hb : b.index < w.branches.length) : v.branch b = w.branch b := by
  simp only [branch, h, List.getD_append _ _ _ _ hb]

theorem process_append {v : World} {ps : List Process} (h : v.processes = w.processes ++ ps)
    (hp : p.index < w.processes.length) : v.process p = w.process p := by
  simp only [process, h, List.getD_append _ _ _ _ hp]

theorem process_append_new {v : World} {proc : Process}
    (h : v.processes = w.processes ++ [proc]) : v.process ⟨w.processes.length⟩ = proc := by
  simp [process, h]

/-- At a position that no process has taken there is one that owns nothing. -/
theorem process_of_le (hp : w.processes.length ≤ p.index) : w.process p = default :=
  List.getD_eq_default _ _ hp

theorem registry_of_le (hr : w.registries.length ≤ r.index) : w.registry r = default :=
  List.getD_eq_default _ _ hr

/-- The only position past the old ones when one registry has been added. -/
theorem eq_new {g : Registry} {v : World} (h : v.registries = w.registries ++ [g])
    (ge : w.registries.length ≤ r.index) (lt : r.index < v.registries.length) :
    r = ⟨w.registries.length⟩ := by
  obtain ⟨i⟩ := r
  simp only [h, List.length_append, List.length_singleton] at lt ge
  obtain rfl : i = w.registries.length := by omega
  rfl

/-! Processes that start and end. -/

theorem processes_openLog (config : Config) (node : String) (w : World) :
    (w.openLog config node).2.processes =
      w.processes ++ [⟨config.dir, node, .empty, [], false, true⟩] := rfl

theorem process_openLog (config : Config) (node : String) (w : World) :
    (w.openLog config node).2.process (w.openLog config node).1 =
      ⟨config.dir, node, .empty, [], false, true⟩ :=
  process_append_new (processes_openLog config node w)

theorem process_openLog_of_lt (config : Config) (node : String)
    (hp : p.index < w.processes.length) : (w.openLog config node).2.process p = w.process p :=
  process_append (processes_openLog config node w) hp

/-- A part in which a new process is like one that does not exist. -/
theorem part_openLog {α : Type} (part : Process → α) {config : Config} {node : String}
    (fresh : part ⟨config.dir, node, .empty, [], false, true⟩ = part default) (p : ProcessRef) :
    part ((w.openLog config node).2.process p) = part (w.process p) := by
  have entered := processes_openLog config node w
  by_cases hp : p.index < w.processes.length
  · rw [process_openLog_of_lt config node hp]
  · rw [process_of_le (w := w) (Nat.le_of_not_lt hp)]
    by_cases new : p = ⟨w.processes.length⟩
    · rw [new, process_append_new entered, fresh]
    · have : p.index ≠ w.processes.length := fun e => new (by cases p; cases e; rfl)
      rw [process_of_le]
      rw [entered, List.length_append, List.length_singleton]
      omega

theorem part_relocate {α : Type} (part : Process → α)
    (keeps : ∀ proc dir, part { proc with dir } = part proc) (q : ProcessRef) (base : String)
    (p : ProcessRef) : part ((w.relocate q base).2.process p) = part (w.process p) := by
  simp only [relocate]
  split
  · rfl
  · exact part_updateProcess part (fun proc => keeps proc _) p

theorem part_unregister {α : Type} (part : Process → α)
    (keeps : ∀ proc, part { proc with registered := false } = part proc) (q p : ProcessRef) :
    part ((w.unregister q).process p) = part (w.process p) := by
  unfold unregister
  split
  · exact part_updateProcess part keeps p
  · rfl

/-- The end of one process is that of its registration for all others. -/
theorem process_crash_of_ne (h : p ≠ q) : (w.crash q).process p = (w.unregister q).process p :=
  process_updateProcess_of_ne (w := w.unregister q) h _

/-- A registry with a branch has been entered. -/
theorem lt_of_count_ne_zero (h : (w.registry r).count ≠ 0) : r.index < w.registries.length := by
  by_contra hr
  exact h (by rw [registry_of_le (Nat.le_of_not_lt hr)]; rfl)

end World

namespace Registry

variable (g : Registry)

@[simp] theorem owner_closed : g.closed.owner = g.owner := by
  obtain ⟨_, _, _, origin, _⟩ := g; cases origin <;> rfl

@[simp] theorem id_closed : g.closed.id = g.id := by
  obtain ⟨_, _, _, origin, _⟩ := g; cases origin <;> rfl

@[simp] theorem path_closed : g.closed.path = g.path := by
  obtain ⟨_, _, _, origin, _⟩ := g; cases origin <;> rfl

@[simp] theorem count_closed : g.closed.count = g.count := by
  obtain ⟨_, _, _, origin, _⟩ := g; cases origin <;> rfl

@[simp] theorem handle?_closed : g.closed.handle? = none := by
  obtain ⟨_, _, _, origin, _⟩ := g; cases origin <;> rfl

end Registry

end InDoubt

import InDoubt.Proofs.Scanning
import InDoubt.Proofs.Steps

/-!
A run only adds. Whatever its steps, a registry that has been entered keeps its owner, identifier,
path and kind, a branch stays as it is, and no process is forgotten; only the count and the open
file of a registry change. A reference therefore means the same thing at every later point of a
run. Processes start when a log is opened and end in a crash, and a log is moved on demand only.
-/

namespace InDoubt

/-- What a registry is, as opposed to the state it is in. -/
def Registry.identity (g : Registry) : ProcessRef × String × String × Bool :=
  (g.owner, g.id, g.path, g.isLive)

@[simp] theorem Registry.identity_closed (g : Registry) : g.closed.identity = g.identity := by
  obtain ⟨_, _, _, origin, _⟩ := g; cases origin <;> rfl

/-- Where a process keeps its log, and whether it runs. -/
def Process.station (proc : Process) : String × String × Bool :=
  (proc.dir, proc.node, proc.running)

namespace World

structure Extends (w v : World) : Prop where
  registries : w.registries.length ≤ v.registries.length
  identity : ∀ r, r.index < w.registries.length → (v.registry r).identity = (w.registry r).identity
  branches : w.branches <+: v.branches
  processes : w.processes.length ≤ v.processes.length

namespace Extends

variable {u v w : World} {r : RegistryRef}

theorem refl (w : World) : Extends w w :=
  ⟨Nat.le_refl _, fun _ _ => rfl, List.prefix_refl _, Nat.le_refl _⟩

theorem trans (h : Extends u v) (k : Extends v w) : Extends u w where
  registries := Nat.le_trans h.registries k.registries
  identity r hr := (k.identity r (Nat.lt_of_lt_of_le hr h.registries)).trans (h.identity r hr)
  branches := h.branches.trans k.branches
  processes := Nat.le_trans h.processes k.processes

theorem owner (h : Extends w v) (hr : r.index < w.registries.length) :
    (v.registry r).owner = (w.registry r).owner :=
  congrArg (·.1) (h.identity r hr)

theorem id (h : Extends w v) (hr : r.index < w.registries.length) :
    (v.registry r).id = (w.registry r).id :=
  congrArg (·.2.1) (h.identity r hr)

theorem path (h : Extends w v) (hr : r.index < w.registries.length) :
    (v.registry r).path = (w.registry r).path :=
  congrArg (·.2.2.1) (h.identity r hr)

theorem isLive (h : Extends w v) (hr : r.index < w.registries.length) :
    (v.registry r).isLive = (w.registry r).isLive :=
  congrArg (·.2.2.2) (h.identity r hr)

theorem branch (h : Extends w v) {b : BranchRef} (hb : b.index < w.branches.length) :
    v.branch b = w.branch b := by
  obtain ⟨more, e⟩ := h.branches
  exact branch_append e.symm hb

/-- Registries and branches are appended. -/
theorem of_append (gs : List Registry) (bs : List Branch)
    (hr : v.registries = w.registries ++ gs) (hb : v.branches = w.branches ++ bs)
    (hp : w.processes.length ≤ v.processes.length) : Extends w v where
  registries := by rw [hr, List.length_append]; omega
  identity r lt := by rw [registry_append hr lt]
  branches := ⟨bs, hb.symm⟩
  processes := hp

/-- One registry is changed in its state. -/
theorem of_update {f : Registry → Registry}
    (hr : v.registries = w.registries.modify r.index f)
    (keeps : ∀ g, (f g).identity = g.identity) (hb : v.branches = w.branches)
    (hp : v.processes.length = w.processes.length) : Extends w v where
  registries := by rw [hr]; exact Nat.le_of_eq (List.length_modify ..).symm
  identity r' _ := by
    rw [registry_congr (w := w.updateRegistry r f) hr]
    exact part_updateRegistry Registry.identity keeps r'
  branches := ⟨[], by rw [hb, List.append_nil]⟩
  processes := Nat.le_of_eq hp.symm

theorem of_eq (hr : v.registries = w.registries) (hb : v.branches = w.branches)
    (hp : v.processes.length = w.processes.length) : Extends w v :=
  of_append [] [] (by simp [hr]) (by simp [hb]) (Nat.le_of_eq hp.symm)

theorem updateProcess (h : Extends w v) (p : ProcessRef) (f : Process → Process) :
    Extends w (v.updateProcess p f) :=
  h.trans (.of_eq rfl rfl (length_processes_updateProcess ..))

end Extends

variable (w : World) (p : ProcessRef) (r : RegistryRef) (b : BranchRef)

theorem extends_createIn (dir : String) (xid : Xid) : Extends w (w.createIn p dir xid).2 := by
  obtain ⟨_, files, -, e⟩ | ⟨_, _, _, -, -, -, e⟩ := createIn_cases w p dir xid <;> rw [e]
  · exact .of_eq rfl rfl rfl
  · apply Extends.updateProcess
    exact .of_append _ [] rfl (by simp) (Nat.le_refl _)

theorem extends_record (l : Locator) : Extends w (w.record r l).2 :=
  .of_update (registries_record ..) (fun _ => rfl) (branches_record ..) (by rw [processes_record])

theorem extends_enlist (l : Locator) (node : String) : Extends w (w.enlist r l node).2 := by
  refine (extends_record w r l).trans ?_
  obtain ⟨_, -, e⟩ | ⟨-, e⟩ := enlist_cases w r l node <;> rw [e]
  · exact .refl _
  · exact .of_append [] _ (by simp) (by rw [branches_record]) (Nat.le_refl _)

theorem extends_releaseFrom : Extends w (w.releaseFrom r b).2 := by
  by_cases h : (w.registry r).count = 1
  · rw [releaseFrom_of_eq h]
    have retired (files : FileSystem) : Extends w (w.retire r files) :=
      .of_update rfl Registry.identity_closed rfl rfl
    split
    · exact ((retired _).updateProcess ..).updateProcess ..
    · exact ((retired _).updateProcess ..).updateProcess ..
    · exact (retired _).updateProcess ..
  · rw [releaseFrom_of_ne h]
    have counted : Extends w (w.updateRegistry r fun g => { g with count := g.count - 1 }) :=
      .of_update rfl (fun _ => rfl) rfl rfl
    exact counted.updateProcess ..

theorem extends_adopt (id path : String) (ls : List Locator) :
    Extends w (w.adopt p id path ls).2 :=
  .of_append _ _ (registries_adopt ..) (branches_adopt ..) (by simp [processes_adopt])

theorem extends_recoverAll (dir : String) (ids : List String) :
    Extends w (recoverAll p dir ids w).2 := by
  apply recoverAll_induction (I := Extends w) _ (.refl w)
  intro v id _ _ h
  refine h.trans ?_
  obtain ⟨_, _, -, -, e⟩ | ⟨_, _, -, e⟩ := recover_cases v p dir id <;> rw [e]
  · exact .of_eq rfl rfl rfl
  · exact extends_adopt ..

theorem extends_scan (during : List FileStep) : Extends w (w.scan p during).2 :=
  scan_induction (I := Extends w) (fun _ h => h.trans (.of_eq rfl rfl rfl))
    (fun _ h => h.trans (extends_adopt ..)) during (.refl w)

theorem extends_unregister : Extends w (w.unregister p) := by
  unfold unregister
  split
  · apply Extends.updateProcess
    exact .of_eq rfl rfl rfl
  · exact .refl w

theorem registry_crash (r : RegistryRef) (hr : r.index < w.registries.length) :
    (w.crash p).registry r =
      if (w.registry r).owner = p then (w.registry r).closed else w.registry r := by
  simp [registry, crash, List.getD_eq_getElem?_getD, hr]

theorem extends_crash : Extends w (w.crash p) := by
  have alone := extends_unregister w p
  refine ⟨by simp [crash], fun r hr => ?_, alone.branches, ?_⟩
  · rw [registry_crash w p r hr]
    split <;> simp
  · simpa [crash] using alone.processes

theorem extends_step (s : Step) : Extends w (w.step s).2 := by
  cases s with
  | outside change =>
      rw [step_outside]
      exact .of_eq rfl rfl rfl
  | openLog config node =>
      exact .of_append [] [] (by simp [step, openLog]) (by simp [step, openLog])
        (by simp [step, openLog])
  | crash p => exact extends_crash w p
  | relocate p base =>
      simp only [step, relocate]
      split
      · exact .refl w
      · exact (Extends.refl w).updateProcess ..
  | create p xid => exact extends_createIn w p _ xid
  | createIn p dir xid => exact extends_createIn w p dir xid
  | record r l => exact extends_record w r l
  | enlist r l node => exact extends_enlist w r l node
  | bind r l node => exact .of_append [] _ (by simp [step, bind, addBranch]) rfl (Nat.le_refl _)
  | release b => exact extends_releaseFrom w _ b
  | releaseFrom r b => exact extends_releaseFrom w r b
  | scan p during | sweep p during => exact extends_scan w p during
  | register p =>
      apply Extends.updateProcess
      exact .of_eq rfl rfl rfl
  | unregister p => exact extends_unregister w p
  | hostSweep =>
      exact sweepEach_induction (I := Extends w) (fun _ h => h.trans (extends_scan ..)) (.refl w)
  | mark b | doubtVia r b | claim p id | unclaim p id | doubt p bs | settle p b =>
      exact (Extends.refl w).updateProcess ..

/-! No process is started, ended or moved. -/

/-- All processes stay, and where and how they were. -/
structure Settled (w v : World) : Prop where
  number : v.processes.length = w.processes.length
  station : ∀ p, (v.process p).station = (w.process p).station

namespace Settled

variable {u v w : World}

theorem of_eq (h : v.processes = w.processes) : Settled w v :=
  ⟨congrArg List.length h, fun p => congrArg Process.station (process_congr h p)⟩

theorem trans (h : Settled u v) (k : Settled v w) : Settled u w :=
  ⟨k.number.trans h.number, fun p => (k.station p).trans (h.station p)⟩

theorem updateProcess (h : Settled w v) (p : ProcessRef) {f : Process → Process}
    (keeps : ∀ proc, (f proc).station = proc.station) : Settled w (v.updateProcess p f) :=
  h.trans ⟨length_processes_updateProcess .., part_updateProcess Process.station keeps⟩

end Settled

theorem settled_createIn (dir : String) (xid : Xid) : Settled w (w.createIn p dir xid).2 := by
  obtain ⟨_, _, -, e⟩ | ⟨_, _, _, -, -, -, e⟩ := createIn_cases w p dir xid <;> rw [e]
  · exact .of_eq rfl
  · refine Settled.updateProcess ?_ p ?_
    · exact .of_eq rfl
    · exact fun _ => rfl

theorem settled_unclaim (id : String) : Settled w (w.unclaim p id).2 :=
  ⟨length_processes_updateProcess .., part_updateProcess Process.station fun _ => rfl⟩

theorem settled_settle : Settled w (w.settle p b) :=
  ⟨length_processes_updateProcess .., part_updateProcess Process.station fun _ => rfl⟩

theorem settled_doubt (bs : List BranchRef) : Settled w (w.doubt p bs) :=
  ⟨length_processes_updateProcess .., part_updateProcess Process.station fun _ => rfl⟩

theorem settled_releaseFrom : Settled w (w.releaseFrom r b).2 := by
  by_cases one : (w.registry r).count = 1
  · rw [releaseFrom_of_eq one]
    have retired (files : FileSystem) : Settled w (w.retire r files) := .of_eq rfl
    split
    · exact ((retired _).trans (settled_unclaim ..)).trans (settled_settle ..)
    · exact ((retired _).trans (settled_unclaim ..)).trans (settled_settle ..)
    · exact (retired _).trans (settled_settle ..)
  · rw [releaseFrom_of_ne one]
    have counted : Settled w (w.updateRegistry r fun g => { g with count := g.count - 1 }) :=
      .of_eq rfl
    exact counted.trans (settled_settle ..)

theorem settled_scan (during : List FileStep) : Settled w (w.scan p during).2 := by
  refine scan_induction (I := Settled w) (fun _ h => h.trans (.of_eq rfl)) ?_ during (.of_eq rfl)
  intro v id path l ls _ h
  refine h.trans ⟨by simp [processes_adopt], fun q => ?_⟩
  rw [process_congr (w := v.updateProcess p _) (processes_adopt v p id path (l :: ls))]
  apply part_updateProcess Process.station
  exact fun _ => rfl

theorem settled_unregister : Settled w (w.unregister p) := by
  unfold unregister
  split
  · refine Settled.updateProcess ?_ p ?_
    · exact .of_eq rfl
    · exact fun _ => rfl
  · exact .of_eq rfl

/-- The steps that start, end or move a process. -/
def unsettles : Step → Bool
  | .openLog _ _ | .crash _ | .relocate _ _ => true
  | _ => false

theorem settled_step {s : Step} (h : unsettles s = false) : Settled w (w.step s).2 := by
  cases s with
  | openLog config node | crash q | relocate q base => cases h
  | outside change =>
      rw [step_outside]
      exact .of_eq rfl
  | create q xid => exact settled_createIn w q _ xid
  | createIn q dir xid => exact settled_createIn w q dir xid
  | record r l => exact .of_eq (processes_record ..)
  | enlist r l node => exact .of_eq (processes_enlist ..)
  | bind r l node => exact .of_eq rfl
  | release b => exact settled_releaseFrom w _ b
  | releaseFrom r b => exact settled_releaseFrom w r b
  | mark b | doubtVia r b | doubt q bs => exact settled_doubt ..
  | settle q b => exact settled_settle ..
  | scan q during | sweep q during => exact settled_scan w q during
  | hostSweep =>
      exact sweepEach_induction (I := Settled w) (fun _ h => h.trans (settled_scan ..)) (.of_eq rfl)
  | register q =>
      refine Settled.updateProcess ?_ q ?_
      · exact .of_eq rfl
      · exact fun _ => rfl
  | unregister q => exact settled_unregister ..
  | claim q id => exact ⟨length_processes_updateProcess .., part_updateProcess _ fun _ => rfl⟩
  | unclaim q id => exact settled_unclaim ..

/-- Only opening a log starts a process. -/
theorem length_processes_step {s : Step} (h : ∀ config node, s ≠ .openLog config node) :
    (w.step s).2.processes.length = w.processes.length := by
  by_cases settled : unsettles s = false
  · exact (settled_step w settled).number
  · cases s with
    | openLog config node => exact absurd rfl (h config node)
    | crash q =>
        simp only [step, crash, unregister]
        split <;> simp
    | relocate q base =>
        simp only [step, relocate]
        split <;> simp
    | _ => exact absurd rfl settled

/-- What holds of references at one point of a run holds of them at every later one. -/
theorem extends_after (steps : List Step) : Extends w (after steps w) := by
  induction steps generalizing w with
  | nil => exact .refl w
  | cons s rest ih => exact (extends_step w s).trans (ih (w.step s).2)

end World

end InDoubt

import InDoubt.Proofs.Backing
import InDoubt.Proofs.Records
import Mathlib.Logic.Function.Iterate

/-!
One recovery directory, served by one process after the other. A process is started when none runs,
keeps its log in the directory, and serves until it crashes; nobody else writes there. In every such
run at most one process runs at a time, and the one that does is backed: its registries that have
not been spent have their files at the ends of their paths in the directory (`Crewed`).
-/

namespace InDoubt.World

open FileSystem

variable {v w : World} {p q : ProcessRef} {r : RegistryRef} {s : Step} {dir : String}

/-- No process runs. -/
def Idle (w : World) : Prop := ∀ proc ∈ w.processes, proc.running = false

instance (w : World) : Decidable w.Idle := inferInstanceAs (Decidable (∀ _ ∈ _, _))

theorem Idle.not_runs (h : w.Idle) : ¬w.Runs p := by
  rintro ⟨lt, running⟩
  have mem : w.process p ∈ w.processes := by
    rw [process, List.getD_eq_getElem _ _ lt]
    exact List.getElem_mem _
  rw [h _ mem] at running
  cases running

/-- A step of the service of a directory. A log is opened there when no process runs. Locators whose
texts are read back are recorded in created registries that have not been spent. -/
def Serving (dir : String) (w : World) (s : Step) : Prop :=
  w.Admits s ∧
    match s with
    | .openLog config _ => config.dir = dir ∧ w.Idle
    | .record r l | .enlist r l _ =>
        (w.registry r).isLive = true ∧ ¬(w.registry r).Spent ∧ l.Faithful
    | .scan _ during | .sweep _ during => during = []
    | .outside _ | .relocate _ _ | .createIn _ _ _ | .hostSweep | .claim _ _ | .unclaim _ _ => False
    | _ => True

instance (dir : String) (w : World) : (s : Step) → Decidable (Serving dir w s)
  | .openLog config _ => inferInstanceAs (Decidable (_ ∧ config.dir = dir ∧ _))
  | .record r _ | .enlist r _ _ =>
      inferInstanceAs (Decidable (_ ∧ (w.registry r).isLive = true ∧ _ ∧ _))
  | .scan _ during | .sweep _ during => inferInstanceAs (Decidable (_ ∧ during = []))
  | .outside _ | .relocate _ _ | .createIn _ _ _ | .hostSweep | .claim _ _ | .unclaim _ _ =>
      inferInstanceAs (Decidable (_ ∧ False))
  | .crash _ | .create _ _ | .bind _ _ _ | .release _ | .releaseFrom _ _ | .mark _ | .doubtVia _ _
  | .register _ | .unregister _ | .doubt _ _ | .settle _ _ => inferInstanceAs (Decidable (_ ∧ True))

theorem encode_dir_ne_nil (config : Config) : Utf8.encode config.dir ≠ [] := by
  have filled : Utf8.encode "xa-recovery" ≠ [] := by decide
  unfold Config.dir recoveryDir joinPath
  split <;> simp [filled]

/-- At most one process runs, in the directory, and its registries are backed there. -/
structure Crewed (dir : String) (w : World) : Prop where
  sound : w.files.Sound
  owners : ∀ {r}, r.index < w.registries.length →
    (w.registry r).owner.index < w.processes.length
  sole : ∀ {p q}, w.Runs p → w.Runs q → p = q
  backing : ∀ {p}, w.Runs p → Backing p w
  located : ∀ {p}, w.Runs p → (w.process p).dir = dir
  named : ∀ {p}, w.Runs p → Utf8.encode dir ≠ []
  paths : ∀ {p r}, w.Runs p → Unspent p w r →
    (w.registry r).path = joinPath dir (w.registry r).id

/-- Whatever a process does between its start and its end is sheltered. -/
theorem Serving.sheltered (allowed : Serving dir w s)
    (unopened : ∀ config node, s ≠ .openLog config node) (uncrashed : ∀ p, s ≠ .crash p) :
    ∃ p, w.Runs p ∧ Sheltered p w s := by
  obtain ⟨admitted, quiet⟩ := allowed
  cases s with
  | openLog config node => exact absurd rfl (unopened config node)
  | crash p => exact absurd rfl (uncrashed p)
  | outside change | relocate q base | createIn q dir xid | hostSweep | claim q id | unclaim q id =>
      exact quiet.elim
  | record r l => exact ⟨_, admitted.2, ⟨admitted, fun _ => quiet.2.1⟩, rfl⟩
  | enlist r l node => exact ⟨_, admitted.2, ⟨admitted, fun _ => quiet.2.1⟩, rfl⟩
  | release b => exact ⟨_, admitted.2.2, ⟨admitted, trivial⟩, rfl⟩
  | releaseFrom r b => exact ⟨_, admitted.1.2, ⟨admitted, trivial⟩, rfl⟩
  | create q xid => exact ⟨q, admitted, ⟨admitted, trivial⟩, rfl⟩
  | scan q during | sweep q during => exact ⟨q, admitted, ⟨admitted, trivial⟩, rfl, quiet⟩
  | bind r l node => exact ⟨_, admitted.2, ⟨admitted, trivial⟩, trivial⟩
  | mark b => exact ⟨_, admitted.2.2, ⟨admitted, trivial⟩, trivial⟩
  | doubtVia r b => exact ⟨_, admitted.1.2, ⟨admitted, trivial⟩, trivial⟩
  | register q | unregister q => exact ⟨q, admitted, ⟨admitted, trivial⟩, trivial⟩
  | doubt q bs | settle q b => exact ⟨q, admitted.1, ⟨admitted, trivial⟩, trivial⟩

theorem runs_crash (h : (w.crash q).Runs p) : w.Runs p ∧ p ≠ q := by
  have alone : (w.crash q).process p = ((w.unregister q).updateProcess q
      fun proc => { proc with inDoubt := [], running := false }).process p := rfl
  have number : (w.crash q).processes.length = w.processes.length :=
    length_processes_step w (s := .crash q) nofun
  obtain ⟨lt, running⟩ := h
  rw [number] at lt
  have there : p.index < (w.unregister q).processes.length := (settled_unregister w q).number ▸ lt
  by_cases self : p = q
  · subst self
    rw [alone, process_updateProcess_self there] at running
    cases running
  · refine ⟨⟨lt, ?_⟩, self⟩
    rw [alone, process_updateProcess_of_ne self] at running
    exact (congrArg (·.2.2) ((settled_unregister w q).station p)).symm.trans running

theorem runs_openLog {config : Config} {node : String}
    (h : (w.openLog config node).2.Runs p) : w.Runs p ∨ p = ⟨w.processes.length⟩ := by
  have entered : (w.openLog config node).2.processes =
    w.processes ++ [⟨config.dir, node, .empty, [], false, true⟩] := rfl
  obtain ⟨lt, running⟩ := h
  by_cases old : p.index < w.processes.length
  · rw [process_append entered old] at running
    exact .inl ⟨old, running⟩
  · obtain ⟨i⟩ := p
    simp only [entered, List.length_append, List.length_singleton] at lt old
    obtain rfl : i = w.processes.length := by omega
    exact .inr rfl

theorem Settled.runs_iff (h : Settled w v) : v.Runs p ↔ w.Runs p := by
  have station := h.station p
  unfold Runs
  rw [h.number, show (v.process p).running = (w.process p).running from congrArg (·.2.2) station]

namespace Crewed

/-- Recording in a created registry that has not been spent succeeds. -/
theorem record_ok (h : Crewed dir w) (runs : w.Runs (w.registry r).owner)
    (hr : Unspent (w.registry r).owner w r) (live : (w.registry r).isLive = true) (l : Locator) :
    (w.record r l).1 = .ok () := by
  obtain ⟨place, inode, backed⟩ := (h.backing runs).backed hr
  rw [record_eq_ok_iff, backed.handle live]
  exact .inr rfl

/-- The new process has no registries yet. -/
theorem openLog (h : Crewed dir w) (idle : w.Idle) {config : Config} (node : String)
    (same : config.dir = dir) : Crewed dir (w.openLog config node).2 := by
  have entered : (w.openLog config node).2.processes =
    w.processes ++ [⟨config.dir, node, .empty, [], false, true⟩] := rfl
  have new : (w.openLog config node).2.process ⟨w.processes.length⟩ =
      ⟨config.dir, node, .empty, [], false, true⟩ := process_append_new entered
  have only {p : ProcessRef} (runs : (w.openLog config node).2.Runs p) :
      p = ⟨w.processes.length⟩ :=
    (runs_openLog runs).resolve_left idle.not_runs
  have nothing (r : RegistryRef) : ¬Unspent ⟨w.processes.length⟩ (w.openLog config node).2 r := by
    rintro ⟨lt, own, -⟩
    have earlier := h.owners lt
    rw [show (w.registry r).owner = ⟨w.processes.length⟩ from own] at earlier
    exact Nat.lt_irrefl _ earlier
  refine ⟨h.sound, fun lt => ?_, fun runs runs' => ?_, fun runs => ?_, fun runs => ?_,
    fun _ => same ▸ encode_dir_ne_nil config, fun {p r} runs hr => ?_⟩
  · rw [entered, List.length_append]
    exact Nat.lt_add_right _ (h.owners lt)
  · rw [only runs, only runs']
  · obtain rfl := only runs
    refine ⟨h.sound, .of_nothing nothing ?_, fun hr => absurd hr (nothing _)⟩
    rw [new]
    exact OpenSet.not_mem_empty
  · obtain rfl := only runs
    rw [new]
    exact same
  · obtain rfl := only runs
    exact absurd hr (nothing r)

theorem crash (h : Crewed dir w) (runs : w.Runs q) : Crewed dir (w.crash q) := by
  have extended := extends_crash w q
  have stopped {p : ProcessRef} : ¬(w.crash q).Runs p := by
    intro still
    obtain ⟨before, other⟩ := runs_crash still
    exact other (h.sole before runs)
  refine ⟨h.sound.congr rfl rfl, fun {r} lt => ?_, fun still => absurd still stopped,
    fun still => absurd still stopped, fun still => absurd still stopped,
    fun still => absurd still stopped, fun still => absurd still stopped⟩
  have before : r.index < w.registries.length := by simpa [World.crash] using lt
  rw [extended.owner before]
  exact Nat.lt_of_lt_of_le (h.owners before) extended.processes

/-- What the running process does. -/
theorem sheltered (h : Crewed dir w) (runs : w.Runs p) (allowed : Serving dir w s)
    (alone : Sheltered p w s) (settled : unsettles s = false) : Crewed dir (w.step s).2 := by
  have extended := extends_step w s
  have same := settled_step w settled
  have only {q : ProcessRef} (still : (w.step s).2.Runs q) : q = p :=
    h.sole (same.runs_iff.mp still) runs
  refine ⟨(h.backing runs).sound_step alone, fun {r} lt => ?_, fun still still' => ?_,
    fun still => ?_, fun {q} still => ?_, fun _ => h.named runs, fun {q r} still hr => ?_⟩
  · rw [same.number]
    by_cases old : r.index < w.registries.length
    · rw [extended.owner old]
      exact h.owners old
    · rw [(entered_of_lt alone (Nat.le_of_not_lt old) lt).2.2]
      exact runs.1
  · rw [only still, only still']
  · obtain rfl := only still
    exact (h.backing runs).step alone
  · rw [show ((w.step s).2.process q).dir = (w.process q).dir from
      congrArg (·.1) (same.station q)]
    exact h.located (same.runs_iff.mp still)
  · obtain rfl := only still
    rcases (Backing.unspent_step alone.1).mp hr with ⟨old, -⟩ | ⟨ge, lt, -⟩
    · rw [extended.path old.1, extended.id old.1]
      exact h.paths runs old
    · rw [← h.located runs]
      have apart := alone.2
      by_cases entering : enters s = true
      · cases s with
        | create q' xid =>
            cases apart
            obtain ⟨_, e⟩ := registry_createIn_new ge lt
            exact (congrArg Registry.path e).trans
              (congrArg (joinPath _) (congrArg Registry.id e).symm)
        | scan q' during | sweep q' during =>
            obtain ⟨rfl, rfl⟩ := apart
            obtain ⟨_, _, e⟩ := registry_scan_new q' [] ge lt
            exact (congrArg Registry.path e).trans
              (congrArg (joinPath _) (congrArg Registry.id e).symm)
        | createIn q' dir xid => exact allowed.2.elim
        | hostSweep => exact apart.elim
        | _ => cases entering
      · rw [length_registries_step (Bool.not_eq_true _ ▸ entering)] at lt
        exact absurd lt (Nat.not_lt.mpr ge)

theorem step (h : Crewed dir w) (allowed : Serving dir w s) : Crewed dir (w.step s).2 := by
  by_cases opening : ∃ config node, s = .openLog config node
  · obtain ⟨config, node, rfl⟩ := opening
    exact h.openLog allowed.2.2 node allowed.2.1
  · by_cases crashing : ∃ q, s = .crash q
    · obtain ⟨q, rfl⟩ := crashing
      exact h.crash allowed.1
    · have unopened : ∀ config node, s ≠ .openLog config node :=
        fun config node e => opening ⟨config, node, e⟩
      have uncrashed : ∀ q, s ≠ .crash q := fun q e => crashing ⟨q, e⟩
      obtain ⟨p, runs, alone⟩ := allowed.sheltered unopened uncrashed
      have settled : unsettles s = false := by
        cases s with
        | openLog config node => exact absurd rfl (unopened config node)
        | crash q => exact absurd rfl (uncrashed q)
        | relocate q base => exact allowed.2.elim
        | _ => rfl
      exact h.sheltered runs allowed alone settled

end Crewed

end InDoubt.World

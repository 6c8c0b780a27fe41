import InDoubt.Proofs.Backing
import InDoubt.Proofs.Handles
import Mathlib.Data.List.Infix

/-!
How long a registry keeps its file. The count of a registry says how many more branches were
recorded than release calls were made, whichever branches they released. While one process works on
the files alone, the file of a registry is therefore kept, with all that was written to it, exactly
as long as there have been fewer release calls than branches at every point since it had one
(`retained_iff`). A branch that is released twice counts twice, so the file can be deleted while
another branch has not been released; if no branch is released twice it cannot.
-/

namespace InDoubt.World

open FileSystem

variable {v w : World} {p q : ProcessRef} {r r' : RegistryRef} {b : BranchRef} {s : Step}
  {place : Place} {inode : Nat}

/-! What has happened to a registry. -/

/-- The branches that a registry has been given, by recovery and by recording, the handles that it
was released through, each time that it was, the inode of its file, and all that was written
there. -/
structure Account where
  additions : Nat
  released : List BranchRef
  home : Option Nat
  written : Bytes

/-- No registry yet. -/
def Account.none : Account := ⟨0, [], Option.none, []⟩

/-- The account of a registry when it is entered. -/
def Account.opened (v : World) (r : RegistryRef) : Account :=
  let home := (v.files.inodeAt (Utf8.encode (v.registry r).path)).toOption
  ⟨(v.registry r).count, [], home, home.elim [] v.files.content⟩

def releases? : Step → Option BranchRef
  | .release b | .releaseFrom _ b => some b
  | _ => Option.none

/-- Takes a step to account. -/
def noteFor (r : RegistryRef) (w : World) (s : Step) (a : Account) : Account :=
  let v := (w.step s).2
  if w.registries.length ≤ r.index ∧ r.index < v.registries.length then .opened v r
  else if recordsIn? s = some r then
    { a with additions := a.additions + 1, written := a.written ++ w.appended r s }
  else if w.releasesFrom? s = some r then
    { a with released := (releases? s).toList ++ a.released }
  else a

/-- The account of a registry at the end of a run. -/
def account (r : RegistryRef) (steps : List Step) (start : World) : Account :=
  observe (noteFor r) steps start .none

/-- The registry still has its file, with all that was written to it, and owns its identifier. -/
def Retains (w : World) (r : RegistryRef) (a : Account) : Prop :=
  ∃ inode, a.home = some inode ∧
    w.files.inodeAt (Utf8.encode (w.registry r).path) = .ok inode ∧
    w.files.content inode = a.written ∧
    (w.registry r).id ∈ (w.process (w.registry r).owner).openIds

/-- As long as the registry has had a branch, it has been released fewer times than it has had
branches. -/
def Account.Solvent (a : Account) : Prop := a.additions ≠ 0 → a.released.length < a.additions

/-- A step of the only process, which takes handles from a registry or its recovery only and
releases them from their own registry. Nothing is added to registries that have been spent, other
than this one. -/
def Undisturbed (r : RegistryRef) (w : World) (s : Step) : Prop :=
  w.Admits s ∧
    match s with
    | .outside _ | .openLog _ _ | .crash _ | .hostSweep | .claim _ _ | .unclaim _ _ | .bind _ _ _ =>
        False
    | .record r' _ | .enlist r' _ _ => r' = r ∨ ¬(w.registry r').Spent
    | .releaseFrom r' b => (w.branch b).registry = r'
    | .scan _ during | .sweep _ during => during = []
    | _ => True

instance (r : RegistryRef) (w : World) : (s : Step) → Decidable (Undisturbed r w s)
  | .outside _ | .openLog _ _ | .crash _ | .hostSweep | .claim _ _ | .unclaim _ _ | .bind _ _ _ =>
      inferInstanceAs (Decidable (_ ∧ False))
  | .record r' _ | .enlist r' _ _ => inferInstanceAs (Decidable (_ ∧ (r' = r ∨ _)))
  | .releaseFrom r' b => inferInstanceAs (Decidable (_ ∧ (w.branch b).registry = r'))
  | .scan _ during | .sweep _ during => inferInstanceAs (Decidable (_ ∧ during = []))
  | .relocate _ _ | .create _ _ | .createIn _ _ _ | .release _ | .mark _ | .doubtVia _ _
  | .register _ | .unregister _ | .doubt _ _ | .settle _ _ => inferInstanceAs (Decidable (_ ∧ True))

/-! Steps of the only process. -/

theorem eq_of_runs (one : w.processes.length = 1) (h : w.Runs p) : p = ⟨0⟩ := by
  have := h.1
  obtain ⟨i⟩ := p
  simp only at this
  obtain rfl : i = 0 := by omega
  rfl

theorem sheltered_of_undisturbed (one : w.processes.length = 1) (allowed : Undisturbed r w s)
    (unspent : r.index < w.registries.length → ¬(w.registry r).Spent) : Sheltered ⟨0⟩ w s := by
  obtain ⟨admitted, quiet⟩ := allowed
  have recording {r' : RegistryRef} (there : w.HasRegistry r')
      (h : r' = r ∨ ¬(w.registry r').Spent) : ¬(w.registry r').Spent := by
    rcases h with rfl | h
    · exact unspent there.1
    · exact h
  refine ⟨⟨admitted, ?_⟩, ?_⟩
  · cases s with
    | record r' l => exact fun _ => recording admitted quiet
    | enlist r' l node => exact fun _ => recording admitted quiet
    | crash q | claim q id | unclaim q id => exact quiet.elim
    | _ => trivial
  · cases s with
    | outside change | openLog config node | crash q | hostSweep => exact quiet
    | create q xid | createIn q dir xid => exact eq_of_runs one admitted
    | record r' l | enlist r' l node => exact eq_of_runs one admitted.2
    | release b => exact eq_of_runs one admitted.2.2
    | releaseFrom r' b => exact eq_of_runs one admitted.1.2
    | scan q during | sweep q during => exact ⟨eq_of_runs one admitted, quiet⟩
    | _ => trivial

theorem onward_scan : Onward w.files (w.scan p []).2.files := by
  simp only [World.scan]
  split
  · exact .refl _
  · refine recoverAll_induction (I := fun v => Onward w.files v.files) ?_ (.refl _)
    intro v id _ _ h
    obtain ⟨_, files, -, same | ⟨-, rfl⟩, e⟩ | ⟨_, _, -, e⟩ :=
      recover_cases v p (w.process p).dir id <;> rw [e]
    · exact same ▸ h
    · refine h.trans ?_
      simp only [unlinkUnlocked]
      split
      · exact .refl _
      · split
        · exact .refl _
        · split
          · exact .unlink ‹_›
          · exact .refl _
    · exact h

theorem onward_releaseFrom : Onward w.files (w.releaseFrom r b).2.files := by
  by_cases one : (w.registry r).count = 1
  · rw [releaseFrom_of_eq one]
    have unlocked : Onward w.files (w.files.unlock (w.registry r).handle?.toList) :=
      ⟨Nat.le_refl _, .inl⟩
    split
    · exact unlocked.trans (.unlink ‹_›)
    · exact unlocked
    · exact unlocked
  · rw [releaseFrom_of_ne one]
    exact .refl _

/-- Whatever a log does to the files, no inode comes back. -/
theorem onward_step (allowed : Undisturbed r w s) : Onward w.files (w.step s).2.files := by
  obtain ⟨-, quiet⟩ := allowed
  have clerical (quiet : isClerical s = true) : Onward w.files (w.step s).2.files := by
    rw [files_step quiet]
    exact .refl _
  cases s with
  | outside change | openLog config node | crash q | hostSweep | claim q id | unclaim q id
  | bind r' l node => exact quiet.elim
  | create q xid | createIn q dir xid => exact (alters_createIn _ xid).toOnward
  | record r' l => exact (alters_record l).toOnward
  | enlist r' l node =>
      rw [files_step_enlist]
      exact (alters_record l).toOnward
  | release b => exact onward_releaseFrom
  | releaseFrom r' b => exact onward_releaseFrom
  | scan q during | sweep q during =>
      cases quiet
      exact onward_scan
  | relocate q base | mark b | doubtVia r' b | register q | unregister q | doubt q bs
  | settle q b => exact clerical rfl

/-! The three phases of a registry: it does not exist, it has its file, its file is gone. -/

structure Live (r : RegistryRef) (w : World) (a : Account) : Prop where
  backing : Backing ⟨0⟩ w
  unspent : Unspent ⟨0⟩ w r
  home : ∃ place inode, Backed w r place inode ∧ a.home = some inode ∧
    w.files.content inode = a.written
  count : (w.registry r).count + a.released.length = a.additions
  solvent : a.Solvent

structure Lost (r : RegistryRef) (w : World) (a : Account) : Prop where
  entered : r.index < w.registries.length
  home : ∃ inode, a.home = some inode ∧ inode < w.files.contents.length ∧
    ∀ place, w.files.node? place ≠ some (.file inode)

variable {a : Account}

theorem Live.retains (h : Live r w a) : Retains w r a := by
  obtain ⟨place, inode, backed, home, written⟩ := h.home
  refine ⟨inode, home, backed.home.inodeAt, written, ?_⟩
  rw [h.unspent.2.1]
  exact h.backing.mem_openIds h.unspent

theorem Lost.not_retains (h : Lost r w a) : ¬Retains w r a := by
  rintro ⟨inode, home, located, -⟩
  obtain ⟨inode', home', -, nowhere⟩ := h.home
  obtain ⟨place, -, stands⟩ := inodeAt_eq_ok_iff.mp located
  rw [home] at home'
  cases home'
  exact nowhere place stands

/-- A registry that is entered has its file, and no release has been made. -/
theorem live_entered (h : Backing ⟨0⟩ w) (allowed : Sheltered ⟨0⟩ w s)
    (hr : Entered w (w.step s).2 ⟨0⟩ r) : Live r (w.step s).2 (.opened (w.step s).2 r) := by
  obtain ⟨place, inode, backed⟩ := h.backed_entered allowed hr
  refine ⟨h.step allowed, (Backing.unspent_step allowed.1).mpr (.inr hr),
    ⟨place, inode, backed, ?_, ?_⟩, rfl, fun counted => ?_⟩
  · simp only [Account.opened, backed.home.inodeAt]
    rfl
  · simp only [Account.opened, backed.home.inodeAt]
    rfl
  · exact Nat.pos_of_ne_zero counted

theorem noteFor_of_lt (lt : r.index < w.registries.length) (s : Step) (a : Account) :
    noteFor r w s a =
      if recordsIn? s = some r then
        { a with additions := a.additions + 1, written := a.written ++ w.appended r s }
      else if w.releasesFrom? s = some r then
        { a with released := (releases? s).toList ++ a.released }
      else a := by
  unfold noteFor
  exact if_neg fun new => Nat.not_lt.mpr new.1 lt

theorem released_of_undisturbed (allowed : Undisturbed r' w s)
    (out : w.releasesFrom? s = some r) :
    ∃ b, releases? s = some b ∧ w.HasBranch b ∧ (w.branch b).registry = r := by
  obtain ⟨admitted, quiet⟩ := allowed
  cases s <;> simp only [releasesFrom?, Option.some.injEq, reduceCtorEq] at out
  · exact ⟨_, rfl, admitted, out⟩
  · exact ⟨_, rfl, admitted.2, quiet.trans out⟩

theorem appended_of_not_recordsIn? (unrecorded : recordsIn? s ≠ some r) : w.appended r s = [] := by
  cases s <;> simp only [appended]
  all_goals
    rw [if_neg]
    rintro ⟨rfl, -⟩
    exact unrecorded rfl

/-- A registry that is not ended keeps its file, and its account stays right. -/
theorem Live.step (h : Live r w a) (one : w.processes.length = 1) (allowed : Undisturbed r w s)
    (covered : w.handles r ≤ a.additions) (stays : ¬w.Ends s r) :
    Live r (w.step s).2 (noteFor r w s a) := by
  obtain ⟨place, inode, backed, home, written⟩ := h.home
  have sheltered := sheltered_of_undisturbed one allowed fun _ => h.unspent.2.2
  have lt := h.unspent.1
  have content := h.backing.content_step sheltered h.unspent backed
  have counted := count_step lt s
  have total := h.count
  have kept : Backed (w.step s).2 r place inode := h.backing.kept sheltered h.unspent backed stays
  have alive : Unspent ⟨0⟩ (w.step s).2 r :=
    (Backing.unspent_step sheltered.1).mpr (.inl ⟨h.unspent, stays⟩)
  rw [tally] at counted
  rw [noteFor_of_lt lt]
  by_cases into : recordsIn? s = some r
  · rw [if_pos into] at counted ⊢
    refine ⟨h.backing.step sheltered, alive, ⟨place, inode, kept, home, ?_⟩, ?_, fun _ => ?_⟩
    · rw [content, written]
    · simp only
      omega
    · have := h.solvent
      simp only [Account.Solvent] at this ⊢
      omega
  · rw [appended_of_not_recordsIn? into, List.append_nil, written] at content
    rw [if_neg into] at counted ⊢
    by_cases out : w.releasesFrom? s = some r
    · obtain ⟨b, e, has, own⟩ := released_of_undisturbed allowed out
      have positive := handles_pos has
      have fewer := h.solvent (by rw [own] at positive; omega)
      have more : (w.registry r).count ≠ 1 := fun one => stays ⟨out, one⟩
      rw [if_pos out] at counted ⊢
      refine ⟨h.backing.step sheltered, alive, ⟨place, inode, kept, home, content⟩, ?_, fun _ => ?_⟩
      · simp only [e, Option.toList_some, List.length_append, List.length_singleton]
        omega
      · simp only [e, Option.toList_some, List.length_append, List.length_singleton]
        omega
    · rw [if_neg out] at counted ⊢
      refine ⟨h.backing.step sheltered, alive, ⟨place, inode, kept, home, content⟩, ?_, h.solvent⟩
      rw [counted, h.count]

/-- A registry that is ended loses its file, and it has been released as often as it had
branches. -/
theorem Live.lost (h : Live r w a) (allowed : Undisturbed r w s) (ends : w.Ends s r) :
    Lost r (w.step s).2 (noteFor r w s a) ∧ ¬(noteFor r w s a).Solvent := by
  have lt := h.unspent.1
  have into : recordsIn? s ≠ some r := fun e => by
    have out := ends.1
    cases s <;> simp only [recordsIn?, reduceCtorEq] at e <;>
      simp only [releasesFrom?, reduceCtorEq] at out
  obtain ⟨b, e, -, -⟩ := released_of_undisturbed allowed ends.1
  rw [noteFor_of_lt lt, if_neg into, if_pos ends.1]
  refine ⟨⟨Nat.lt_of_lt_of_le lt (extends_step w s).registries, ?_⟩, ?_⟩
  · obtain ⟨place, inode, backed, home, -⟩ := h.home
    obtain ⟨b', same⟩ := step_eq_releaseFrom ends.1
    obtain ⟨place', inode', backed', -, files⟩ := h.backing.releaseFrom h.unspent.2.1 ends.2 b'
    have located := backed.home.located.symm.trans backed'.home.located
    cases located
    refine ⟨inode, home, ?_, fun other stands => ?_⟩
    · exact Nat.lt_of_lt_of_le (h.backing.sound.lt backed.home.file) (onward_step allowed).numbered
    · rw [same] at stands
      simp only [World.step, Prod.map_snd, id_eq, files, node?_remove, node?_unlock] at stands
      split at stands
      · cases stands
      · rename_i elsewhere
        obtain rfl := h.backing.sound.eq_of_file stands backed.home.file
        refine elsewhere ⟨rfl, ?_⟩
        rintro rfl
        simp at stands
  · have total := h.count
    have one := ends.2
    simp only [Account.Solvent, e, Option.toList_some, List.length_append, List.length_singleton]
    omega

theorem Lost.step (h : Lost r w a) (allowed : Undisturbed r w s) :
    Lost r (w.step s).2 (noteFor r w s a) := by
  obtain ⟨inode, home, lt, nowhere⟩ := h.home
  have same : (noteFor r w s a).home = a.home := by
    rw [noteFor_of_lt h.entered]
    split
    · rfl
    · split <;> rfl
  exact ⟨Nat.lt_of_lt_of_le h.entered (extends_step w s).registries, inode, same.trans home,
    (onward_step allowed).lost lt nowhere⟩

/-! Runs. -/

theorem forall_prefix_concat {past : List Step} {P : List Step → Prop} :
    (∀ earlier, earlier <+: past ++ [s] → P earlier) ↔
      (∀ earlier, earlier <+: past → P earlier) ∧ P (past ++ [s]) := by
  simp only [List.prefix_concat_iff, or_imp, forall_and, forall_eq]
  exact and_comm

/-- The account of a registry has always been solvent. -/
def SolventAlong (r : RegistryRef) (steps : List Step) (start : World) : Prop :=
  ∀ past, past <+: steps → (account r past start).Solvent

/-- What holds of a registry and its account after a run, from before it is entered on. -/
structure Followed (r : RegistryRef) (w : World) (a : Account) (solvent : Prop) : Prop where
  one : w.processes.length = 1
  bound : Bound w
  covered : r.index < w.registries.length → w.handles r ≤ a.additions
  mine : a.released ⊆ w.handlesOf r
  phase : (w.registries.length ≤ r.index ∧ Backing ⟨0⟩ w ∧ a = .none ∧ solvent) ∨
    (Live r w a ∧ solvent) ∨ (Lost r w a ∧ ¬solvent)

theorem Undisturbed.recorded (allowed : Undisturbed r' w s) (into : recordsIn? s = some r) :
    r.index < w.registries.length := by
  have admitted := allowed.1
  cases s <;> simp only [recordsIn?, Option.some.injEq, reduceCtorEq] at into
  all_goals exact into ▸ admitted.1

theorem Undisturbed.releases (allowed : Undisturbed r' w s) (out : w.releasesFrom? s = some r) :
    r.index < w.registries.length := by
  obtain ⟨b, -, has, own⟩ := released_of_undisturbed allowed out
  exact own ▸ has.2.1

theorem noteFor_of_not_entered (allowed : Undisturbed r w s)
    (ge : (w.step s).2.registries.length ≤ r.index) (a : Account) : noteFor r w s a = a := by
  have before := Nat.le_trans (extends_step w s).registries ge
  unfold noteFor
  rw [if_neg fun new => Nat.not_lt.mpr ge new.2,
    if_neg fun into => Nat.not_lt.mpr before (allowed.recorded into),
    if_neg fun out => Nat.not_lt.mpr before (allowed.releases out)]

theorem handled_of_undisturbed (h : Bound w) (allowed : Undisturbed r w s) :
    Handled (recordsIn? s) w (w.step s).2 :=
  handled_step h allowed.1 (fun _ _ _ e => by subst e; exact allowed.2)
    fun e => by subst e; exact allowed.2

/-- A step that meets the registry. -/
theorem Followed.step_of_lt {solvent : Prop} (h : Followed r w a solvent)
    (allowed : Undisturbed r w s) (one : (w.step s).2.processes.length = 1)
    (lt : r.index < w.registries.length) :
    Followed r (w.step s).2 (noteFor r w s a) (solvent ∧ (noteFor r w s a).Solvent) := by
  have handled := handled_of_undisturbed h.bound allowed
  refine ⟨one, handled.bound, fun _ => ?_, fun b mem => ?_, ?_⟩
  · have more := handled.old lt
    have covered := h.covered lt
    rw [noteFor_of_lt lt]
    by_cases into : recordsIn? s = some r
    · rw [if_pos into] at more ⊢
      simp only
      omega
    · rw [if_neg into] at more ⊢
      split <;> exact Nat.le_trans more covered
  · rw [noteFor_of_lt lt] at mem
    split at mem
    · exact handlesOf_step s (h.mine mem)
    · split at mem
      · rename_i out
        obtain ⟨b', e, has, own⟩ := released_of_undisturbed allowed out
        rw [e] at mem
        rcases List.mem_cons.mp mem with rfl | earlier
        · exact handlesOf_step s (mem_handlesOf_iff.mpr ⟨has.1, own⟩)
        · exact handlesOf_step s (h.mine earlier)
      · exact handlesOf_step s (h.mine mem)
  · rcases h.phase with ⟨ge, -⟩ | ⟨live, sol⟩ | ⟨lost, insolvent⟩
    · exact absurd lt (Nat.not_lt.mpr ge)
    · by_cases ends : w.Ends s r
      · obtain ⟨lost, insolvent⟩ := live.lost allowed ends
        exact .inr (.inr ⟨lost, fun sol => insolvent sol.2⟩)
      · have next := live.step h.one allowed (h.covered lt) ends
        exact .inr (.inl ⟨next, sol, next.solvent⟩)
    · exact .inr (.inr ⟨lost.step allowed, fun sol => insolvent sol.1⟩)

/-- A step before the registry is entered, or that enters it. -/
theorem Followed.step_of_ge {solvent : Prop} (h : Followed r w a solvent)
    (allowed : Undisturbed r w s) (one : (w.step s).2.processes.length = 1)
    (ge : w.registries.length ≤ r.index) :
    Followed r (w.step s).2 (noteFor r w s a) (solvent ∧ (noteFor r w s a).Solvent) := by
  have handled := handled_of_undisturbed h.bound allowed
  have sheltered := sheltered_of_undisturbed h.one allowed fun lt => absurd ge (Nat.not_le.mpr lt)
  obtain ⟨backing, rfl, sol⟩ : Backing ⟨0⟩ w ∧ a = .none ∧ solvent := by
    rcases h.phase with ⟨-, absent⟩ | ⟨live, -⟩ | ⟨lost, -⟩
    · exact absent
    · exact absurd live.unspent.1 (Nat.not_lt.mpr ge)
    · exact absurd lost.entered (Nat.not_lt.mpr ge)
  by_cases lt : r.index < (w.step s).2.registries.length
  · have opened : noteFor r w s .none = .opened (w.step s).2 r := by
      unfold noteFor
      exact if_pos ⟨ge, lt⟩
    have live := live_entered backing sheltered (entered_of_lt sheltered ge lt)
    rw [opened]
    exact ⟨one, handled.bound, fun _ => handled.new ge lt, nofun,
      .inr (.inl ⟨live, sol, live.solvent⟩)⟩
  · have still := Nat.le_of_not_lt lt
    rw [noteFor_of_not_entered allowed still]
    refine ⟨one, handled.bound, fun new => absurd new lt, nofun, .inl ⟨still, ?_, rfl, sol, ?_⟩⟩
    · exact backing.step sheltered
    · exact fun counted => absurd rfl counted

theorem Followed.step {solvent : Prop} (h : Followed r w a solvent) (allowed : Undisturbed r w s) :
    Followed r (w.step s).2 (noteFor r w s a) (solvent ∧ (noteFor r w s a).Solvent) := by
  have unopened : ∀ config node, s ≠ .openLog config node := by
    rintro _ _ rfl
    exact allowed.2
  have one := (length_processes_step w unopened).trans h.one
  by_cases lt : r.index < w.registries.length
  · exact h.step_of_lt allowed one lt
  · exact h.step_of_ge allowed one (Nat.le_of_not_lt lt)

variable {steps : List Step} {changes : List FileStep} {config : Config} {node : String}

/-- A world of one process, on any files. -/
def alone (changes : List FileStep) (config : Config) (node : String) : World :=
  ((ofFiles (FileSystem.empty.applyAll changes)).openLog config node).2

theorem backing_alone : Backing ⟨0⟩ (alone changes config node) where
  sound := FileSystem.Sound.empty.applyAll changes
  owned := .of_nothing (fun _ hr => Nat.not_lt_zero _ hr.1) OpenSet.not_mem_empty
  backed hr := absurd hr.1 (Nat.not_lt_zero _)

theorem followed_along (h : Along (Undisturbed r) steps (alone changes config node)) :
    let start := alone changes config node
    Followed r (after steps start) (account r steps start) (SolventAlong r steps start) := by
  refine along_induction (P := Undisturbed r)
    (I := fun past w => Followed r w (account r past (alone changes config node))
      (SolventAlong r past (alone changes config node))) ?_ ?_ steps h
  · refine ⟨rfl, fun _ _ => rfl, fun lt => absurd lt (Nat.not_lt_zero _), nofun, .inl
      ⟨Nat.zero_le _, backing_alone, rfl, ?_⟩⟩
    rintro past before counted
    rw [List.prefix_nil.mp before] at counted
    exact absurd rfl counted
  · intro past s _ allowed followed
    have e : account r (past ++ [s]) (alone changes config node) =
        noteFor r (after past (alone changes config node)) s
          (account r past (alone changes config node)) :=
      observe_concat ..
    have both : SolventAlong r (past ++ [s]) (alone changes config node) =
        (SolventAlong r past (alone changes config node) ∧
          (account r (past ++ [s]) (alone changes config node)).Solvent) :=
      propext forall_prefix_concat
    rw [both, e]
    exact followed.step allowed

/-- No handle of the registry has been released twice, and one has not been released. -/
def OneLeft (r : RegistryRef) (w : World) (a : Account) : Prop :=
  a.released.Nodup ∧ (a.additions ≠ 0 → ∃ b ∈ w.handlesOf r, b ∉ a.released)

instance (r : RegistryRef) (w : World) (a : Account) : Decidable (OneLeft r w a) :=
  inferInstanceAs (Decidable (_ ∧ (_ → _)))

/-- A registry keeps its file and its identifier exactly as long as it has been released fewer times
than it has had branches. As long as no handle is released twice, one that is left is enough. -/
theorem retained_iff (h : Along (Undisturbed r) steps (alone changes config node))
    (entered : r.index < (after steps (alone changes config node)).registries.length) :
    let start := alone changes config node
    let w := after steps start
    (Retains w r (account r steps start) ↔
        ∀ past, past <+: steps → (account r past start).Solvent) ∧
      ((∀ past, past <+: steps → OneLeft r (after past start) (account r past start)) →
        Retains w r (account r steps start)) := by
  intro start w
  have exactly : Retains w r (account r steps start) ↔ SolventAlong r steps start := by
    rcases (followed_along h).phase with ⟨ge, -⟩ | ⟨live, sol⟩ | ⟨lost, insolvent⟩
    · exact absurd entered (Nat.not_lt.mpr ge)
    · exact iff_of_true live.retains sol
    · exact iff_of_false lost.not_retains insolvent
  refine ⟨exactly, fun left => exactly.mpr fun past before counted => ?_⟩
  obtain ⟨once, unreleased⟩ := left past before
  obtain ⟨b, mem, kept⟩ := unreleased counted
  obtain ⟨later, rfl⟩ := before
  have followed := followed_along (along_append.mp h).1
  have lt : r.index < (after past start).registries.length := by
    by_contra absent
    have bound := followed.bound r (Nat.le_of_not_lt absent)
    have mem_pos := List.length_pos_of_mem mem
    rw [length_handlesOf, bound] at mem_pos
    exact absurd mem_pos (Nat.lt_irrefl 0)
  exact Nat.lt_of_lt_of_le (length_lt_handles once followed.mine mem kept) (followed.covered lt)

/-- A registry gets two branches, and the first of them is released. -/
def halfReleased : List Step :=
  [.create ⟨0⟩ .sample, .enlist ⟨0⟩ .sample "n", .enlist ⟨0⟩ .sample "n", .release ⟨0⟩]

theorem retained_iff_halfReleased :
    let start := alone [] {} "n"
    Along (Undisturbed ⟨0⟩) halfReleased start ∧
      Retains (after halfReleased start) ⟨0⟩ (account ⟨0⟩ halfReleased start) := by
  intro start
  have allowed : Along (Undisturbed ⟨0⟩) halfReleased start := by decide +kernel
  have left : ∀ past ∈ halfReleased.inits,
      OneLeft ⟨0⟩ (after past start) (account ⟨0⟩ past start) := by
    decide +kernel
  have kept := (retained_iff allowed (by decide +kernel)).2 fun past before =>
    left past ((List.mem_inits _ _).mpr before)
  exact ⟨allowed, kept⟩

/-- The first branch is released once more, and the file is gone while the second is left. -/
theorem not_retained_repeated :
    let start := alone [] {} "n"
    let steps := halfReleased ++ [.release ⟨0⟩]
    let w := after steps start
    Along (Undisturbed ⟨0⟩) steps start ∧ ⟨1⟩ ∈ w.handlesOf ⟨0⟩ ∧
      ⟨1⟩ ∉ (account ⟨0⟩ steps start).released ∧
      (w.registry ⟨0⟩).id ∉ (w.process (w.registry ⟨0⟩).owner).openIds ∧
      ¬Retains w ⟨0⟩ (account ⟨0⟩ steps start) := by
  intro start steps w
  have freed : (w.registry ⟨0⟩).id ∉ (w.process (w.registry ⟨0⟩).owner).openIds := by decide +kernel
  refine ⟨by decide +kernel, by decide +kernel, by decide +kernel, freed, ?_⟩
  rintro ⟨_, -, -, -, claimed⟩
  exact freed claimed

end InDoubt.World

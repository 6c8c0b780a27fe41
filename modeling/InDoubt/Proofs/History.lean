import InDoubt.Proofs.Growth
import InDoubt.Proofs.Sifting
import Mathlib.Data.List.DropRight

/-!
The list of branches in doubt as a history. A step of a run puts branches at the end of the list of
a process or drops every mention of one from it, and which of the two is told without looking at the
list. What is listed at any point is what has been put there and not been dropped since, in order
(`inDoubt_faithful`). Branches are told apart as references, so one that equals another in all its
parts stays when that is dropped.
-/

namespace InDoubt

/-- What happens to a list of branches: one is put at its end, or every mention of one is
dropped. -/
inductive Note
  | listed (b : BranchRef)
  | dropped (b : BranchRef)
  deriving DecidableEq

/-- The branches that are listed in a history and not dropped later, in the order of listing. -/
def standing : List Note → List BranchRef
  | [] => []
  | .listed b :: later => if .dropped b ∈ later then standing later else b :: standing later
  | .dropped _ :: later => standing later

/-- The end of a history since a branch was dropped the last time, or all of it. -/
def sinceDropped (b : BranchRef) (past : List Note) : List Note :=
  past.rtakeWhile (· ≠ .dropped b)

section Standing

variable (past : List Note) (b : BranchRef)

theorem standing_listed : standing (past ++ [.listed b]) = standing past ++ [b] := by
  induction past with
  | nil => rfl
  | cons note later ih =>
      cases note with
      | listed c =>
          have same : Note.dropped c ∈ later ++ [.listed b] ↔ .dropped c ∈ later := by simp
          simp only [List.cons_append, standing, same, ih]
          split <;> rfl
      | dropped c => exact ih

theorem standing_dropped : standing (past ++ [.dropped b]) = (standing past).filter (· ≠ b) := by
  induction past with
  | nil => rfl
  | cons note later ih =>
      cases note with
      | listed c =>
          have either : Note.dropped c ∈ later ++ [.dropped b] ↔ .dropped c ∈ later ∨ c = b := by
            simp
          simp only [List.cons_append, standing, either, ih]
          by_cases same : c = b
          · subst same
            by_cases gone : Note.dropped c ∈ later <;> simp [gone]
          · by_cases gone : Note.dropped c ∈ later <;> simp [gone, same]
      | dropped c => exact ih

theorem standing_append_listed (bs : List BranchRef) :
    standing (past ++ bs.map .listed) = standing past ++ bs := by
  induction bs generalizing past with
  | nil => simp
  | cons b rest ih =>
      have next := ih (past ++ [.listed b])
      rwa [standing_listed, List.append_assoc, List.append_assoc] at next

/-- A branch stands as often as it has been listed since it was dropped the last time. -/
theorem count_standing :
    (standing past).count b = (sinceDropped b past).count (.listed b) := by
  induction past using List.reverseRecOn with
  | nil => rfl
  | append_singleton past note ih =>
      unfold sinceDropped at ih ⊢
      cases note with
      | listed c =>
          rw [standing_listed, List.rtakeWhile_concat_pos _ _ _ (by simp), List.count_append,
            List.count_append, ih]
          by_cases same : c = b <;> simp [same]
      | dropped c =>
          rw [standing_dropped]
          by_cases same : c = b
          · subst same
            rw [List.rtakeWhile_concat_neg _ _ _ (by simp)]
            exact List.count_eq_zero.mpr (by simp)
          · rw [List.rtakeWhile_concat_pos _ _ _ (by simpa using same), List.count_append, ← ih,
              List.count_filter (by simpa using Ne.symm same)]
            simp

end Standing

namespace World

variable {u v w : World} {p q : ProcessRef} {r : RegistryRef} {b : BranchRef} {s : Step}
  {steps : List Step} {files : FileSystem}

/-! What a step does to the list of a process. -/

/-- The branches that have been made from one world to another, of registries of a process. -/
def found (p : ProcessRef) (w v : World) : List BranchRef :=
  (branchRefs w.branches.length (v.branches.length - w.branches.length)).filter fun b =>
    (v.registry (v.branch b).registry).owner = p

/-- The branch that a step drops from the list of a process, whatever the step answers. -/
def drops? (p : ProcessRef) (w : World) : Step → Option BranchRef
  | .release b => if (w.registry (w.branch b).registry).owner = p then some b else none
  | .releaseFrom r b => if (w.registry r).owner = p then some b else none
  | .settle q b => if q = p then some b else none
  | _ => none

/-- The branches that a step puts at the end of the list of a process. A scan makes the branches
that it lists, those of the registries that it recovers. -/
def lists (p : ProcessRef) (w : World) (s : Step) : List BranchRef :=
  match s with
  | .mark b => if (w.registry (w.branch b).registry).owner = p then [b] else []
  | .doubtVia r b => if (w.registry r).owner = p then [b] else []
  | .doubt q bs => if q = p then bs else []
  | .scan _ _ | .sweep _ _ | .hostSweep => found p w (w.step s).2
  | _ => []

/-- What a step does to the list of a process. -/
def notes (p : ProcessRef) (w : World) (s : Step) : List Note :=
  (drops? p w s).toList.map .dropped ++ (lists p w s).map .listed

/-- What a run has done to the list of a process. A process that has crashed has no list, and what
was done to it is history no more. -/
def history (p : ProcessRef) (steps : List Step) (start : World) : List Note :=
  observe (fun w s past => if s = .crash p then [] else past ++ notes p w s) steps start []

theorem standing_notes (past : List Note) (p : ProcessRef) (w : World) (s : Step) :
    standing (past ++ notes p w s) =
      (standing past).filter (drops? p w s ≠ some ·) ++ lists p w s := by
  rw [notes, ← List.append_assoc, standing_append_listed]
  cases drops? p w s with
  | none => simp
  | some b =>
      have gone : standing (past ++ (some b).toList.map .dropped) =
          (standing past).filter (· ≠ b) := standing_dropped past b
      rw [gone]
      simp [eq_comm]

/-! Lists that one operation changes. -/

theorem inDoubt_doubt (running : q.index < w.processes.length) (bs : List BranchRef) :
    ((w.doubt q bs).process p).inDoubt = (w.process p).inDoubt ++ if q = p then bs else [] := by
  unfold doubt
  by_cases same : q = p
  · subst same
    rw [process_updateProcess_self running, if_pos rfl]
  · rw [process_updateProcess_of_ne (Ne.symm same), if_neg same, List.append_nil]

theorem inDoubt_settle_of_ne (other : q ≠ p) :
    ((w.settle q b).process p).inDoubt = (w.process p).inDoubt := by
  rw [settle, process_updateProcess_of_ne (Ne.symm other)]

theorem inDoubt_releaseFrom_of_ne (other : (w.registry r).owner ≠ p) :
    ((w.releaseFrom r b).2.process p).inDoubt = (w.process p).inDoubt := by
  have kept (files : FileSystem) (id : String) :
      (((w.retire r files).unclaim (w.registry r).owner id).2.process p).inDoubt =
        (w.process p).inDoubt := by
    refine part_updateProcess (w := w.retire r files) (·.inDoubt) ?_ p
    exact fun _ => rfl
  by_cases one : (w.registry r).count = 1
  · rw [releaseFrom_of_eq one]
    split
    · rw [inDoubt_settle_of_ne other, kept]
    · rw [inDoubt_settle_of_ne other, kept]
    · exact inDoubt_settle_of_ne other
  · rw [releaseFrom_of_ne one]
    exact inDoubt_settle_of_ne other

theorem inDoubt_createIn (dir : String) (xid : Xid) :
    ((w.createIn q dir xid).2.process p).inDoubt = (w.process p).inDoubt := by
  obtain ⟨_, files, -, e⟩ | ⟨_, inode, made, -, -, -, e⟩ := createIn_cases w q dir xid <;> rw [e]
  · rfl
  · refine part_updateProcess (·.inDoubt) ?_ p
    exact fun _ => rfl

theorem inDoubt_unregister : ((w.unregister q).process p).inDoubt = (w.process p).inDoubt :=
  part_unregister (·.inDoubt) (fun _ => rfl) q p

/-! What recovery lists. -/

/-- From one world to another, each process has come to list the branches that have been made for
its registries, and has lost none. -/
structure Uncovers (w v : World) : Prop where
  extended : Extends w v
  number : v.processes.length = w.processes.length
  bound : ∀ {b : BranchRef}, w.branches.length ≤ b.index → b.index < v.branches.length →
    (v.branch b).registry.index < v.registries.length
  inDoubt : ∀ p, (v.process p).inDoubt = (w.process p).inDoubt ++ found p w v

theorem mem_branchRefs_iff {first number : Nat} :
    b ∈ branchRefs first number ↔ first ≤ b.index ∧ b.index < first + number := by
  simp only [branchRefs, List.mem_map, List.mem_range]
  constructor
  · rintro ⟨i, lt, rfl⟩
    exact ⟨Nat.le_add_right .., Nat.add_lt_add_left lt first⟩
  · rintro ⟨ge, lt⟩
    exact ⟨b.index - first, by omega, by rw [Nat.add_sub_cancel' ge]⟩

theorem found_of_branches (same : v.branches.length = w.branches.length) : found p w v = [] := by
  simp [found, branchRefs, same]

namespace Uncovers

theorem of_eq (registries : v.registries = w.registries) (branches : v.branches = w.branches)
    (processes : v.processes = w.processes) : Uncovers w v where
  extended := .of_eq registries branches (congrArg List.length processes)
  number := congrArg List.length processes
  bound ge lt := absurd (branches ▸ lt) (Nat.not_lt.mpr ge)
  inDoubt p := by
    rw [found_of_branches (congrArg List.length branches), List.append_nil]
    exact congrArg Process.inDoubt (process_congr processes p)

theorem trans (h : Uncovers u v) (k : Uncovers v w) : Uncovers u w := by
  have more := h.extended.branches.length_le
  have more' := k.extended.branches.length_le
  refine ⟨h.extended.trans k.extended, k.number.trans h.number, fun {b} ge lt => ?_, fun p => ?_⟩
  · by_cases old : b.index < v.branches.length
    · rw [k.extended.branch old]
      exact Nat.lt_of_lt_of_le (h.bound ge old) k.extended.registries
    · exact k.bound (Nat.le_of_not_lt old) lt
  · -- What has been found first belongs to the same processes later on.
    have first : (branchRefs u.branches.length (v.branches.length - u.branches.length)).filter
        (fun b => (w.registry (w.branch b).registry).owner = p) = found p u v := by
      refine List.filter_congr fun b mem => ?_
      obtain ⟨ge, lt⟩ := mem_branchRefs_iff.mp mem
      have old : b.index < v.branches.length := by omega
      rw [k.extended.branch old, k.extended.owner (h.bound ge old)]
    have split : w.branches.length - u.branches.length =
        (v.branches.length - u.branches.length) + (w.branches.length - v.branches.length) := by
      omega
    have both : found p u w = found p u v ++ found p v w := by
      rw [found, split, branchRefs_add, Nat.add_sub_cancel' more, List.filter_append, first]
      rfl
    rw [k.inDoubt, h.inDoubt, both, List.append_assoc]

theorem adopt (running : q.index < w.processes.length) (id path : String) (ls : List Locator) :
    Uncovers w (w.adopt q id path ls).2 := by
  have entered := registries_adopt w q id path ls
  have branches := branches_adopt w q id path ls
  have number : (w.adopt q id path ls).2.branches.length - w.branches.length = ls.length := by
    simp [branches]
  have made {b : BranchRef} (ge : w.branches.length ≤ b.index)
      (lt : b.index < (w.adopt q id path ls).2.branches.length) :
      ((w.adopt q id path ls).2.branch b).registry = ⟨w.registries.length⟩ := by
    rw [branches, List.length_append, List.length_map] at lt
    have added : ((w.adopt q id path ls).2.branch b) =
        ⟨ls[b.index - w.branches.length], (w.process q).node, ⟨w.registries.length⟩⟩ := by
      simp only [World.branch, branches]
      rw [List.getD_append_right _ _ _ _ ge, List.getD_eq_getElem _ _ (by simp; omega),
        List.getElem_map]
    rw [added]
  have owner : ((w.adopt q id path ls).2.registry ⟨w.registries.length⟩).owner = q := by
    rw [registry_append_new entered]
  refine ⟨extends_adopt .., by simp [processes_adopt], fun {b} ge lt => ?_, fun p => ?_⟩
  · rw [made ge lt, entered, List.length_append]
    exact Nat.lt_succ_self _
  · have here : found p w (w.adopt q id path ls).2 =
        if q = p then branchRefs w.branches.length ls.length else [] := by
      have mine (b : BranchRef) (mem : b ∈ branchRefs w.branches.length ls.length) :
          ((w.adopt q id path ls).2.registry
            ((w.adopt q id path ls).2.branch b).registry).owner = q := by
        obtain ⟨ge, lt⟩ := mem_branchRefs_iff.mp mem
        rw [made ge (by simpa [branches] using lt), owner]
      rw [found, number]
      split
      · rename_i same
        exact List.filter_eq_self.mpr fun b mem => decide_eq_true ((mine b mem).trans same)
      · rename_i other
        refine List.filter_eq_nil_iff.mpr fun b mem same => other ?_
        exact (mine b mem).symm.trans (of_decide_eq_true same)
    rw [here, process_congr (w := w.updateProcess q _) (processes_adopt ..)]
    by_cases same : q = p
    · subst same
      rw [process_updateProcess_self running, if_pos rfl]
      rfl
    · rw [process_updateProcess_of_ne (Ne.symm same), if_neg same, List.append_nil]

theorem scan (running : q.index < w.processes.length) (during : List FileStep) :
    Uncovers w (w.scan q during).2 := by
  refine scan_induction (I := Uncovers w) (fun _ h => h.trans (.of_eq rfl rfl rfl)) ?_ during
    (.of_eq rfl rfl rfl)
  intro v id path l ls _ h
  exact h.trans (.adopt (h.number ▸ running) ..)

theorem hostSweep (running : ∀ q ∈ w.callbacks, w.Runs q) : Uncovers w w.hostSweep.2 := by
  refine sweepEach_induction (I := Uncovers w) ?_ (.of_eq rfl rfl rfl)
  intro v q mem h
  exact h.trans (.scan (h.number ▸ (running q mem).1) [])

end Uncovers

/-! Steps and runs. -/

/-- A step drops one branch from the list of a process or puts some at its end, and leaves all else
in its place. -/
theorem inDoubt_step (admitted : w.Admits s) (lives : s ≠ .crash p) :
    ((w.step s).2.process p).inDoubt =
      (w.process p).inDoubt.filter (drops? p w s ≠ some ·) ++ lists p w s := by
  have same {v : World} (undropped : drops? p w s = none) (unlisted : lists p w s = [])
      (still : (v.process p).inDoubt = (w.process p).inDoubt) : (v.process p).inDoubt =
        (w.process p).inDoubt.filter (drops? p w s ≠ some ·) ++ lists p w s := by
    rw [undropped, unlisted, still]
    simp
  have more {v : World} (undropped : drops? p w s = none)
      (longer : (v.process p).inDoubt = (w.process p).inDoubt ++ lists p w s) :
      (v.process p).inDoubt =
        (w.process p).inDoubt.filter (drops? p w s ≠ some ·) ++ lists p w s := by
    rw [undropped, longer]
    simp
  have released (r : RegistryRef) (b : BranchRef) : ((w.releaseFrom r b).2.process p).inDoubt =
      (w.process p).inDoubt.filter
        ((if (w.registry r).owner = p then some b else none) ≠ some ·) := by
    by_cases mine : (w.registry r).owner = p
    · rw [inDoubt_releaseFrom mine]
      simp [mine, eq_comm]
    · rw [inDoubt_releaseFrom_of_ne mine]
      simp [mine]
  cases s with
  | outside change =>
      refine same rfl rfl ?_
      rw [step_outside]
      rfl
  | openLog config node => exact same rfl rfl (part_openLog (·.inDoubt) rfl p)
  | crash q =>
      have other : p ≠ q := fun e => lives (congrArg Step.crash e.symm)
      refine same rfl rfl ?_
      exact (congrArg Process.inDoubt (process_crash_of_ne other)).trans inDoubt_unregister
  | relocate q base => exact same rfl rfl (part_relocate (·.inDoubt) (fun _ _ => rfl) q base p)
  | create q xid => exact same rfl rfl (inDoubt_createIn _ xid)
  | createIn q dir xid => exact same rfl rfl (inDoubt_createIn dir xid)
  | record r l => exact same rfl rfl (congrArg _ (process_congr (processes_record ..) p))
  | enlist r l node => exact same rfl rfl (congrArg _ (process_congr (processes_enlist ..) p))
  | bind r l node => exact same rfl rfl rfl
  | release b => exact (released _ b).trans (List.append_nil _).symm
  | releaseFrom r b => exact (released r b).trans (List.append_nil _).symm
  | mark b => exact more rfl (inDoubt_doubt admitted.2.2.1 [b])
  | doubtVia r b => exact more rfl (inDoubt_doubt admitted.1.2.1 [b])
  | doubt q bs => exact more rfl (inDoubt_doubt admitted.1.1 bs)
  | scan q during => exact more rfl ((Uncovers.scan admitted.1 during).inDoubt p)
  | sweep q during => exact more rfl ((Uncovers.scan admitted.1 during).inDoubt p)
  | hostSweep => exact more rfl ((Uncovers.hostSweep admitted).inDoubt p)
  | settle q b =>
      refine Eq.trans ?_ (List.append_nil _).symm
      by_cases mine : q = p
      · subst mine
        simp only [step, inDoubt_settle]
        simp [drops?, eq_comm]
      · simp only [step, inDoubt_settle_of_ne mine]
        simp [drops?, mine]
  | register q | claim q id | unclaim q id =>
      refine same rfl rfl ?_
      refine part_updateProcess (·.inDoubt) ?_ p
      exact fun _ => rfl
  | unregister q => exact same rfl rfl inDoubt_unregister

/-- A scan that cannot list its directory lists no branch. -/
theorem lists_of_failed {during : List FileStep} {f : Failure}
    (failed : (w.scan q during).1 = .error f) :
    lists p w (.scan q during) = [] ∧ lists p w (.sweep q during) = [] := by
  have kept : (w.scan q during).2 = w := by
    cases listed : w.files.registryFiles (w.process q).dir with
    | error _ => rw [scan_of_unlisted listed]
    | ok _ =>
        rw [scan_eq_recoverAll listed] at failed
        cases failed
  have unfound : found p w (w.scan q during).2 = [] := found_of_branches (by rw [kept])
  exact ⟨unfound, unfound⟩

theorem inDoubt_crash (w : World) (p : ProcessRef) : ((w.crash p).process p).inDoubt = [] := by
  by_cases there : p.index < (w.crash p).processes.length
  · have ended : (w.crash p).process p = ((w.unregister p).updateProcess p
        fun proc => { proc with inDoubt := [], running := false }).process p := rfl
    rw [ended, process_updateProcess_self (by simpa [crash] using there)]
  · rw [process_of_le (Nat.le_of_not_lt there)]
    rfl

theorem inDoubt_along (h : Along Admits steps (ofFiles files)) (p : ProcessRef) :
    ((after steps (ofFiles files)).process p).inDoubt =
      standing (history p steps (ofFiles files)) := by
  refine along_induction
    (I := fun past w => (w.process p).inDoubt = standing (history p past (ofFiles files)))
    ?_ ?_ steps h
  · rw [process_of_le (Nat.zero_le _)]
    rfl
  · intro past s _ admitted earlier
    have next : history p (past ++ [s]) (ofFiles files) =
        if s = .crash p then []
        else history p past (ofFiles files) ++ notes p (after past (ofFiles files)) s :=
      observe_concat ..
    rw [next]
    split
    · rename_i crashed
      subst crashed
      exact inDoubt_crash _ p
    · rename_i lives
      rw [inDoubt_step admitted lives, earlier, standing_notes]

/-- At every point of a run, of any number of processes and whatever is done to the files, a process
has in doubt the branches that were listed and not dropped later, in the order of listing: each as
often as it was listed since it was dropped the last time. A further step drops all mentions of one
branch or puts some at the end, and leaves the others in their places; a scan that fails lists
none. -/
theorem inDoubt_faithful (admitted : Along Admits steps (ofFiles files)) (p : ProcessRef) :
    let w := after steps (ofFiles files)
    let past := history p steps (ofFiles files)
    (w.process p).inDoubt = standing past ∧
      (∀ b, (w.process p).inDoubt.count b = (sinceDropped b past).count (.listed b)) ∧
      (∀ s, w.Admits s → s ≠ .crash p → ((w.step s).2.process p).inDoubt =
        (w.process p).inDoubt.filter (drops? p w s ≠ some ·) ++ lists p w s) ∧
      ∀ q during f, (w.scan q during).1 = .error f →
        lists p w (.scan q during) = [] ∧ lists p w (.sweep q during) = [] := by
  intro w past
  have whole : (w.process p).inDoubt = standing past := inDoubt_along admitted p
  refine ⟨whole, fun b => ?_, fun s admitted' lives => inDoubt_step admitted' lives,
    fun q during f failed => lists_of_failed failed⟩
  rw [whole]
  exact count_standing past b

/-- Two branches with equal parts are marked several times, one of them through the registry of
another transaction. The first is released with success, then while its file is a directory, then
when nothing is left to release, and at last through the other registry. -/
def equalParts : List Step :=
  [.openLog {} "n", .create ⟨0⟩ .sample, .create ⟨0⟩ { Xid.sample with formatId := 2 },
    .enlist ⟨0⟩ .sample "n", .enlist ⟨0⟩ .sample "n",
    .mark ⟨0⟩, .mark ⟨1⟩, .mark ⟨0⟩, .release ⟨0⟩, .doubtVia ⟨1⟩ ⟨0⟩, .doubtVia ⟨1⟩ ⟨1⟩,
    .outside (.unlink (Utf8.encode (joinPath "./xa-recovery" Xid.sample.name))),
    .outside (.makeDirectories (Utf8.encode (joinPath "./xa-recovery" Xid.sample.name))),
    .release ⟨0⟩, .mark ⟨0⟩, .release ⟨0⟩, .mark ⟨0⟩, .releaseFrom ⟨1⟩ ⟨0⟩]

/-- The other branch is in doubt as often as it was marked, although it equals the first. -/
theorem inDoubt_faithful_equalParts :
    let start := ofFiles (FileSystem.empty.applyAll [])
    let w := after equalParts start
    Along Admits equalParts start ∧ w.branch ⟨0⟩ = w.branch ⟨1⟩ ∧
      (history ⟨0⟩ equalParts start).count (.dropped ⟨0⟩) = 4 ∧
      (w.process ⟨0⟩).inDoubt = [⟨1⟩, ⟨1⟩] := by
  intro start w
  have admitted : Along Admits equalParts start := by decide +kernel
  obtain ⟨whole, -⟩ := inDoubt_faithful admitted ⟨0⟩
  have left : standing (history ⟨0⟩ equalParts start) = [⟨1⟩, ⟨1⟩] := by decide +kernel
  exact ⟨admitted, by decide +kernel, by decide +kernel, whole.trans left⟩

end World

end InDoubt

import InDoubt.Proofs.FileSystem.Operations
import InDoubt.Proofs.OpenSet

/-!
Operations on a registry whose file has been deleted. Its count goes on: what is recorded in it is
counted, though nothing is written, and what is released from it is counted as well. A release that
finds the count at one deletes once more what stands at the path of the file, and frees the
identifier once more, though both may belong to a newer registry of the same transaction by then.
No other operation on it removes anything (`removes_iff_of_deletes`). So nothing is ever lost if
nothing is recorded in a registry after its file has been deleted.
-/

namespace InDoubt.World

variable {v w : World} {p : ProcessRef} {r : RegistryRef} {b : BranchRef} {s o : Step}
  {later : List Step}

/-- A branch is recorded in the registry or released from it. -/
def OperatesOn (w : World) (s : Step) (r : RegistryRef) : Prop :=
  recordsIn? s = some r ∨ w.releasesFrom? s = some r

/-- Some file, link or directory is there no longer after the step. -/
def RemovesEntry (w : World) (s : Step) : Prop :=
  ∃ entry ∈ w.files.entries, entry ∉ (w.step s).2.files.entries

/-- Some process owns an identifier no longer after the step. -/
def RemovesClaim (w : World) (s : Step) : Prop :=
  ∃ p id, id ∈ (w.process p).openIds ∧ id ∉ ((w.step s).2.process p).openIds

/-- How many more branches have been recorded in a registry than released from it in a run, where
releases that find none are not counted. -/
def surplus (r : RegistryRef) (steps : List Step) (w : World) : Nat := observe (tally r) steps w 0

theorem count_after (hr : r.index < w.registries.length) (steps : List Step) :
    ((after steps w).registry r).count = observe (tally r) steps w (w.registry r).count := by
  induction steps generalizing w with
  | nil => rfl
  | cons s rest ih =>
      have there := Nat.lt_of_lt_of_le hr (extends_step w s).registries
      rw [after_cons, ih there, count_step hr, observe]

/-- A file that has been closed is not opened again. -/
theorem handle?_step (hr : r.index < w.registries.length) (s : Step)
    (h : (w.registry r).handle? = none) : ((w.step s).2.registry r).handle? = none := by
  rw [registry_step hr]
  split
  · exact h
  · split
    · simp [h]
    · split
      · exact Registry.handle?_closed _
      · exact h

theorem handle?_after (hr : r.index < w.registries.length) (steps : List Step)
    (h : (w.registry r).handle? = none) : ((after steps w).registry r).handle? = none := by
  induction steps generalizing w with
  | nil => exact h
  | cons s rest ih =>
      exact ih (Nat.lt_of_lt_of_le hr (extends_step w s).registries) (handle?_step hr s h)

/-! What a release removes. -/

theorem entry_removed_of_unlink {fs tree : FileSystem} {path : Bytes}
    (h : fs.unlink path = .ok tree) : ∃ entry ∈ fs.entries, entry ∉ tree.entries := by
  obtain ⟨place, node, -, stands, other, -, rfl⟩ := FileSystem.unlink_eq_ok_iff.mp h
  have inside : place ≠ [] := by
    rintro rfl
    exact other (Option.some.inj stands).symm
  refine ⟨(place, node), FileSystem.mem_entries_of_node? inside stands, ?_⟩
  simp [FileSystem.remove]

/-- The file that a registry would delete, once it is closed, can be deleted. -/
def Deletable (w : World) (r : RegistryRef) : Prop :=
  ∃ tree, (w.files.unlock (w.registry r).handle?.toList).unlink
    (Utf8.encode (w.registry r).path) = .ok tree

/-- There is no file that a registry would delete. -/
def Gone (w : World) (r : RegistryRef) : Prop :=
  (w.files.unlock (w.registry r).handle?.toList).unlink
    (Utf8.encode (w.registry r).path) = .error .notFound

theorem removesClaim_releaseFrom :
    w.RemovesClaim (.releaseFrom r b) ↔ (w.registry r).count = 1 ∧ (w.Deletable r ∨ w.Gone r) ∧
      (w.registry r).id ∈ (w.process (w.registry r).owner).openIds := by
  have freed (p : ProcessRef) (id : String) :
      id ∈ ((w.releaseFrom r b).2.process p).openIds ↔ id ∈ (w.process p).openIds ∧
        ¬((w.registry r).count = 1 ∧ (w.releaseFrom r b).1 = .ok () ∧
          (w.registry r).owner = p ∧ id = (w.registry r).id) :=
    mem_openIds_releaseFrom
  constructor
  · rintro ⟨p, id, owned, free⟩
    have last : (w.registry r).count = 1 ∧ (w.releaseFrom r b).1 = .ok () ∧
        (w.registry r).owner = p ∧ id = (w.registry r).id := by
      by_contra uncovered
      exact free ((freed p id).mpr ⟨owned, uncovered⟩)
    obtain ⟨one, released, rfl, rfl⟩ := last
    exact ⟨one, (releaseFrom_eq_ok_iff one).mp released, owned⟩
  · rintro ⟨one, unlinked, owned⟩
    refine ⟨_, _, owned, fun still => ?_⟩
    exact ((freed _ _).mp still).2 ⟨one, (releaseFrom_eq_ok_iff one).mpr unlinked, rfl, rfl⟩

theorem removesEntry_releaseFrom :
    w.RemovesEntry (.releaseFrom r b) ↔ (w.registry r).count = 1 ∧ w.Deletable r := by
  by_cases one : (w.registry r).count = 1
  · simp only [RemovesEntry, step, Prod.map_snd, id_eq, releaseFrom_of_eq one, one, true_and,
      Deletable]
    split <;> rename_i e
    · rename_i tree
      refine iff_of_true (?_ : ∃ entry ∈ w.files.entries, entry ∉ tree.entries) ⟨tree, e⟩
      have removed : ∃ entry ∈ (w.files.unlock (w.registry r).handle?.toList).entries,
          entry ∉ tree.entries := entry_removed_of_unlink e
      exact removed
    · refine iff_of_false ?_ (by simp [e])
      rintro ⟨_, there, gone⟩
      exact gone there
    · refine iff_of_false ?_ (by simp [e])
      rintro ⟨_, there, gone⟩
      exact gone there
  · simp [RemovesEntry, step, releaseFrom_of_ne one, one, settle]

/-- What recording in a registry without an open file changes is its count. -/
theorem keeps_of_recordsIn? (h : recordsIn? s = some r) (closed : (w.registry r).handle? = none) :
    ¬w.RemovesEntry s ∧ ¬w.RemovesClaim s := by
  have files (l : Locator) : (w.record r l).2.files = w.files := by rw [files_record, closed]
  have processes (l : Locator) := processes_record w r l
  cases s <;> simp only [recordsIn?, Option.some.injEq, reduceCtorEq] at h <;> subst h
  · simp [RemovesEntry, RemovesClaim, step, files, process, processes]
  · simp [RemovesEntry, RemovesClaim, step, files_enlist, files, process, processes_enlist]

theorem surplus_eq_zero {steps : List Step} (idle : ∀ t ∈ steps, recordsIn? t ≠ some r) :
    surplus r steps w = 0 := by
  induction steps generalizing w with
  | nil => rfl
  | cons t rest ih =>
      have : tally r w t 0 = 0 := by simp [tally, idle t List.mem_cons_self]
      rw [surplus, observe, this]
      exact ih fun t ht => idle t (List.mem_cons_of_mem _ ht)

/-- What an operation removes on a registry whose file has been deleted. It is a release, and since
then one more branch has been recorded than released: then it removes what stands at the path and
frees the identifier, whosever they are. Nothing is removed if nothing has been recorded since. -/
theorem removes_iff_of_deletes (finished : w.Deletes s r)
    (on : OperatesOn (after (s :: later) w) o r) :
    let v := after (s :: later) w
    let strikes := v.releasesFrom? o = some r ∧ surplus r later (w.step s).2 = 1
    (v.RemovesEntry o ↔ strikes ∧ v.Deletable r) ∧
      (v.RemovesClaim o ↔ strikes ∧ (v.Deletable r ∨ v.Gone r) ∧
        (v.registry r).id ∈ (v.process (v.registry r).owner).openIds) ∧
      ((∀ t ∈ later, recordsIn? t ≠ some r) → ¬v.RemovesEntry o ∧ ¬v.RemovesClaim o) := by
  intro v strikes
  have there := Nat.lt_of_lt_of_le (lt_of_ends finished.1) (extends_step w s).registries
  have spent : ((w.step s).2.registry r).Spent := spent_of_ends finished.1
  have count : (v.registry r).count = surplus r later (w.step s).2 := by
    rw [surplus, ← spent.1]
    exact count_after there later
  have exactly : (v.RemovesEntry o ↔ strikes ∧ v.Deletable r) ∧
      (v.RemovesClaim o ↔ strikes ∧ (v.Deletable r ∨ v.Gone r) ∧
        (v.registry r).id ∈ (v.process (v.registry r).owner).openIds) := by
    rcases on with into | out
    · have unreleased : v.releasesFrom? o = none := by cases o <;> simp [recordsIn?] at into <;> rfl
      obtain ⟨entry, claim⟩ := keeps_of_recordsIn? into (handle?_after there later spent.2)
      have idle : ¬strikes := by simp [strikes, unreleased]
      exact ⟨iff_of_false entry fun h => idle h.1, iff_of_false claim fun h => idle h.1⟩
    · obtain ⟨b, e⟩ := step_eq_releaseFrom out
      have last : strikes ↔ (v.registry r).count = 1 := by
        rw [count]
        exact and_iff_right out
      rw [last, RemovesEntry, RemovesClaim, e]
      exact ⟨removesEntry_releaseFrom, removesClaim_releaseFrom⟩
  refine ⟨exactly.1, exactly.2, fun idle => ?_⟩
  have harmless : ¬strikes := fun h =>
    Nat.zero_ne_one ((surplus_eq_zero idle).symm.trans h.2)
  exact ⟨fun h => harmless (exactly.1.mp h).1, fun h => harmless (exactly.2.mp h).1⟩

/-- A created registry is released, its transaction is given a second one with a branch, and a
branch is recorded in the first. -/
def reused : List Step :=
  [.openLog {} "n", .create ⟨0⟩ .sample, .enlist ⟨0⟩ .sample "n", .release ⟨0⟩,
    .create ⟨0⟩ .sample, .enlist ⟨1⟩ .sample "n", .record ⟨0⟩ .sample]

/-- The next release from the first registry takes the file and the claim of the second, which has
a branch. -/
theorem removes_reused :
    let w := after (reused.take 3) (ofFiles .empty)
    let v := after reused (ofFiles .empty)
    w.Deletes (.release ⟨0⟩) ⟨0⟩ ∧ OperatesOn v (.release ⟨0⟩) ⟨0⟩ ∧
      v.RemovesEntry (.release ⟨0⟩) ∧ v.RemovesClaim (.release ⟨0⟩) ∧
      (v.registry ⟨1⟩).count = 1 := by
  refine ⟨by decide +kernel, .inr (by decide +kernel), ?_, ?_, by decide +kernel⟩
  · unfold RemovesEntry
    decide +kernel
  · exact ⟨⟨0⟩, Xid.sample.name, by decide +kernel, by decide +kernel⟩

/-- A release that is repeated after the file has been deleted removes nothing. -/
theorem removes_iff_of_deletes_repeated :
    let w := after (reused.take 3) (ofFiles .empty)
    let v := after [.release ⟨0⟩] w
    w.Deletes (.release ⟨0⟩) ⟨0⟩ ∧ OperatesOn v (.release ⟨0⟩) ⟨0⟩ ∧
      ¬v.RemovesEntry (.release ⟨0⟩) ∧ ¬v.RemovesClaim (.release ⟨0⟩) := by
  intro w v
  have finished : w.Deletes (.release ⟨0⟩) ⟨0⟩ := by decide +kernel
  have on : OperatesOn v (.release ⟨0⟩) ⟨0⟩ := .inr (by decide +kernel)
  have kept := (removes_iff_of_deletes finished on).2.2 (by simp)
  exact ⟨finished, on, kept⟩

end InDoubt.World

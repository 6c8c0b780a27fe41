import InDoubt.Proofs.Run
import Mathlib.Data.List.Nodup

/-!
Incarnations of identifiers. An incarnation starts with the creation of a registry and collects the
locators that are recorded in it; it ends when some registry of its identifier releases its last
branch. Incarnations tell what a run should have left on disk: an identifier has the records of
the one that has any, and there is at most one.
-/

namespace InDoubt

/-- A created registry, its transaction, and all locators that have been recorded in it. -/
structure Incarnation where
  store : RegistryRef
  xid : Xid
  locators : List Locator
  deriving DecidableEq

namespace Incarnation

def id (i : Incarnation) : String := i.xid.name

/-- With one more locator, if it is recorded in the registry of this incarnation. -/
def record (r : RegistryRef) (l : Locator) (i : Incarnation) : Incarnation :=
  if i.store = r then { i with locators := i.locators ++ [l] } else i

@[simp] theorem store_record (r : RegistryRef) (l : Locator) (i : Incarnation) :
    (i.record r l).store = i.store := by
  unfold record
  split <;> rfl

@[simp] theorem id_record (r : RegistryRef) (l : Locator) (i : Incarnation) :
    (i.record r l).id = i.id := by
  unfold record
  split <;> rfl

theorem record_of_ne {r : RegistryRef} {i : Incarnation} (h : i.store ≠ r) (l : Locator) :
    i.record r l = i := if_neg h

end Incarnation

variable {alive : List Incarnation} {i j : Incarnation} {r : RegistryRef} {xid : Xid} {l : Locator}
  {id other : String}

/-- The records that an identifier should have. -/
def recordsOf (alive : List Incarnation) (id : String) : List Locator :=
  ((alive.find? fun i => i.id = id ∧ i.locators ≠ []).map (·.locators)).getD []

/-- Every registry starts one incarnation, and no two with locators have the same identifier. -/
structure Separate (alive : List Incarnation) : Prop where
  stores : (alive.map (·.store)).Nodup
  filled : ∀ {i j}, i ∈ alive → j ∈ alive → i.locators ≠ [] → j.locators ≠ [] → i.id = j.id → i = j

theorem exists_of_recordsOf (h : recordsOf alive id ≠ []) :
    ∃ i ∈ alive, i.id = id ∧ i.locators = recordsOf alive id := by
  unfold recordsOf at h ⊢
  cases found : alive.find? fun i => i.id = id ∧ i.locators ≠ [] with
  | none =>
      rw [found] at h
      exact absurd rfl h
  | some i =>
      have named := List.find?_some found
      simp only [decide_eq_true_eq] at named
      exact ⟨i, List.mem_of_find?_eq_some found, named.1, rfl⟩

theorem recordsOf_eq_nil (h : ∀ i ∈ alive, i.id = id → i.locators = []) :
    recordsOf alive id = [] := by
  by_contra nonempty
  obtain ⟨i, mem, named, e⟩ := exists_of_recordsOf nonempty
  exact nonempty (e ▸ h i mem named)

namespace Separate

theorem nil : Separate [] := ⟨.nil, nofun⟩

theorem eq_of_store (h : Separate alive) (hi : i ∈ alive) (hj : j ∈ alive)
    (e : i.store = j.store) : i = j :=
  List.inj_on_of_nodup_map h.stores hi hj e

theorem recordsOf_of_mem (h : Separate alive) (hi : i ∈ alive) (nonempty : i.locators ≠ []) :
    recordsOf alive i.id = i.locators := by
  by_cases unrecorded : recordsOf alive i.id = []
  · unfold recordsOf at unrecorded
    cases found : alive.find? fun j => j.id = i.id ∧ j.locators ≠ [] with
    | none =>
        have absent := List.find?_eq_none.mp found i hi
        simp [nonempty] at absent
    | some j =>
        have filled := List.find?_some found
        simp only [found, Option.map_some, Option.getD_some] at unrecorded
        simp [unrecorded] at filled
  · obtain ⟨j, hj, named, e⟩ := exists_of_recordsOf unrecorded
    rw [← e, h.filled hj hi (e ▸ unrecorded) nonempty named]

/-- A registry is created. -/
theorem create (h : Separate alive) (new : ∀ i ∈ alive, i.store ≠ r) :
    Separate (alive ++ [⟨r, xid, []⟩]) := by
  refine ⟨?_, ?_⟩
  · rw [List.map_append, List.map_singleton]
    refine h.stores.append (List.nodup_singleton _) ?_
    intro store mem mem'
    obtain ⟨i, hi, rfl⟩ := List.mem_map.mp mem
    exact new i hi (List.mem_singleton.mp mem')
  · intro i j hi hj nonempty nonempty' e
    rcases List.mem_append.mp hi with hi | hi
    · rcases List.mem_append.mp hj with hj | hj
      · exact h.filled hi hj nonempty nonempty' e
      · rw [List.mem_singleton.mp hj] at nonempty'
        exact absurd rfl nonempty'
    · rw [List.mem_singleton.mp hi] at nonempty
      exact absurd rfl nonempty

/-- All incarnations of an identifier end. -/
theorem finish (h : Separate alive) (id : String) : Separate (alive.filter (·.id ≠ id)) :=
  ⟨h.stores.sublist (List.filter_sublist.map _),
    fun hi hj => h.filled (List.mem_filter.mp hi).1 (List.mem_filter.mp hj).1⟩

/-- A locator is recorded in a registry whose incarnation is the one that has the records. -/
theorem record (h : Separate alive) (hi : i ∈ alive) (current : recordsOf alive i.id = i.locators) :
    Separate (alive.map (·.record i.store l)) := by
  have same {j : Incarnation} (hj : j ∈ alive) (nonempty : (j.record i.store l).locators ≠ [])
      (e : j.id = i.id) : j = i := by
    by_cases own : j.store = i.store
    · exact h.eq_of_store hj hi own
    · rw [Incarnation.record_of_ne own] at nonempty
      have records := h.recordsOf_of_mem hj nonempty
      rw [e, current] at records
      exact h.filled hj hi nonempty (records ▸ nonempty) e
  refine ⟨?_, ?_⟩
  · rw [List.map_map]
    have kept : Incarnation.store ∘ Incarnation.record i.store l = Incarnation.store := by
      funext j
      exact Incarnation.store_record ..
    rw [kept]
    exact h.stores
  · intro j' k' mem mem' nonempty nonempty' e
    obtain ⟨j, hj, rfl⟩ := List.mem_map.mp mem
    obtain ⟨k, hk, rfl⟩ := List.mem_map.mp mem'
    rw [Incarnation.id_record, Incarnation.id_record] at e
    by_cases named : j.id = i.id
    · rw [same hj nonempty named, same hk nonempty' (e ▸ named)]
    · have apart {k : Incarnation} (hk : k ∈ alive) (other : k.id ≠ i.id) :
          k.record i.store l = k :=
        Incarnation.record_of_ne (fun own => other (congrArg _ (h.eq_of_store hk hi own))) l
      rw [apart hj named] at nonempty ⊢
      rw [apart hk (e ▸ named)] at nonempty' ⊢
      exact h.filled hj hk nonempty nonempty' e

end Separate

/-! How the records change. -/

theorem recordsOf_create (id : String) :
    recordsOf (alive ++ [⟨r, xid, []⟩]) id = recordsOf alive id := by
  unfold recordsOf
  rw [List.find?_append]
  simp

theorem recordsOf_finish (other : String) : recordsOf (alive.filter (·.id ≠ id)) other =
    if other = id then [] else recordsOf alive other := by
  split
  · rename_i e
    refine recordsOf_eq_nil ?_
    intro i mem named
    have apart := (List.mem_filter.mp mem).2
    simp [named, e] at apart
  · rename_i ne
    unfold recordsOf
    rw [List.find?_filter]
    congr 3
    funext i
    by_cases named : i.id = other
    · simp [named, ne]
    · simp [named]

theorem recordsOf_record (h : Separate alive) (hi : i ∈ alive)
    (current : recordsOf alive i.id = i.locators) (other : String) :
    recordsOf (alive.map (·.record i.store l)) other =
      if other = i.id then recordsOf alive other ++ [l] else recordsOf alive other := by
  have separate := h.record (l := l) hi current
  split
  · rename_i e
    subst e
    have mem : i.record i.store l ∈ alive.map (·.record i.store l) := List.mem_map_of_mem hi
    have locators : (i.record i.store l).locators = i.locators ++ [l] := by
      simp [Incarnation.record]
    have records := separate.recordsOf_of_mem mem (by simp [locators])
    rw [Incarnation.id_record, locators] at records
    rw [records, current]
  · rename_i ne
    have apart {j : Incarnation} (hj : j ∈ alive) (named : j.id = other) :
        j.record i.store l = j := by
      refine Incarnation.record_of_ne ?_ l
      intro own
      exact ne (named ▸ congrArg _ (h.eq_of_store hj hi own))
    by_cases unrecorded : recordsOf alive other = []
    · rw [unrecorded]
      refine recordsOf_eq_nil ?_
      intro k mem named
      obtain ⟨j, hj, rfl⟩ := List.mem_map.mp mem
      rw [Incarnation.id_record] at named
      rw [apart hj named]
      by_contra nonempty
      rw [← named, h.recordsOf_of_mem hj nonempty] at unrecorded
      exact nonempty unrecorded
    · obtain ⟨j, hj, named, e⟩ := exists_of_recordsOf unrecorded
      have mem := List.mem_map_of_mem (f := (·.record i.store l)) hj
      rw [apart hj named] at mem
      rw [← e, ← named]
      exact separate.recordsOf_of_mem mem (e ▸ unrecorded)

end InDoubt

import InDoubt.Proofs.Growth
import Mathlib.Data.List.Perm.Subperm

/-!
The handles that have been made for a registry, which are the branches that name it. A registry is
recovered with as many handles as it counts, and as long as handles come from recovery and from
recording only, no more are made than branches are recorded.
-/

namespace InDoubt.World

variable {v w : World} {p : ProcessRef} {r r' : RegistryRef} {b : BranchRef} {s : Step}

/-- The number of handles that have been made for a registry. -/
def handles (w : World) (r : RegistryRef) : Nat := w.branches.countP (·.registry = r)

/-- The handles of registries that exist. -/
def Bound (w : World) : Prop := ∀ r, w.registries.length ≤ r.index → w.handles r = 0

/-- From one world to another, no more handles are made for a registry than branches are recorded
in it, and a new registry has at most as many as it counts. -/
structure Handled (into : Option RegistryRef) (w v : World) : Prop where
  old : ∀ {r}, r.index < w.registries.length →
    v.handles r ≤ w.handles r + if into = some r then 1 else 0
  new : ∀ {r}, w.registries.length ≤ r.index → r.index < v.registries.length →
    v.handles r ≤ (v.registry r).count
  bound : Bound v

theorem handled_of_branches {into : Option RegistryRef} (h : Bound w)
    (branches : v.branches = w.branches) (grown : w.registries.length ≤ v.registries.length) :
    Handled into w v := by
  have same (r : RegistryRef) : v.handles r = w.handles r := by simp only [handles, branches]
  refine ⟨fun _ => ?_, fun ge _ => ?_, fun r ge => ?_⟩
  · rw [same]
    exact Nat.le_add_right ..
  · rw [same, h _ ge]
    exact Nat.zero_le _
  · rw [same, h _ (Nat.le_trans grown ge)]

theorem handles_adopt (id path : String) (ls : List Locator) :
    (w.adopt p id path ls).2.handles r =
      w.handles r + if r = ⟨w.registries.length⟩ then ls.length else 0 := by
  simp only [handles, branches_adopt, List.countP_append, List.countP_map]
  congr 1
  split
  · rename_i e
    exact List.countP_eq_length.mpr fun l _ => by simp [e]
  · rename_i ne
    exact List.countP_eq_zero.mpr fun l _ => by simp [Ne.symm ne]

theorem handled_scan (h : Bound w) (during : List FileStep) :
    Handled none w (w.scan p during).2 := by
  refine (scan_induction
    (I := fun v => w.registries.length ≤ v.registries.length ∧ Handled none w v)
    (fun _ h => ⟨h.1, h.2.old, h.2.new, h.2.bound⟩) ?_ during
    ⟨Nat.le_refl _, handled_of_branches h rfl (Nat.le_refl _)⟩).2
  rintro v id path l ls - ⟨grown, hv⟩
  have entered := registries_adopt v p id path (l :: ls)
  have len : (v.adopt p id path (l :: ls)).2.registries.length = v.registries.length + 1 := by
    simp [entered]
  refine ⟨by omega, fun {r} lt => ?_, fun {r} ge lt => ?_, fun r ge => ?_⟩
  · rw [handles_adopt, if_neg]
    · exact hv.old lt
    · rintro rfl
      exact Nat.not_lt.mpr grown lt
  · by_cases last : r = ⟨v.registries.length⟩
    · subst last
      rw [handles_adopt, registry_append_new entered, hv.bound _ (Nat.le_refl _)]
      simp
    · have old : r.index < v.registries.length := by
        have : r.index ≠ v.registries.length := fun e => last (by cases r; cases e; rfl)
        omega
      rw [handles_adopt, if_neg last, registry_append entered old]
      exact hv.new ge old
  · rw [handles_adopt, if_neg, hv.bound r (by omega)]
    rintro rfl
    simp only at ge
    omega

theorem handles_enlist (l : Locator) (node : String) :
    (w.enlist r l node).2.handles r' ≤ w.handles r' + if some r = some r' then 1 else 0 := by
  obtain ⟨_, -, e⟩ | ⟨-, e⟩ := enlist_cases w r l node
  · rw [e]
    simp only [handles, branches_record]
    exact Nat.le_add_right ..
  · rw [e]
    simp [handles, List.countP_append, List.countP_cons]

theorem branches_createIn (dir : String) (xid : Xid) :
    (w.createIn p dir xid).2.branches = w.branches := by
  obtain ⟨_, _, -, e⟩ | ⟨_, _, _, -, -, -, e⟩ := createIn_cases w p dir xid <;> rw [e]
  rfl

theorem branches_releaseFrom : (w.releaseFrom r b).2.branches = w.branches := by
  by_cases one : (w.registry r).count = 1
  · rw [releaseFrom_of_eq one]
    split <;> rfl
  · rw [releaseFrom_of_ne one]
    rfl

/-- A step that makes no handle without recording its branch. -/
theorem handled_step (h : Bound w) (admitted : w.Admits s)
    (recorded : ∀ r l node, s ≠ .bind r l node) (alone : s ≠ .hostSweep) :
    Handled (recordsIn? s) w (w.step s).2 := by
  have grown := (extends_step w s).registries
  cases s with
  | scan q during | sweep q during => exact handled_scan h during
  | bind r l node => exact absurd rfl (recorded r l node)
  | hostSweep => exact absurd rfl alone
  | enlist r l node =>
      have len : (w.enlist r l node).2.registries.length = w.registries.length := by
        simp [registries_enlist, registries_record]
      refine ⟨fun _ => handles_enlist l node, fun ge lt => ?_, fun r' ge => ?_⟩
      · exact absurd lt (Nat.not_lt.mpr (len ▸ ge))
      · have apart : r ≠ r' := by
          rintro rfl
          exact Nat.not_lt.mpr (len ▸ ge) admitted.1
        have count : (w.enlist r l node).2.handles r' ≤
            w.handles r' + if some r = some r' then 1 else 0 := handles_enlist l node
        rw [if_neg (by simpa using apart), h r' (len ▸ ge)] at count
        exact Nat.le_zero.mp count
  | outside change =>
      refine handled_of_branches h ?_ grown
      rw [step_outside]
  | crash q =>
      refine handled_of_branches h ?_ grown
      simp only [step, crash, unregister]
      split <;> rfl
  | relocate q base =>
      refine handled_of_branches h ?_ grown
      simp only [step, relocate]
      split <;> rfl
  | unregister q =>
      refine handled_of_branches h ?_ grown
      simp only [step, unregister]
      split <;> rfl
  | create q xid => exact handled_of_branches h (branches_createIn ..) grown
  | createIn q dir xid => exact handled_of_branches h (branches_createIn ..) grown
  | record r l => exact handled_of_branches h (branches_record ..) grown
  | release b => exact handled_of_branches h branches_releaseFrom grown
  | releaseFrom r b => exact handled_of_branches h branches_releaseFrom grown
  | openLog config node | mark b | doubtVia r b | register q | claim q id | unclaim q id
  | doubt q bs | settle q b => exact handled_of_branches h rfl grown

theorem handles_pos (h : w.HasBranch b) : 0 < w.handles (w.branch b).registry := by
  refine List.countP_pos_iff.mpr ⟨w.branch b, ?_, by simp⟩
  rw [World.branch, List.getD_eq_getElem _ _ h.1]
  exact List.getElem_mem _

/-- The handles of a registry. -/
def handlesOf (w : World) (r : RegistryRef) : List BranchRef :=
  ((List.range w.branches.length).map BranchRef.mk).filter fun b => (w.branch b).registry = r

theorem mem_handlesOf_iff :
    b ∈ w.handlesOf r ↔ b.index < w.branches.length ∧ (w.branch b).registry = r := by
  obtain ⟨i⟩ := b
  simp [handlesOf]

theorem length_handlesOf : (w.handlesOf r).length = w.handles r := by
  have all : w.branches = (List.range w.branches.length).map fun i => w.branch ⟨i⟩ := by
    refine List.ext_getElem (by simp) fun i lt _ => ?_
    simp [World.branch, lt]
  rw [handles, handlesOf, ← List.countP_eq_length_filter, List.countP_map]
  conv_rhs => rw [all, List.countP_map]
  rfl

/-- If no handle was released twice, and one was not released, fewer were released than there
are. -/
theorem length_lt_handles {released : List BranchRef} (once : released.Nodup)
    (mine : released ⊆ w.handlesOf r) (left : b ∈ w.handlesOf r) (kept : b ∉ released) :
    released.length < w.handles r := by
  have all : (b :: released).Nodup := List.nodup_cons.mpr ⟨kept, once⟩
  have := (List.subperm_of_subset all (List.cons_subset.mpr ⟨left, mine⟩)).length_le
  rw [length_handlesOf] at this
  exact this

theorem handlesOf_step (s : Step) (h : b ∈ w.handlesOf r) : b ∈ (w.step s).2.handlesOf r := by
  have extended := extends_step w s
  rw [mem_handlesOf_iff] at h ⊢
  exact ⟨Nat.lt_of_lt_of_le h.1 extended.branches.length_le, (extended.branch h.1).symm ▸ h.2⟩

end InDoubt.World

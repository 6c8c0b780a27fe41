import InDoubt.Proofs.Growth

/-!
Who owns an identifier. The open set of a process holds the identifiers of the registries that it
has created or recovered and whose files it has not deleted, each of one registry only. Five
operations claim or free identifiers, and each one touches its own: a creation that succeeds, a
creation that fails, the recovery of a file, the recovery of a file that comes to nothing, and a
last release. What others do to the files, or in their own processes, takes no part in it.
-/

namespace InDoubt.World

variable {u v w : World} {p q : ProcessRef} {r : RegistryRef} {b : BranchRef}
  {kept : RegistryRef → Prop}

/-- The open set of a process is the set of the identifiers of these registries of its own, all of
them different. -/
structure Ownership (w : World) (p : ProcessRef) (kept : RegistryRef → Prop) : Prop where
  known : ∀ {r}, kept r → r.index < w.registries.length ∧ (w.registry r).owner = p
  mem_iff : ∀ id, id ∈ (w.process p).openIds ↔ ∃ r, kept r ∧ (w.registry r).id = id
  distinct : ∀ {r r'}, kept r → kept r' → (w.registry r).id = (w.registry r').id → r = r'

/-- The registries of a process that have been entered between two worlds. -/
def Entered (w v : World) (p : ProcessRef) (r : RegistryRef) : Prop :=
  w.registries.length ≤ r.index ∧ r.index < v.registries.length ∧ (v.registry r).owner = p

namespace Ownership

theorem congr (h : Ownership w p kept) {kept' : RegistryRef → Prop}
    (e : ∀ r, kept r ↔ kept' r) : Ownership w p kept' := by
  have : kept = kept' := funext fun r => propext (e r)
  exact this ▸ h

/-- A process that has nothing yet. -/
theorem of_nothing (nothing : ∀ r, ¬kept r) (free : ∀ id, id ∉ (w.process p).openIds) :
    Ownership w p kept where
  known hr := absurd hr (nothing _)
  mem_iff id := iff_of_false (free id) fun ⟨r, hr, _⟩ => nothing r hr
  distinct hr := absurd hr (nothing _)

/-- Nothing is claimed or freed. -/
theorem keep (h : Ownership w p kept) (extended : Extends w v)
    (same : ∀ id, id ∈ (v.process p).openIds ↔ id ∈ (w.process p).openIds) :
    Ownership v p kept where
  known hr :=
    have ⟨lt, own⟩ := h.known hr
    ⟨Nat.lt_of_lt_of_le lt extended.registries, (extended.owner lt).trans own⟩
  mem_iff id := by
    rw [same, h.mem_iff]
    refine exists_congr fun r => and_congr_right fun hr => ?_
    rw [extended.id (h.known hr).1]
  distinct hr hr' e := by
    rw [extended.id (h.known hr).1, extended.id (h.known hr').1] at e
    exact h.distinct hr hr' e

/-- One registry is entered and its identifier claimed, which was free. -/
theorem insert (h : Ownership w p kept) {g : Registry}
    (entered : v.registries = w.registries ++ [g]) (own : g.owner = p)
    (free : g.id ∉ (w.process p).openIds)
    (claimed : ∀ id, id ∈ (v.process p).openIds ↔ id ∈ (w.process p).openIds ∨ id = g.id) :
    Ownership v p fun r => kept r ∨ r = ⟨w.registries.length⟩ := by
  have old {r : RegistryRef} (hr : kept r) : v.registry r = w.registry r :=
    registry_append entered (h.known hr).1
  have new : v.registry ⟨w.registries.length⟩ = g := registry_append_new entered
  have other {r : RegistryRef} (hr : kept r) : (w.registry r).id ≠ g.id := fun e =>
    free ((h.mem_iff _).mpr ⟨r, hr, e⟩)
  refine ⟨?_, fun id => ?_, ?_⟩
  · rintro r (hr | rfl)
    · have ⟨lt, own'⟩ := h.known hr
      exact ⟨by rw [entered, List.length_append]; omega, by rw [old hr, own']⟩
    · exact ⟨by simp [entered], by rw [new, own]⟩
  · rw [claimed, h.mem_iff]
    constructor
    · rintro (⟨r, hr, e⟩ | rfl)
      · exact ⟨r, .inl hr, by rw [old hr, e]⟩
      · exact ⟨_, .inr rfl, by rw [new]⟩
    · rintro ⟨r, hr | rfl, e⟩
      · exact .inl ⟨r, hr, by rw [← old hr, e]⟩
      · exact .inr (by rw [← e, new])
  · rintro r r' (hr | rfl) (hr' | rfl) e
    · rw [old hr, old hr'] at e
      exact h.distinct hr hr' e
    · rw [old hr, new] at e
      exact absurd e (other hr)
    · rw [old hr', new] at e
      exact absurd e.symm (other hr')
    · rfl

/-- The identifier of one registry is freed, and the registry is kept no longer. -/
theorem erase (h : Ownership w p kept) (extended : Extends w v) (hr : kept r)
    (freed : ∀ id, id ∈ (v.process p).openIds ↔
      id ∈ (w.process p).openIds ∧ id ≠ (w.registry r).id) :
    Ownership v p fun r' => kept r' ∧ r' ≠ r where
  known hr' :=
    have ⟨lt, own⟩ := h.known hr'.1
    ⟨Nat.lt_of_lt_of_le lt extended.registries, (extended.owner lt).trans own⟩
  mem_iff id := by
    rw [freed, h.mem_iff]
    constructor
    · rintro ⟨⟨r', hr', e⟩, ne⟩
      exact ⟨r', ⟨hr', fun same => ne (by rw [← e, same])⟩, by rw [extended.id (h.known hr').1, e]⟩
    · rintro ⟨r', ⟨hr', ne⟩, e⟩
      rw [extended.id (h.known hr').1] at e
      exact ⟨⟨r', hr', e⟩, fun same => ne (h.distinct hr' hr (e.trans same))⟩
  distinct hr hr' e := by
    rw [extended.id (h.known hr.1).1, extended.id (h.known hr'.1).1] at e
    exact h.distinct hr.1 hr'.1 e

/-- A registry of whatever process is entered, and its identifier claimed by that process. -/
theorem enter (h : Ownership w p kept) {g : Registry}
    (entered : v.registries = w.registries ++ [g]) (extended : Extends w v)
    (free : g.id ∉ (w.process g.owner).openIds)
    (claimed : ∀ id, id ∈ (v.process p).openIds ↔
      id ∈ (w.process p).openIds ∨ p = g.owner ∧ id = g.id) :
    Ownership v p fun r => kept r ∨ r = ⟨w.registries.length⟩ ∧ g.owner = p := by
  by_cases own : g.owner = p
  · refine (h.insert entered own (own ▸ free) fun id => ?_).congr fun r => ?_
    · simp [claimed, own]
    · simp [own]
  · refine ⟨?_, fun id => ?_, ?_⟩
    · rintro r (hr | ⟨-, e⟩)
      · have ⟨lt, own'⟩ := h.known hr
        exact ⟨Nat.lt_of_lt_of_le lt extended.registries, (extended.owner lt).trans own'⟩
      · exact absurd e own
    · have : p ≠ g.owner := fun e => own e.symm
      rw [claimed, h.mem_iff]
      simp only [this, own, false_and, and_false, or_false]
      refine exists_congr fun r => and_congr_right fun hr => ?_
      rw [extended.id (h.known hr).1]
    · rintro r r' (hr | ⟨-, e⟩) (hr' | ⟨-, e'⟩) same
      · rw [extended.id (h.known hr).1, extended.id (h.known hr').1] at same
        exact h.distinct hr hr' same
      · exact absurd e' own
      · exact absurd e own
      · exact absurd e own

end Ownership

theorem entered_append (extended : Extends u w) {g : Registry}
    (entered : v.registries = w.registries ++ [g]) :
    Entered u v p r ↔ Entered u w p r ∨ r = ⟨w.registries.length⟩ ∧ g.owner = p := by
  have len : v.registries.length = w.registries.length + 1 := by simp [entered]
  have grown := extended.registries
  obtain ⟨i⟩ := r
  constructor
  · rintro ⟨ge, lt, own⟩
    by_cases hi : i = w.registries.length
    · subst hi
      rw [registry_append_new entered] at own
      exact .inr ⟨rfl, own⟩
    · have old : i < w.registries.length := by simp only at lt; omega
      rw [registry_append entered old] at own
      exact .inl ⟨ge, old, own⟩
  · rintro (⟨ge, lt, own⟩ | ⟨e, own⟩)
    · exact ⟨ge, by omega, by rw [registry_append entered lt, own]⟩
    · cases e
      exact ⟨grown, by simp only [len]; omega, by rw [registry_append_new entered, own]⟩

theorem entered_trans (first : Extends u v) (second : Extends v w) :
    Entered u w p r ↔ Entered u v p r ∨ Entered v w p r := by
  have grown := first.registries
  have grown' := second.registries
  constructor
  · rintro ⟨ge, lt, own⟩
    by_cases old : r.index < v.registries.length
    · exact .inl ⟨ge, old, by rw [← second.owner old, own]⟩
    · exact .inr ⟨Nat.le_of_not_lt old, lt, own⟩
  · rintro (⟨ge, lt, own⟩ | ⟨ge, lt, own⟩)
    · exact ⟨ge, by omega, by rw [second.owner lt, own]⟩
    · exact ⟨by omega, lt, own⟩

/-! What the operations do to the open set of a process. -/

theorem openIds_settle (q : ProcessRef) (b : BranchRef) (p : ProcessRef) :
    ((w.settle q b).process p).openIds = (w.process p).openIds := by
  refine part_updateProcess (·.openIds) ?_ p
  exact fun _ => rfl

theorem openIds_doubt (q : ProcessRef) (bs : List BranchRef) (p : ProcessRef) :
    ((w.doubt q bs).process p).openIds = (w.process p).openIds := by
  refine part_updateProcess (·.openIds) ?_ p
  exact fun _ => rfl

theorem openIds_relocate (q : ProcessRef) (base : String) (p : ProcessRef) :
    ((w.relocate q base).2.process p).openIds = (w.process p).openIds :=
  part_relocate (·.openIds) (fun _ _ => rfl) q base p

theorem openIds_register (q p : ProcessRef) :
    ((w.register q).process p).openIds = (w.process p).openIds := by
  refine part_updateProcess (·.openIds) ?_ p
  exact fun _ => rfl

theorem openIds_unregister (q p : ProcessRef) :
    ((w.unregister q).process p).openIds = (w.process p).openIds :=
  part_unregister (·.openIds) (fun _ => rfl) q p

theorem openIds_openLog (config : Config) (node : String) (p : ProcessRef) :
    ((w.openLog config node).2.process p).openIds = (w.process p).openIds :=
  part_openLog (·.openIds) rfl p

theorem openIds_crash (h : q ≠ p) : ((w.crash q).process p).openIds = (w.process p).openIds := by
  rw [process_crash_of_ne h.symm, openIds_unregister]

theorem mem_openIds_updateProcess (hq : q.index < w.processes.length) {f : Process → Process}
    {id : String} (claims : ∀ proc, (f proc).openIds = proc.openIds.insert id) (other : String) :
    other ∈ ((w.updateProcess q f).process p).openIds ↔
      other ∈ (w.process p).openIds ∨ p = q ∧ other = id := by
  by_cases h : p = q
  · subst h
    rw [process_updateProcess_self hq, claims, OpenSet.mem_insert]
    simp [or_comm]
  · simp [process_updateProcess_of_ne h, h]

theorem mem_openIds_adopt (running : q.index < w.processes.length) {id path other : String}
    {ls : List Locator} : other ∈ ((w.adopt q id path ls).2.process p).openIds ↔
      other ∈ (w.process p).openIds ∨ p = q ∧ other = id := by
  rw [process_congr (w := w.updateProcess q _) (processes_adopt ..)]
  exact mem_openIds_updateProcess running (fun _ => rfl) other

theorem mem_openIds_unclaim {id other : String} :
    other ∈ ((w.unclaim q id).2.process p).openIds ↔
      other ∈ (w.process p).openIds ∧ ¬(q = p ∧ other = id) := by
  by_cases h : p = q
  · subst h
    by_cases hp : p.index < w.processes.length
    · simp [unclaim, process_updateProcess_self hp]
    · have out : (w.unclaim p id).2.process p = default :=
        process_of_le (by simpa [unclaim] using hp)
      rw [out, process_of_le (Nat.le_of_not_lt hp)]
      exact ⟨fun hm => absurd hm (OpenSet.not_mem_empty _), fun hm =>
        absurd hm.1 (OpenSet.not_mem_empty _)⟩
  · have out : (w.unclaim q id).2.process p = w.process p := process_updateProcess_of_ne h _
    rw [out]
    exact ⟨fun hm => ⟨hm, fun e => h e.1.symm⟩, And.left⟩

theorem mem_openIds_releaseFrom {id : String} :
    id ∈ ((w.releaseFrom r b).2.process p).openIds ↔ id ∈ (w.process p).openIds ∧
      ¬((w.registry r).count = 1 ∧ (w.releaseFrom r b).1 = .ok () ∧
        (w.registry r).owner = p ∧ id = (w.registry r).id) := by
  by_cases h : (w.registry r).count = 1
  · rw [releaseFrom_of_eq h]
    split
    · simp only [openIds_settle, mem_openIds_unclaim]
      simp [retire, h, process]
    · simp only [openIds_settle, mem_openIds_unclaim]
      simp [retire, h, process]
    · simp only [openIds_settle]
      simp [retire, process]
  · rw [releaseFrom_of_ne h]
    simp [openIds_settle, h]

end InDoubt.World

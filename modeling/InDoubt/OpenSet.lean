import InDoubt.Sort

/-!
The identifiers of the registries that a process owns, each once. Claiming an identifier that is
owned and releasing one that is not change nothing.
-/

namespace InDoubt

structure OpenSet where
  ids : List String
  nodup : ids.Nodup
  deriving DecidableEq

namespace OpenSet

def empty : OpenSet := ⟨[], List.nodup_nil⟩

instance : Inhabited OpenSet := ⟨empty⟩

instance : Membership String OpenSet := ⟨fun s id => id ∈ s.ids⟩

instance (id : String) (s : OpenSet) : Decidable (id ∈ s) :=
  inferInstanceAs (Decidable (id ∈ s.ids))

def size (s : OpenSet) : Nat := s.ids.length

def insert (s : OpenSet) (id : String) : OpenSet :=
  if h : id ∈ s.ids then s else ⟨id :: s.ids, List.nodup_cons.mpr ⟨h, s.nodup⟩⟩

def erase (s : OpenSet) (id : String) : OpenSet :=
  ⟨s.ids.filter (· ≠ id), s.nodup.filter _⟩

/-- The members in increasing order. -/
def sorted (s : OpenSet) : List String := sort (fun a b => a ≤ b) s.ids

@[simp] theorem not_mem_empty (id : String) : id ∉ empty := List.not_mem_nil

@[simp] theorem mem_insert {s : OpenSet} {id other : String} :
    other ∈ s.insert id ↔ other = id ∨ other ∈ s := by
  simp only [Membership.mem, insert]
  split
  · rename_i h
    constructor
    · exact Or.inr
    · rintro (rfl | hm)
      · exact h
      · exact hm
  · exact List.mem_cons

@[simp] theorem mem_erase {s : OpenSet} {id other : String} :
    other ∈ s.erase id ↔ other ∈ s ∧ other ≠ id := by
  show other ∈ s.ids.filter (· ≠ id) ↔ other ∈ s.ids ∧ other ≠ id
  simp

theorem insert_of_mem {s : OpenSet} {id : String} (h : id ∈ s) : s.insert id = s := dif_pos h

theorem insert_twice (s : OpenSet) (id : String) : (s.insert id).insert id = s.insert id :=
  insert_of_mem (mem_insert.mpr (.inl rfl))

theorem eq_of_ids {s t : OpenSet} (h : s.ids = t.ids) : s = t := by
  cases s
  cases t
  cases h
  rfl

theorem erase_insert {s : OpenSet} {id : String} (free : id ∉ s) : (s.insert id).erase id = s := by
  have others : s.ids.filter (· ≠ id) = s.ids :=
    List.filter_eq_self.mpr fun other mem => decide_eq_true fun same => free (same ▸ mem)
  have added : (s.insert id).ids = id :: s.ids := congrArg ids (dif_neg free)
  refine eq_of_ids ?_
  calc (s.insert id).ids.filter (· ≠ id)
    _ = (id :: s.ids).filter (· ≠ id) := by rw [added]
    _ = s.ids := by rw [List.filter_cons_of_neg (by simp), others]

end OpenSet

end InDoubt

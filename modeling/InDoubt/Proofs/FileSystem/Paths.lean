import InDoubt.Config
import InDoubt.Proofs.FileSystem.Walking
import InDoubt.Proofs.Basic

/-!
The names on a path. Joining a name to the path of a directory adds that name, however the path of
the directory ends.
-/

namespace InDoubt

theorem joinPath_injective {dir id id' : String} (same : joinPath dir id = joinPath dir id') :
    id = id' := by
  unfold joinPath at same
  split at same
  · exact (String.append_right_inj _).mp same
  · exact (String.append_right_inj _).mp same

namespace FileSystem

variable {path rest name : Bytes}

theorem names_append_slash : names (path ++ slash :: rest) = names path ++ names rest := by
  simp [names, splitOn_append_cons]

@[simp] theorem names_nil : names [] = [] := rfl

theorem names_of_name (plain : slash ∉ name) (nonempty : name ≠ []) : names name = [name] := by
  have whole : splitOn (· = slash) name = [name] :=
    splitOn_of_forall_not fun a ha => decide_eq_false fun e => plain (e ▸ ha)
  simp [names, whole, nonempty]

theorem slash_not_mem_of_mem_names (h : name ∈ names path) : slash ∉ name := by
  intro hs
  have := separates_of_mem_splitOn ((List.mem_filter.mp h).1) hs
  simp at this

/-- The path of a name in a directory has that name after those of the directory. -/
theorem names_joinPath (dir : String) {id : String} (plain : slash ∉ Utf8.encode id)
    (nonempty : Utf8.encode id ≠ []) :
    names (Utf8.encode (joinPath dir id)) = names (Utf8.encode dir) ++ [Utf8.encode id] := by
  have one : names (Utf8.encode id) = [Utf8.encode id] := names_of_name plain nonempty
  have bar : Utf8.encode "/" = [slash] := by decide
  unfold joinPath
  split
  · rename_i h
    rcases h with rfl | h
    · simp [one]
    · obtain ⟨front, e⟩ := List.getLast?_eq_some_iff.mp h
      obtain rfl : dir = String.ofList front ++ "/" := by
        rw [← String.ofList_toList (s := dir), e, String.ofList_append]
      simp only [Utf8.encode_append, bar, List.append_assoc, List.singleton_append]
      simp [names_append_slash, one]
  · simp only [Utf8.encode_append, bar, List.append_assoc, List.singleton_append]
    rw [names_append_slash, one]

theorem endsInSlash_joinPath (dir : String) {id : String} (plain : slash ∉ Utf8.encode id)
    (nonempty : Utf8.encode id ≠ []) : endsInSlash (Utf8.encode (joinPath dir id)) = false := by
  have ends : (Utf8.encode id).getLast? ≠ some slash := fun e => plain (List.mem_of_getLast? e)
  unfold joinPath
  split
  all_goals
    simp only [endsInSlash, Utf8.encode_append, List.getLast?_append]
    cases e : (Utf8.encode id).getLast? with
    | none => exact absurd (List.getLast?_eq_none_iff.mp e) nonempty
    | some b => simpa [e] using ends

theorem namesToDirectory_of_not (h : endsInSlash path = false) :
    namesToDirectory path = names path := by
  simp [namesToDirectory, h]

/-! Paths that are accepted. -/

theorem checkPath_eq_ok_iff :
    checkPath path = .ok () ↔ 0 ∉ path ∧ path ≠ [] ∧ path.length ≤ maxPath := by
  simp only [checkPath, refuseNul, bind_eq_ok_iff, guard_eq_ok_iff]
  simp

/-- The system takes every path without NUL that is not too long. -/
theorem checkPath_eq (plain : 0 ∉ path) (nonempty : path ≠ []) :
    checkPath path = if maxPath < path.length then .error .nameTooLong else .ok () := by
  have whole : refuseNul path = .ok () := by simp [refuseNul, plain]
  simp only [checkPath, whole, bind, Except.bind, if_neg nonempty]

theorem nul_not_mem_joinPath {dir id : String} (plain : 0 ∉ Utf8.encode dir)
    (plain' : 0 ∉ Utf8.encode id) : 0 ∉ Utf8.encode (joinPath dir id) := by
  have bar : 0 ∉ Utf8.encode "/" := by decide
  unfold joinPath
  split <;> simp only [Utf8.encode_append, List.mem_append, not_or]
  · exact ⟨plain, plain'⟩
  · exact ⟨⟨plain, bar⟩, plain'⟩

/-- The path of a directory is one if that of a name in it is. -/
theorem checkPath_of_joinPath {dir id : String} (named : Utf8.encode dir ≠ [])
    (h : checkPath (Utf8.encode (joinPath dir id)) = .ok ()) :
    checkPath (Utf8.encode dir) = .ok () := by
  have front : Utf8.encode dir <+: Utf8.encode (joinPath dir id) := by
    unfold joinPath
    split
    · rw [Utf8.encode_append]
      exact List.prefix_append _ _
    · rw [Utf8.encode_append, Utf8.encode_append, List.append_assoc]
      exact List.prefix_append _ _
  obtain ⟨noNul, -, fits⟩ := checkPath_eq_ok_iff.mp h
  exact checkPath_eq_ok_iff.mpr
    ⟨fun mem => noNul (front.subset mem), named, Nat.le_trans front.length_le fits⟩

end FileSystem

end InDoubt

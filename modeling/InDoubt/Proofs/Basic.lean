import InDoubt.Text.Split
import Mathlib.Tactic.Common

/-!
What reading is made of. A step after another succeeds if both do. Pieces that are joined by a
separator, which none of them contains, are the pieces of the result, and a run of elements that
some test accepts ends where the test first fails.
-/

namespace InDoubt

theorem bind_eq_ok_iff {ε α β : Type} {x : Except ε α} {f : α → Except ε β} {b : β} :
    (x >>= f) = .ok b ↔ ∃ a, x = .ok a ∧ f a = .ok b := by
  cases x with
  | error e => exact ⟨nofun, fun ⟨_, h, _⟩ => nomatch h⟩
  | ok a =>
      constructor
      · exact fun h => ⟨a, rfl, h⟩
      · rintro ⟨_, ⟨⟩, h⟩
        exact h

theorem guard_eq_ok_iff {ε α : Type} {c : Prop} [Decidable c] {e : ε} {x : Except ε α} {a : α} :
    (if c then .error e else x) = .ok a ↔ ¬c ∧ x = .ok a := by
  by_cases h : c <;> simp [h]

variable {α : Type} {separates p : α → Bool} {a : α} {s t : List α}

theorem splitOn_append_cons (h : separates a = true) :
    splitOn separates (s ++ a :: t) = splitOn separates s ++ splitOn separates t := by
  induction s with
  | nil => simp [splitOn, h]
  | cons b rest ih =>
      simp only [List.cons_append, splitOn, ih]
      split
      · rfl
      · cases e : splitOn separates rest with
        | nil => exact absurd e (splitOn_ne_nil _ _)
        | cons piece more => rfl

theorem splitOn_of_forall_not (h : ∀ a ∈ s, separates a = false) : splitOn separates s = [s] := by
  induction s with
  | nil => rfl
  | cons b rest ih =>
      have first := h b List.mem_cons_self
      simp [splitOn, first, ih fun a ha => h a (List.mem_cons_of_mem _ ha)]

theorem separates_of_mem_splitOn {piece : List α} (h : piece ∈ splitOn separates s)
    (ha : a ∈ piece) : separates a = false := by
  induction s generalizing piece with
  | nil =>
      obtain rfl : piece = [] := by simpa [splitOn] using h
      simp at ha
  | cons b rest ih =>
      simp only [splitOn] at h
      split at h
      · rcases List.mem_cons.mp h with rfl | h
        · simp at ha
        · exact ih h ha
      · rename_i other
        split at h
        · obtain rfl : piece = [b] := by simpa using h
          obtain rfl : a = b := by simpa using ha
          simpa using other
        · rename_i first more e
          rcases List.mem_cons.mp h with rfl | h
          · rcases List.mem_cons.mp ha with rfl | ha
            · simpa using other
            · exact ih (e ▸ List.mem_cons_self) ha
          · exact ih (e ▸ List.mem_cons_of_mem _ h) ha

theorem mem_of_mem_splitOn {piece : List α} (h : piece ∈ splitOn separates s) (ha : a ∈ piece) :
    a ∈ s := by
  induction s generalizing piece with
  | nil =>
      obtain rfl : piece = [] := by simpa [splitOn] using h
      exact ha
  | cons b rest ih =>
      simp only [splitOn] at h
      split at h
      · rcases List.mem_cons.mp h with rfl | h
        · cases ha
        · exact List.mem_cons_of_mem _ (ih h ha)
      · split at h
        · obtain rfl : piece = [b] := by simpa using h
          exact List.mem_cons.mpr (.inl (List.mem_singleton.mp ha))
        · rename_i first more e
          rcases List.mem_cons.mp h with rfl | h
          · rcases List.mem_cons.mp ha with rfl | ha
            · exact List.mem_cons_self
            · exact List.mem_cons_of_mem _ (ih (e ▸ List.mem_cons_self) ha)
          · exact List.mem_cons_of_mem _ (ih (e ▸ List.mem_cons_of_mem _ h) ha)

theorem splitOn_intercalate (h : separates a = true) {pieces : List (List α)}
    (nonempty : pieces ≠ []) (plain : ∀ piece ∈ pieces, ∀ b ∈ piece, separates b = false) :
    splitOn separates ([a].intercalate pieces) = pieces := by
  induction pieces with
  | nil => exact absurd rfl nonempty
  | cons piece rest ih =>
      have whole := splitOn_of_forall_not (plain piece List.mem_cons_self)
      by_cases last : rest = []
      · rw [last, List.intercalate_singleton, whole]
      · rw [List.intercalate_cons_of_ne_nil last, List.append_assoc, List.singleton_append,
          splitOn_append_cons h, whole, ih last fun piece mem =>
            plain piece (List.mem_cons_of_mem _ mem)]
        rfl

theorem mem_of_mem_intercalate {b : α} {pieces : List (List α)} (h : b ∈ [a].intercalate pieces) :
    b = a ∨ ∃ piece ∈ pieces, b ∈ piece := by
  induction pieces with
  | nil => cases h
  | cons piece rest ih =>
      by_cases last : rest = []
      · rw [last, List.intercalate_singleton] at h
        exact .inr ⟨piece, List.mem_cons_self, h⟩
      · rw [List.intercalate_cons_of_ne_nil last, List.append_assoc, List.mem_append,
          List.singleton_append, List.mem_cons] at h
        rcases h with h | h | h
        · exact .inr ⟨piece, List.mem_cons_self, h⟩
        · exact .inl h
        · exact (ih h).imp_right fun ⟨other, mem, hb⟩ => ⟨other, List.mem_cons_of_mem _ mem, hb⟩

/-- What follows starts with something that the test refuses, if with anything. -/
def StopsAt (p : α → Bool) (t : List α) : Prop := ∀ a ∈ t.head?, p a = false

theorem takeWhile_append_of_stopsAt (inside : ∀ a ∈ s, p a = true) (stops : StopsAt p t) :
    (s ++ t).takeWhile p = s := by
  rw [List.takeWhile_append_of_pos inside]
  cases t with
  | nil => simp
  | cons a t =>
      rw [List.takeWhile_cons_of_neg (by simp [stops a rfl]), List.append_nil]

theorem dropWhile_append_of_stopsAt (inside : ∀ a ∈ s, p a = true) (stops : StopsAt p t) :
    (s ++ t).dropWhile p = t := by
  rw [List.dropWhile_append_of_pos inside]
  cases t with
  | nil => rfl
  | cons a t => rw [List.dropWhile_cons_of_neg (by simp [stops a rfl])]

theorem mem_getLast?_append (h : a ∈ (s ++ t).getLast?) :
    a ∈ t.getLast? ∨ t = [] ∧ a ∈ s.getLast? := by
  rw [List.getLast?_append] at h
  cases last : t.getLast? with
  | none =>
      rw [last] at h
      exact .inr ⟨List.getLast?_eq_none_iff.mp last, h⟩
  | some b =>
      rw [last] at h
      exact .inl h

theorem mem_getLast?_append_right (h : a ∈ t.getLast?) : a ∈ (s ++ t).getLast? := by
  rw [List.getLast?_append, Option.mem_def.mp h]
  rfl

end InDoubt

/-!
Sorting by insertion. The result holds the same elements as the list it came from, and each element
may precede all that follow it.
-/

namespace InDoubt

/-- Puts an element before the first one that it may precede. -/
def insertSorted {α : Type} (le : α → α → Bool) (a : α) : List α → List α
  | [] => [a]
  | b :: rest => if le a b then a :: b :: rest else b :: insertSorted le a rest

def sort {α : Type} (le : α → α → Bool) (l : List α) : List α :=
  l.foldr (insertSorted le) []

theorem insertSorted_perm {α : Type} (le : α → α → Bool) (a : α) (l : List α) :
    (insertSorted le a l).Perm (a :: l) := by
  induction l with
  | nil => exact .refl _
  | cons b rest ih =>
      unfold insertSorted
      split
      · exact .refl _
      · exact (ih.cons b).trans (.swap a b rest)

theorem sort_perm {α : Type} (le : α → α → Bool) (l : List α) : (sort le l).Perm l := by
  induction l with
  | nil => exact .refl _
  | cons a rest ih => exact (insertSorted_perm le a (sort le rest)).trans (ih.cons a)

theorem mem_sort {α : Type} {le : α → α → Bool} {a : α} {l : List α} :
    a ∈ sort le l ↔ a ∈ l :=
  (sort_perm le l).mem_iff

end InDoubt

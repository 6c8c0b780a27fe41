/-!
Splitting a sequence at its separators. The pieces are what stands between them, so there is one
piece more than there are separators, and joining the pieces gives the sequence back.
-/

namespace InDoubt

/-- The pieces of a sequence between the elements that separate. -/
def splitOn {α : Type} (separates : α → Bool) : List α → List (List α)
  | [] => [[]]
  | a :: rest =>
      if separates a then [] :: splitOn separates rest
      else
        match splitOn separates rest with
        | [] => [[a]]
        | piece :: more => (a :: piece) :: more

theorem splitOn_ne_nil {α : Type} (separates : α → Bool) (s : List α) :
    splitOn separates s ≠ [] := by
  cases s with
  | nil => simp [splitOn]
  | cons a rest =>
      unfold splitOn
      split
      · simp
      · split <;> simp

end InDoubt

import InDoubt.Locator.Ipv4
import Mathlib.Tactic.Common

/-!
Numbers in locators. The digits of a number read back as that number, and they are no separators.
-/

namespace InDoubt.Locator

variable {base n d : Nat} {c : Char} {s : List Char}

theorem value?_digitChar (h : d < 16) : Hex.value? d.digitChar = some d := by
  have all : ∀ d < 16, Hex.value? (Nat.digitChar d) = some d := by decide
  exact all d h

theorem digits?_concat (h : digits? base s = some n) (value : Hex.value? c = some d)
    (lt : d < base) : digits? base (s ++ [c]) = some (n * base + d) := by
  unfold digits? at h ⊢
  rw [List.foldl_append, h]
  simp [value, lt]

theorem digits?_toDigits (two : 1 < base) (hex : base ≤ 16) (n : Nat) :
    digits? base (Nat.toDigits base n) = some n := by
  induction n using Nat.strongRecOn with
  | ind n ih =>
      by_cases small : n < base
      · rw [Nat.toDigits_of_lt_base small]
        have value : Hex.value? n.digitChar = some n := value?_digitChar (by omega)
        have one : digits? base ([] ++ [n.digitChar]) = some (0 * base + n) :=
          digits?_concat rfl value small
        simpa using one
      · have le := Nat.le_of_not_lt small
        rw [Nat.toDigits_of_base_le two le]
        have lt : n % base < base := Nat.mod_lt _ (by omega)
        have front := ih (n / base) (Nat.div_lt_self (by omega) two)
        rw [digits?_concat front (value?_digitChar (by omega)) lt]
        have whole := Nat.div_add_mod n base
        rw [Nat.mul_comm] at whole
        rw [whole]

theorem exists_of_mem_toDigits (two : 1 < base) (h : c ∈ Nat.toDigits base n) :
    ∃ d < base, c = d.digitChar := by
  induction n using Nat.strongRecOn with
  | ind n ih =>
      by_cases small : n < base
      · rw [Nat.toDigits_of_lt_base small] at h
        exact ⟨n, small, List.mem_singleton.mp h⟩
      · have le := Nat.le_of_not_lt small
        rw [Nat.toDigits_of_base_le two le] at h
        rcases List.mem_append.mp h with front | last
        · exact ih (n / base) (Nat.div_lt_self (by omega) two) front
        · exact ⟨_, Nat.mod_lt _ (by omega), List.mem_singleton.mp last⟩

end InDoubt.Locator

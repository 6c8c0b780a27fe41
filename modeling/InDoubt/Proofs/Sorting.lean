import InDoubt.Sort
import InDoubt.Text.Utf8
import Mathlib.Data.List.Perm.Basic
import Mathlib.Data.String.Basic
import Mathlib.Tactic.Common

/-!
Sorting sorts, and there is only one way to list given names in increasing order. The order of names
is that of their bytes.
-/

namespace InDoubt

variable {α : Type} {le : α → α → Bool}

theorem pairwise_insertSorted (total : ∀ a b, le a b = true ∨ le b a = true)
    (trans : ∀ a b c, le a b = true → le b c = true → le a c = true) (a : α) {l : List α}
    (h : l.Pairwise fun b c => le b c = true) :
    (insertSorted le a l).Pairwise fun b c => le b c = true := by
  induction l with
  | nil => exact List.pairwise_singleton _ a
  | cons b rest ih =>
      obtain ⟨below, sorted⟩ := List.pairwise_cons.mp h
      unfold insertSorted
      split
      · rename_i first
        refine List.pairwise_cons.mpr ⟨?_, h⟩
        intro c mem
        rcases List.mem_cons.mp mem with rfl | mem
        · exact first
        · exact trans a b c first (below c mem)
      · rename_i later
        refine List.pairwise_cons.mpr ⟨?_, ih sorted⟩
        intro c mem
        rcases List.mem_cons.mp ((insertSorted_perm le a rest).mem_iff.mp mem) with rfl | mem
        · exact (total c b).resolve_left later
        · exact below c mem

theorem pairwise_sort (total : ∀ a b, le a b = true ∨ le b a = true)
    (trans : ∀ a b c, le a b = true → le b c = true → le a c = true) (l : List α) :
    (sort le l).Pairwise fun a b => le a b = true := by
  induction l with
  | nil => exact List.Pairwise.nil
  | cons a rest ih => exact pairwise_insertSorted total trans a ih

/-- Things sorted by name have their names in increasing order. -/
theorem pairwise_sort_names (name : α → String) (l : List α) :
    ((sort (fun a b => name a ≤ name b) l).map name).Pairwise (· ≤ ·) := by
  have total (a b : α) : decide (name a ≤ name b) = true ∨ decide (name b ≤ name a) = true := by
    simpa using String.le_total (name a) (name b)
  have trans (a b c : α) (h : decide (name a ≤ name b) = true)
      (k : decide (name b ≤ name c) = true) : decide (name a ≤ name c) = true := by
    rw [decide_eq_true_eq] at h k ⊢
    exact String.le_trans h k
  rw [List.pairwise_map]
  exact (pairwise_sort total trans l).imp of_decide_eq_true

/-- Two lists of the same names in increasing order are equal. -/
theorem eq_of_increasing {ids ids' : List String} (h : ids.Pairwise (· ≤ ·))
    (h' : ids'.Pairwise (· ≤ ·)) (once : ids.Nodup) (once' : ids'.Nodup)
    (same : ∀ id, id ∈ ids ↔ id ∈ ids') : ids = ids' := by
  refine List.Perm.eq_of_pairwise ?_ h h' ((List.perm_ext_iff_of_nodup once once').mpr same)
  intro id id' _ _ le ge
  exact String.le_antisymm le ge

/-! The order of bytes. -/

namespace Utf8

theorem encode_eq_flatMap (s : String) : encode s = s.toList.flatMap String.utf8EncodeChar := by
  rw [encode, ← String.utf8Encode_toList, List.utf8Encode]
  simp

/-- The first byte in which two characters differ is smaller for the smaller one. -/
theorem utf8EncodeChar_append_lt {c d : Char} (h : c < d) (s t : Bytes) :
    String.utf8EncodeChar c ++ s < String.utf8EncodeChar d ++ t := by
  have lt : c.val.toNat < d.val.toNat := h
  have valid : d.val.toNat < 0x110000 := by
    have := d.valid
    unfold UInt32.isValidChar Nat.isValidChar at this
    omega
  have less {m n : Nat} (hm : m < 256) (hn : n < 256) : UInt8.ofNat m < UInt8.ofNat n ↔ m < n := by
    rw [UInt8.lt_iff_toNat_lt]
    simp
    omega
  have same {m n : Nat} (hm : m < 256) (hn : n < 256) : UInt8.ofNat m = UInt8.ofNat n ↔ m = n := by
    rw [← UInt8.toNat_inj]
    simp
    omega
  -- The forms of four bytes have too many quotients to be compared in one step.
  have parts {v : Nat} (h : v < 0x110000) : v / 4096 % 64 = v / 4096 - v / 262144 * 64 ∧
      v / 64 % 64 = v / 64 - v / 4096 * 64 ∧ v / 262144 % 8 = v / 262144 := by omega
  have partsC := parts (Nat.lt_trans lt valid)
  have partsD := parts valid
  unfold String.utf8EncodeChar
  simp only
  split <;> split <;> (try split) <;> (try split) <;> (try split) <;> (try split)
  all_goals
    simp (disch := omega) only [List.cons_append, List.nil_append, List.cons_lt_cons_iff, less,
      same]
    omega

theorem encode_lt_encode {s t : String} (h : s < t) : encode s < encode t := by
  rw [String.lt_iff_toList_lt] at h
  simp only [encode_eq_flatMap]
  generalize s.toList = cs, t.toList = ds at h
  induction cs generalizing ds with
  | nil =>
      cases ds with
      | nil => cases h
      | cons d ds =>
          rw [List.flatMap_cons]
          cases bytes : String.utf8EncodeChar d with
          | nil => exact absurd bytes String.utf8EncodeChar_ne_nil
          | cons byte rest => exact List.nil_lt_cons _ _
  | cons c cs ih =>
      cases ds with
      | nil => cases h
      | cons d ds =>
          simp only [List.flatMap_cons]
          rcases List.cons_lt_cons_iff.mp h with first | ⟨rfl, later⟩
          · exact utf8EncodeChar_append_lt first _ _
          · exact List.append_left_lt (ih ds later)

end Utf8

/-- Names listed once each in increasing order are in strictly increasing order of their bytes. -/
theorem pairwise_encode_lt {ids : List String} (h : ids.Pairwise (· ≤ ·)) (once : ids.Nodup) :
    ids.Pairwise fun a b => Utf8.encode a < Utf8.encode b := by
  refine (h.and once).imp ?_
  intro a b ⟨le, apart⟩
  exact Utf8.encode_lt_encode (lt_of_le_of_ne le apart)

end InDoubt

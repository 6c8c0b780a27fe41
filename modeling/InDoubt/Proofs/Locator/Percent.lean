import InDoubt.Locator.Percent
import Mathlib.Tactic.Common

/-!
Encoded text. Encoding leaves nothing behind of the set that is encoded, and text without characters
of that set is encoded already, so that encoding twice is encoding once. Text without a percent sign
has only its own bytes to decode.
-/

namespace InDoubt.Locator

variable {set : EncodeSet} {s : List Char} {c : Char}

/-- No character of the text has to be encoded. -/
def Clean (set : EncodeSet) (s : List Char) : Prop := ∀ c ∈ s, set c = false

/-- What an encoded character is written with. -/
def Escape (c : Char) : Prop := c = '%' ∨ ∃ n < 16, c = Hex.digit n

instance (c : Char) : Decidable (Escape c) := inferInstanceAs (Decidable (_ ∨ _))

/-- The set has none of the characters that encoded ones are written with. -/
def EncodeSet.Plain (set : EncodeSet) : Prop :=
  set '%' = false ∧ ∀ n < 16, set (Hex.digit n) = false

instance (set : EncodeSet) : Decidable set.Plain := inferInstanceAs (Decidable (_ ∧ _))

theorem escape_of_mem {b : UInt8} (h : c ∈ '%' :: Hex.ofByte b) : Escape c := by
  have lt := b.toNat_lt
  simp only [Hex.ofByte, List.mem_cons, List.not_mem_nil, or_false] at h
  rcases h with rfl | rfl | rfl
  · exact .inl rfl
  · exact .inr ⟨_, by omega, rfl⟩
  · exact .inr ⟨_, by omega, rfl⟩

theorem mem_encodeChar {d : Char} (h : d ∈ encodeChar set c) :
    d = c ∧ set c = false ∨ Escape d := by
  unfold encodeChar at h
  split at h
  · obtain ⟨b, -, mem⟩ := List.mem_flatMap.mp h
    exact .inr (escape_of_mem mem)
  · rename_i free
    exact .inl ⟨List.mem_singleton.mp h, by simpa using free⟩

theorem encodeChar_ne_nil : encodeChar set c ≠ [] := by
  unfold encodeChar
  split
  · cases e : String.utf8EncodeChar c with
    | nil => exact absurd e (by simp)
    | cons b rest => simp
  · simp

theorem mem_percentEncode (h : c ∈ percentEncode set s) : c ∈ s ∧ set c = false ∨ Escape c := by
  obtain ⟨d, mem, h⟩ := List.mem_flatMap.mp h
  rcases mem_encodeChar h with ⟨rfl, free⟩ | escape
  · exact .inl ⟨mem, free⟩
  · exact .inr escape

theorem clean_percentEncode (plain : set.Plain) (s : List Char) :
    Clean set (percentEncode set s) := by
  intro c h
  rcases mem_percentEncode h with ⟨-, free⟩ | rfl | ⟨n, lt, rfl⟩
  · exact free
  · exact plain.1
  · exact plain.2 n lt

theorem percentEncode_of_clean (h : Clean set s) : percentEncode set s = s := by
  induction s with
  | nil => rfl
  | cons c s ih =>
      have free := h c List.mem_cons_self
      rw [percentEncode, List.flatMap_cons, ← percentEncode,
        ih fun d hd => h d (List.mem_cons_of_mem _ hd)]
      simp [encodeChar, free]

/-- The first character is what it was, or encoded. -/
theorem head?_percentEncode (h : c ∈ (percentEncode set s).head?) : c ∈ s.head? ∨ Escape c := by
  cases s with
  | nil => cases h
  | cons d rest =>
      rw [percentEncode, List.flatMap_cons, List.head?_append,
        List.head?_eq_some_head encodeChar_ne_nil] at h
      have mem : c ∈ encodeChar set d := by
        rw [← Option.some.inj h]
        exact List.head_mem _
      rcases mem_encodeChar mem with ⟨rfl, -⟩ | escape
      · exact .inl (by simp)
      · exact .inr escape

/-- The last character is what it was, or encoded. -/
theorem getLast?_percentEncode (h : c ∈ (percentEncode set s).getLast?) :
    c ∈ s.getLast? ∨ Escape c := by
  rcases List.eq_nil_or_concat s with rfl | ⟨front, d, rfl⟩
  · cases h
  · rw [List.concat_eq_append] at h ⊢
    have whole : percentEncode set (front ++ [d]) =
        percentEncode set front ++ encodeChar set d := by
      simp [percentEncode]
    rw [whole, List.getLast?_append, List.getLast?_eq_some_getLast encodeChar_ne_nil] at h
    have mem : c ∈ encodeChar set d := by
      rw [← Option.some.inj h]
      exact List.getLast_mem _
    rcases mem_encodeChar mem with ⟨rfl, -⟩ | escape
    · exact .inl (by simp)
    · exact .inr escape

theorem percentEncode_ne_nil (h : s ≠ []) : percentEncode set s ≠ [] := by
  cases s with
  | nil => exact absurd rfl h
  | cons c s => simp [percentEncode, encodeChar_ne_nil]

theorem percentDecode_of_not_mem (h : '%' ∉ s) :
    percentDecode s = s.flatMap String.utf8EncodeChar := by
  induction s with
  | nil => rfl
  | cons c s ih =>
      simp only [List.mem_cons, not_or] at h
      rw [percentDecode, ih h.2, List.flatMap_cons]
      exact fun _ _ _ e => absurd e.symm h.1

end InDoubt.Locator

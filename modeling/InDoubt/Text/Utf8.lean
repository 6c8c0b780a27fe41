/-!
Text and the bytes that hold it. Files and directory entries are bytes; locators, transaction
identifiers and recovery directories are text. Decoding accepts exactly the bytes that encoding
produces.
-/

namespace InDoubt

/-- The content of a file, and the raw form of a path. -/
abbrev Bytes := List UInt8

namespace Utf8

/-- The UTF-8 form of a text. -/
def encode (s : String) : Bytes := s.toByteArray.data.toList

/-- The text that a byte sequence is the UTF-8 form of, if there is one. -/
def decode? (b : Bytes) : Option String := String.fromUTF8? ⟨b.toArray⟩

theorem decode?_encode (s : String) : decode? (encode s) = some s := by
  simp [decode?, encode, String.fromUTF8?, String.fromUTF8, s.isValidUTF8]

theorem decode?_eq_some_iff {b : Bytes} {s : String} : decode? b = some s ↔ encode s = b := by
  constructor
  · intro h
    unfold decode? String.fromUTF8? at h
    split at h
    · injection h with h
      subst h
      simp [encode, String.fromUTF8]
    · cases h
  · rintro rfl
    exact decode?_encode s

theorem encode_injective {s t : String} (h : encode s = encode t) : s = t :=
  Option.some.inj (by rw [← decode?_encode s, h, decode?_encode t])

@[simp] theorem encode_empty : encode "" = [] := rfl

@[simp] theorem encode_append (s t : String) : encode (s ++ t) = encode s ++ encode t := by
  simp [encode, String.toByteArray_append]

end Utf8

end InDoubt

import InDoubt.Text.Split
import InDoubt.Text.Utf8

/-!
Names of domains. A domain is written in lowercase ASCII; a name with other letters is written with
encoded labels, which start with `xn--`. How such names are converted is left open: a conversion
needs tables of all letters, and what is read with it relies on the laws in `Idna` only.
`Idna.ascii` is the conversion of the names that need no tables.
-/

namespace InDoubt.Locator

/-- What holds of all characters of ASCII holds of each. -/
theorem ascii_cases {P : Char → Prop} {c : Char} (h : c.toNat < 128)
    (all : ∀ n < 128, P (Char.ofNat n)) : P c := by
  have holds := all c.toNat h
  rwa [Char.ofNat_toNat] at holds

/-- Characters that no domain may contain. -/
def forbiddenInDomain (c : Char) : Bool :=
  c.toNat ≤ 0x20 || c = '\x7F' ||
    c ∈ ['%', '#', '/', ':', '<', '>', '?', '@', '[', '\\', ']', '^', '|']

/-- The characters that a domain is written with. -/
def DomainChar (c : Char) : Prop :=
  forbiddenInDomain c = false ∧ c.toNat < 128 ∧ c.toLower = c

instance (c : Char) : Decidable (DomainChar c) := inferInstanceAs (Decidable (_ ∧ _))

/-- Whether a label of a name stands for one with other letters. -/
def hasEncodedLabel (name : List Char) : Bool :=
  (splitOn (· = '.') name).any ("xn--".toList.isPrefixOf ·)

/-- A conversion of domain names. -/
structure Idna where
  /-- The domain that the bytes of a name stand for, if they stand for any. -/
  toAscii : Bytes → Option (List Char)
  /-- A domain has no characters that are forbidden in it. -/
  written : ∀ {bytes : Bytes} {name : List Char}, toAscii bytes = some name →
    ∀ c ∈ name, DomainChar c
  /-- A domain is not converted again. -/
  stable : ∀ {bytes : Bytes} {name : List Char}, toAscii bytes = some name →
    toAscii (name.flatMap String.utf8EncodeChar) = some name
  /-- In ASCII, only encoded labels can be more than a matter of case. -/
  lower : ∀ {name : List Char}, (∀ c ∈ name, forbiddenInDomain c = false ∧ c.toNat < 128) →
    hasEncodedLabel (name.map Char.toLower) = false →
      toAscii (name.flatMap String.utf8EncodeChar) = some (name.map Char.toLower)

namespace Idna

theorem domainChar_toLower {c : Char} (h : forbiddenInDomain c = false) (ascii : c.toNat < 128) :
    DomainChar c.toLower :=
  ascii_cases (P := fun c => forbiddenInDomain c = false → DomainChar c.toLower) ascii
    (by decide +kernel) h

/-- The characters of the bytes of a text in ASCII. -/
theorem map_utf8 {name : List Char} (h : ∀ c ∈ name, c.toNat < 128) :
    (name.flatMap String.utf8EncodeChar).map (fun b => (Char.ofNat b.toNat).toLower) =
      name.map Char.toLower := by
  induction name with
  | nil => rfl
  | cons c name ih =>
      have single : (String.utf8EncodeChar c).map (fun b => (Char.ofNat b.toNat).toLower) =
          [c.toLower] :=
        ascii_cases (P := fun c => (String.utf8EncodeChar c).map
          (fun b => (Char.ofNat b.toNat).toLower) = [c.toLower]) (h c List.mem_cons_self)
          (by decide +kernel)
      rw [List.flatMap_cons, List.map_append, single,
        ih fun d mem => h d (List.mem_cons_of_mem _ mem)]
      rfl

/-- The domain of a name in ASCII without encoded labels. -/
def asciiDomain (bytes : Bytes) : Option (List Char) :=
  let name := bytes.map fun b => (Char.ofNat b.toNat).toLower
  if name.all (DomainChar ·) ∧ hasEncodedLabel name = false then some name else none

theorem asciiDomain_utf8 {name : List Char}
    (h : ∀ c ∈ name, forbiddenInDomain c = false ∧ c.toNat < 128)
    (free : hasEncodedLabel (name.map Char.toLower) = false) :
    asciiDomain (name.flatMap String.utf8EncodeChar) = some (name.map Char.toLower) := by
  have chars : ∀ c ∈ name.map Char.toLower, DomainChar c := by
    intro c mem
    obtain ⟨d, old, rfl⟩ := List.mem_map.mp mem
    exact domainChar_toLower (h d old).1 (h d old).2
  simp only [asciiDomain, map_utf8 fun c mem => (h c mem).2]
  exact if_pos ⟨by simpa using chars, free⟩

theorem of_asciiDomain {bytes : Bytes} {name : List Char} (h : asciiDomain bytes = some name) :
    (∀ c ∈ name, DomainChar c) ∧ hasEncodedLabel name = false := by
  simp only [asciiDomain] at h
  split at h
  · rename_i domain
    cases h
    exact ⟨by simpa using domain.1, domain.2⟩
  · cases h

/-- The conversion that refuses letters outside ASCII and encoded labels. -/
def ascii : Idna where
  toAscii := asciiDomain
  written h := (of_asciiDomain h).1
  stable := by
    intro bytes name h
    obtain ⟨chars, free⟩ := of_asciiDomain h
    have same : name.map Char.toLower = name :=
      (List.map_congr_left fun c mem => (chars c mem).2.2).trans (List.map_id name)
    have again := asciiDomain_utf8 (fun c mem => ⟨(chars c mem).1, (chars c mem).2.1⟩)
      (same.symm ▸ free)
    rwa [same] at again
  lower := asciiDomain_utf8

end Idna

end InDoubt.Locator

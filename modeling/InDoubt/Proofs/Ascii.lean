import InDoubt.Proofs.Locator.RoundTrip
import InDoubt.Proofs.Naming

/-!
Text of one byte a character. A character of ASCII is written as the byte of its number, and no byte
of another character is of ASCII. What is encoded in a locator is everything else, so the text of a
locator is ASCII (`Locator.Plain.ascii`).
-/

namespace InDoubt

namespace Utf8

variable {c : Char} {s : List Char}

theorem utf8EncodeChar_of_ascii (h : c.toNat < 128) :
    String.utf8EncodeChar c = [.ofNat c.toNat] := by
  have le : c.val.toNat ≤ 127 := Nat.le_of_lt_succ h
  simp only [String.utf8EncodeChar, if_pos le]
  rfl

theorem high_of_mem_utf8EncodeChar (h : 128 ≤ c.toNat) {b : UInt8}
    (mem : b ∈ String.utf8EncodeChar c) : 128 ≤ b.toNat := by
  have high : ¬c.val.toNat ≤ 127 := Nat.not_le.mpr h
  simp only [String.utf8EncodeChar, if_neg high] at mem
  split at mem
  · simp only [List.mem_cons, List.not_mem_nil, or_false] at mem
    rcases mem with rfl | rfl <;> (rw [UInt8.toNat_ofNat']; omega)
  split at mem
  · simp only [List.mem_cons, List.not_mem_nil, or_false] at mem
    rcases mem with rfl | rfl | rfl <;> (rw [UInt8.toNat_ofNat']; omega)
  · simp only [List.mem_cons, List.not_mem_nil, or_false] at mem
    rcases mem with rfl | rfl | rfl | rfl <;> (rw [UInt8.toNat_ofNat']; omega)

theorem encode_of_ascii (each : ∀ c ∈ s, c.toNat < 128) :
    encode (String.ofList s) = s.map fun c => .ofNat c.toNat := by
  rw [encode_ofList]
  induction s with
  | nil => rfl
  | cons c s ih =>
      have first := utf8EncodeChar_of_ascii (each c List.mem_cons_self)
      have rest := ih fun d mem => each d (List.mem_cons_of_mem c mem)
      rw [List.flatMap_cons, first, rest]
      rfl

end Utf8

namespace Locator

open Host (HostChar)

variable {idna : Idna} {kind : SchemeKind} {c : Char} {s : List Char} {host : Host}
  {port : Option Nat} {a : Authority} {authority : Option Authority} {path : Path} {l : Locator}
  {query fragment : Option (List Char)}

/-! What is encoded. -/

theorem ascii_of_controls (h : EncodeSet.controls c = false) : c.toNat < 128 := by
  simp only [EncodeSet.controls, Bool.or_eq_false_iff, decide_eq_false_iff_not] at h
  omega

theorem ascii_of_fragment (h : EncodeSet.fragment c = false) : c.toNat < 128 := by
  simp only [EncodeSet.fragment, Bool.or_eq_false_iff] at h
  exact ascii_of_controls h.1

theorem ascii_of_path (h : EncodeSet.path c = false) : c.toNat < 128 := by
  simp only [EncodeSet.path, Bool.or_eq_false_iff] at h
  exact ascii_of_fragment h.1

theorem ascii_of_userinfo (h : EncodeSet.userinfo c = false) : c.toNat < 128 := by
  simp only [EncodeSet.userinfo, Bool.or_eq_false_iff] at h
  exact ascii_of_path h.1

theorem ascii_of_query (h : EncodeSet.query c = false) : c.toNat < 128 := by
  simp only [EncodeSet.query, Bool.or_eq_false_iff] at h
  exact ascii_of_controls h.1

theorem ascii_of_isDigit (h : c.isDigit = true) : c.toNat < 128 :=
  ascii_of_isAlphanum (by simp [Char.isAlphanum, h])

/-! The parts of a locator. -/

theorem Host.ascii (h : host.General ∨ host.Special idna) (mem : c ∈ host.toChars) :
    c.toNat < 128 := by
  cases host with
  | name text =>
      rcases h with general | special
      · exact ascii_of_controls (general c mem).2
      · exact (idna.written special.2.2 c mem).2.1
  | ipv4 a =>
      rcases Ipv4.mem_toChars mem with rfl | digit
      · decide
      · exact ascii_of_isDigit digit
  | ipv6 a =>
      simp only [toChars, List.cons_append, List.mem_cons, List.mem_append, List.not_mem_nil,
        or_false] at mem
      rcases mem with rfl | mem | rfl
      · decide
      · rcases Ipv6.mem_toChars mem with rfl | digit
        · decide
        · exact ascii_of_isAlphanum digit
      · decide

theorem HostPort.ascii (h : HostPort idna kind host port)
    (mem : c ∈ host.toChars ++ portText port) :
    c.toNat < 128 := by
  rcases List.mem_append.mp mem with mem | mem
  · have allowed := h.allowed
    unfold Host.Allowed at allowed
    split at allowed
    · exact Host.ascii (.inl allowed : _ ∨ host.Special idna) mem
    · exact Host.ascii (.inr allowed) mem
  · cases port with
    | none => cases mem
    | some n =>
        rcases List.mem_cons.mp mem with rfl | digit
        · decide
        · exact ascii_of_isDigit (Nat.isDigit_of_mem_toDigits (by decide) (by decide) digit)

theorem Authority.Plain.ascii (h : a.Plain idna kind) (mem : c ∈ a.toChars) : c.toNat < 128 := by
  rw [a.toChars_eq] at mem
  rcases List.mem_append.mp mem with mem | mem
  · unfold credentials at mem
    split at mem
    · rename_i password e
      simp only [List.append_assoc, List.cons_append, List.mem_append, List.mem_cons,
        List.not_mem_nil, or_false] at mem
      rcases mem with mem | rfl | mem | rfl
      · exact ascii_of_userinfo (h.username c mem)
      · decide
      · exact ascii_of_userinfo ((h.password password e).2 c mem)
      · decide
    · split at mem
      · cases mem
      · rcases List.mem_append.mp mem with mem | mem
        · exact ascii_of_userinfo (h.username c mem)
        · obtain rfl := List.mem_singleton.mp mem
          decide
  · exact h.hostPort.ascii mem

theorem Path.After.ascii (h : path.After kind) (mem : c ∈ path.toChars) : c.toNat < 128 := by
  obtain ⟨-, -, e⟩ | ⟨segments, -, each, e⟩ := h.toChars_eq
  · rw [e] at mem
    cases mem
  · rw [e] at mem
    rcases List.mem_cons.mp mem with rfl | mem
    · decide
    · rcases each.mem_joined mem with rfl | clean
      · decide
      · exact ascii_of_path clean

theorem Reads.ascii (h : Reads idna kind authority path)
    (mem : c ∈ hierarchyText authority path) : c.toNat < 128 := by
  cases h with
  | @hosted _ a _ other plain after =>
      simp only [hierarchyText, hierarchy, List.cons_append, List.mem_cons, List.mem_append] at mem
      rcases mem with rfl | rfl | mem | mem
      · decide
      · decide
      · exact plain.ascii mem
      · exact after.ascii mem
  | @file host segments near each =>
      have after : (Path.rooted segments).After .file := .inr each
      simp only [hierarchyText, hierarchy, Authority.toChars, Authority.credentials, if_true,
        List.nil_append, List.append_nil, List.cons_append, List.mem_cons, List.mem_append] at mem
      rcases mem with rfl | rfl | mem | mem
      · decide
      · decide
      · rcases near with rfl | ⟨special, -⟩
        · cases mem
        · exact Host.ascii (.inr special) mem
      · exact after.ascii mem
  | @rooted segments each =>
      have after : (Path.rooted segments).After .general := .inr each
      simp only [hierarchyText, hierarchy] at mem
      split at mem
      · rcases List.mem_cons.mp mem with rfl | mem
        · decide
        rcases List.mem_cons.mp mem with rfl | mem
        · decide
        · exact after.ascii mem
      · exact after.ascii mem
  | rootless clean whole unrooted => exact ascii_of_controls (clean c mem)

theorem Tail.ascii (h : Tail kind query fragment) (mem : c ∈ tail query fragment) :
    c.toNat < 128 := by
  rcases List.mem_append.mp mem with mem | mem
  · cases query with
    | none => cases mem
    | some q =>
        rcases List.mem_cons.mp mem with rfl | mem
        · decide
        · exact ascii_of_query (query_of_querySet (h.query q rfl c mem))
  · cases fragment with
    | none => cases mem
    | some f =>
        rcases List.mem_cons.mp mem with rfl | mem
        · decide
        · exact ascii_of_fragment (h.fragment f rfl c mem)

/-- The text of a locator is ASCII. -/
theorem Plain.ascii (h : l.Plain idna) (mem : c ∈ l.toChars) : c.toNat < 128 := by
  rw [toChars_eq] at mem
  rcases List.mem_append.mp mem with mem | mem
  · exact ascii_of_isSchemeChar (h.scheme.each c mem).1
  rcases List.mem_cons.mp mem with rfl | mem
  · decide
  rcases List.mem_append.mp mem with mem | mem
  · exact h.hierarchy.ascii mem
  · exact h.tail.ascii mem

end Locator

end InDoubt

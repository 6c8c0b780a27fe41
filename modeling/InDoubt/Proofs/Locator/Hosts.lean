import InDoubt.Locator.Parser
import InDoubt.Proofs.Locator.Addresses
import InDoubt.Proofs.Locator.Percent

/-!
Hosts read back. What is read under a general scheme is a name without characters that are forbidden
or would be encoded, or an address of version 6 (`General`); under a special scheme it is a domain
that no address has to be read from, or an address (`Special`). Such a host is read from what is
written for it, and in an authority nothing of it is taken for anything else. The laws of `Idna` are
all that is known of the conversion of domains.
-/

namespace InDoubt.Locator

theorem ascii_of_isAlphanum {c : Char} (h : c.isAlphanum = true) : c.toNat < 128 := by
  have below {last : UInt32} (le : c.val ≤ last) (ascii : last.toNat < 128) : c.toNat < 128 :=
    Nat.lt_of_le_of_lt (UInt32.le_iff_toNat_le.mp le) ascii
  rcases Bool.or_eq_true_iff.mp h with alpha | digit
  · rcases Bool.or_eq_true_iff.mp alpha with upper | lower
    · exact below (of_decide_eq_true upper).2 (by decide)
    · exact below (of_decide_eq_true (Bool.and_eq_true_iff.mp lower).2) (by decide)
  · exact below (of_decide_eq_true (Bool.and_eq_true_iff.mp digit).2) (by decide)

namespace Host

variable {idna : Idna} {h : Host} {s t : List Char} {c : Char} {b : Bool}

def General : Host → Prop
  | .name text => ∀ c ∈ text, forbidden c = false ∧ EncodeSet.controls c = false
  | .ipv4 _ => False
  | .ipv6 _ => True

def Special (idna : Idna) : Host → Prop
  | .name text => text ≠ [] ∧ Ipv4.endsInNumber text = false ∧
      idna.toAscii (text.flatMap String.utf8EncodeChar) = some text
  | _ => True

theorem bracketed_toChars (a : Ipv6) : bracketed (a.toChars ++ [']']) = .ok (.ipv6 a) := by
  rw [bracketed, if_pos (by simp), List.dropLast_concat, a.parse_toChars]
  rfl

theorem exists_of_bracketed (e : bracketed s = .ok h) : ∃ a, h = .ipv6 a := by
  unfold bracketed at e
  split at e
  · cases parsed : Ipv6.parse s.dropLast with
    | error f =>
        rw [parsed] at e
        cases e
    | ok a =>
        rw [parsed] at e
        cases e
        exact ⟨a, rfl⟩
  · cases e

/-! Under a general scheme. -/

theorem parseName_eq (unbracketed : s.head? ≠ some '[') : parseName s =
    if s.any forbidden then .error .invalidDomainCharacter
    else .ok (.name (percentEncode .controls s)) := by
  unfold parseName
  split
  · exact absurd rfl unbracketed
  · rfl

theorem general_of_parseName (e : parseName s = .ok h) : h.General := by
  by_cases unbracketed : s.head? = some '['
  · obtain ⟨rest, rfl⟩ := List.head?_eq_some_iff.mp unbracketed
    obtain ⟨a, rfl⟩ := exists_of_bracketed e
    trivial
  · rw [parseName_eq unbracketed] at e
    split at e
    · cases e
    · rename_i allowed
      cases e
      intro c mem
      refine ⟨?_, clean_percentEncode (by decide) s c mem⟩
      rcases mem_percentEncode mem with ⟨old, -⟩ | rfl | ⟨n, lt, rfl⟩
      · simpa using fun bad => allowed (List.any_eq_true.mpr ⟨c, old, bad⟩)
      · decide
      · have all : ∀ n < 16, forbidden (Hex.digit n) = false := by decide
        exact all n lt

theorem parseName_toChars (general : h.General) : parseName h.toChars = .ok h := by
  cases h with
  | name text =>
      have unbracketed : text.head? ≠ some '[' := fun e =>
        absurd (general '[' (List.mem_of_mem_head? e)).1 (by decide)
      have allowed : text.any forbidden = false := by
        rw [List.any_eq_false]
        intro c mem
        simp [(general c mem).1]
      have clean : Clean .controls text := fun c mem => (general c mem).2
      rw [toChars, parseName_eq unbracketed, allowed, percentEncode_of_clean clean]
      rfl
  | ipv4 a => exact general.elim
  | ipv6 a => exact bracketed_toChars a

/-! Under a special scheme. -/

theorem parseDomain_eq (unbracketed : s.head? ≠ some '[') : parseDomain idna s =
    match idna.toAscii (percentDecode s) with
    | none => .error .invalidInternationalDomain
    | some [] => .error .emptyHost
    | some domain =>
        if Ipv4.endsInNumber domain then (Ipv4.parse domain).map .ipv4 else .ok (.name domain) := by
  unfold parseDomain
  split
  · exact absurd rfl unbracketed
  · rfl

theorem special_of_parseDomain (e : parseDomain idna s = .ok h) : h.Special idna := by
  by_cases bracket : s.head? = some '['
  · obtain ⟨rest, rfl⟩ := List.head?_eq_some_iff.mp bracket
    obtain ⟨a, rfl⟩ := exists_of_bracketed e
    trivial
  · rw [parseDomain_eq bracket] at e
    split at e
    · cases e
    · cases e
    · rename_i domain filled converted
      split at e
      · cases parsed : Ipv4.parse domain with
        | error f =>
            rw [parsed] at e
            cases e
        | ok a =>
            rw [parsed] at e
            cases e
            trivial
      · rename_i name
        cases e
        exact ⟨fun empty => filled empty, by simpa using name, idna.stable converted⟩

/-- A domain is read as it is. -/
theorem parseDomain_domain (filled : s ≠ [])
    (domain : idna.toAscii (s.flatMap String.utf8EncodeChar) = some s) : parseDomain idna s =
      if Ipv4.endsInNumber s then (Ipv4.parse s).map .ipv4 else .ok (.name s) := by
  have free {c : Char} (bad : forbiddenInDomain c = true) : c ∉ s := by
    intro mem
    rw [(idna.written domain c mem).1] at bad
    cases bad
  have unbracketed : s.head? ≠ some '[' := fun e => free (by decide) (List.mem_of_mem_head? e)
  rw [parseDomain_eq unbracketed, percentDecode_of_not_mem (free (by decide)), domain]
  cases s with
  | nil => exact absurd rfl filled
  | cons c s => rfl

theorem not_hasEncodedLabel (h : 'x' ∉ s) : hasEncodedLabel s = false := by
  refine List.any_eq_false.mpr fun label mem encoded => h ?_
  have start : "xn--".toList <+: label := List.isPrefixOf_iff_prefix.mp encoded
  exact mem_of_mem_splitOn mem (start.subset (by decide))

theorem toAscii_ipv4 (a : Ipv4) :
    idna.toAscii (a.toChars.flatMap String.utf8EncodeChar) = some a.toChars := by
  have each {c : Char} (mem : c ∈ a.toChars) : DomainChar c ∧ c ≠ 'x' := by
    rcases Ipv4.mem_toChars mem with rfl | digit
    · decide
    · have ascii := ascii_of_isAlphanum (c := c) (by simp [Char.isAlphanum, digit])
      exact ascii_cases (P := fun c => c.isDigit = true → DomainChar c ∧ c ≠ 'x') ascii
        (by decide +kernel) digit
  have same : a.toChars.map Char.toLower = a.toChars :=
    (List.map_congr_left fun c mem => (each mem).1.2.2).trans (List.map_id a.toChars)
  have read := idna.lower (fun c mem => ⟨(each mem).1.1, (each mem).1.2.1⟩)
    (same.symm ▸ not_hasEncodedLabel fun mem => (each mem).2 rfl)
  rwa [same] at read

theorem parseDomain_toChars (special : h.Special idna) : parseDomain idna h.toChars = .ok h := by
  cases h with
  | name text =>
      obtain ⟨filled, name, domain⟩ := special
      rw [toChars, parseDomain_domain filled domain, name]
      rfl
  | ipv4 a =>
      rw [toChars, parseDomain_domain a.toChars_ne_nil (toAscii_ipv4 a),
        if_pos a.endsInNumber_toChars, a.parse_toChars]
      rfl
  | ipv6 a => exact bracketed_toChars a

theorem Special.toChars_ne_nil (special : h.Special idna) : h.toChars ≠ [] := by
  cases h with
  | name text => exact special.1
  | ipv4 a => exact a.toChars_ne_nil
  | ipv6 a => exact List.cons_ne_nil _ _

/-! In an authority. -/

/-- A character that may stand in a name. -/
def NameChar (c : Char) : Prop :=
  0x20 < c.toNat ∧ c ∉ [':', '[', ']', '/', '?', '#', '\\', '@']

instance (c : Char) : Decidable (NameChar c) := inferInstanceAs (Decidable (_ ∧ _))

/-- A character that may stand in a host. -/
def HostChar (c : Char) : Prop := NameChar c ∨ c ∈ [':', '[', ']']

instance (c : Char) : Decidable (HostChar c) := inferInstanceAs (Decidable (_ ∨ _))

/-- A host of either kind. -/
def Written : Host → Prop
  | .name text => ∀ c ∈ text, NameChar c
  | _ => True

theorem General.written (general : h.General) : h.Written := by
  cases h with
  | name text =>
      intro c mem
      obtain ⟨allowed, plain⟩ := general c mem
      simp only [forbidden, decide_eq_false_iff_not, List.mem_cons, List.not_mem_nil, or_false,
        not_or] at allowed
      simp only [EncodeSet.controls, Bool.or_eq_false_iff, decide_eq_false_iff_not] at plain
      refine ⟨?_, by simp [allowed]⟩
      have space : c.toNat ≠ 0x20 := fun e => allowed.2.2.2.2.1 (Char.toNat_inj.mp e)
      omega
  | ipv4 a => trivial
  | ipv6 a => trivial

theorem Special.written (special : h.Special idna) : h.Written := by
  cases h with
  | name text =>
      intro c mem
      have allowed := (idna.written special.2.2 c mem).1
      simp only [forbiddenInDomain, Bool.or_eq_false_iff, decide_eq_false_iff_not, List.mem_cons,
        List.not_mem_nil, or_false, not_or] at allowed
      refine ⟨by omega, by simp [allowed]⟩
  | ipv4 a => trivial
  | ipv6 a => trivial

theorem nameChar_of_isAlphanum (h : c.isAlphanum = true) : NameChar c :=
  ascii_cases (P := fun c => c.isAlphanum = true → NameChar c) (ascii_of_isAlphanum h)
    (by decide +kernel) h

theorem nameChar_of_mem_ipv4 {a : Ipv4} (mem : c ∈ a.toChars) : NameChar c := by
  rcases Ipv4.mem_toChars mem with rfl | digit
  · decide
  · exact nameChar_of_isAlphanum (by simp [Char.isAlphanum, digit])

theorem Written.mem_toChars (written : h.Written) (mem : c ∈ h.toChars) : HostChar c := by
  cases h with
  | name text => exact .inl (written c mem)
  | ipv4 a => exact .inl (nameChar_of_mem_ipv4 mem)
  | ipv6 a =>
      simp only [toChars, List.cons_append, List.mem_cons, List.mem_append, List.not_mem_nil,
        or_false] at mem
      rcases mem with rfl | mem | rfl
      · exact .inr (by simp)
      · rcases Ipv6.mem_toChars mem with rfl | digit
        · exact .inr (by simp)
        · exact .inl (nameChar_of_isAlphanum digit)
      · exact .inr (by simp)

theorem splitHost_append (h : ∀ c ∈ s, (c = ':' → b = true) ∧ c ≠ '[' ∧ c ≠ ']') :
    splitHost b (s ++ t) = (s ++ (splitHost b t).1, (splitHost b t).2) := by
  induction s with
  | nil => rfl
  | cons c s ih =>
      obtain ⟨colon, opening, closing⟩ := h c List.mem_cons_self
      have inside : ¬(c = ':' ∧ !b) := by
        rintro ⟨e, outside⟩
        rw [colon e] at outside
        cases outside
      rw [List.cons_append, splitHost, if_neg inside, if_neg opening, if_neg closing]
      simp only [ih fun d mem => h d (List.mem_cons_of_mem _ mem), List.cons_append]

/-- A host ends where a port starts. -/
theorem Written.splitHost (written : h.Written) (stops : StopsAt (· ≠ ':') t) :
    splitHost false (h.toChars ++ t) = (h.toChars, t) := by
  have rest : Locator.splitHost false t = ([], t) := by
    cases t with
    | nil => rfl
    | cons c t =>
        obtain rfl : c = ':' := by simpa using stops c rfl
        rfl
  have named {text : List Char} (chars : ∀ c ∈ text, NameChar c) :
      Locator.splitHost false (text ++ t) = (text, t) := by
    rw [splitHost_append, rest, List.append_nil]
    intro c mem
    have free := (chars c mem).2
    simp only [List.mem_cons, List.not_mem_nil, or_false, not_or] at free
    exact ⟨fun e => absurd e free.1, free.2.1, free.2.2.1⟩
  cases h with
  | name text => exact named written
  | ipv4 a => exact named fun c => nameChar_of_mem_ipv4
  | ipv6 a =>
      have inner : Locator.splitHost true (a.toChars ++ ']' :: t) = (a.toChars ++ [']'], t) := by
        rw [splitHost_append]
        · simp [Locator.splitHost, rest]
        · intro c mem
          refine ⟨fun _ => rfl, ?_⟩
          rcases Ipv6.mem_toChars mem with rfl | digit
          · decide
          · have free := (nameChar_of_isAlphanum digit).2
            simp only [List.mem_cons, List.not_mem_nil, or_false, not_or] at free
            exact ⟨free.2.1, free.2.2.1⟩
      have whole : toChars (.ipv6 a) ++ t = '[' :: (a.toChars ++ ']' :: t) := by simp [toChars]
      rw [whole, Locator.splitHost]
      simp [inner, toChars]

end Host

end InDoubt.Locator

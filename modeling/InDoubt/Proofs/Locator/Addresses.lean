import InDoubt.Locator.Ipv6
import InDoubt.Proofs.Locator.Numbers
import InDoubt.Proofs.Basic

/-!
Addresses in host position. An address of either version reads back from what is written for it: the
four bytes are read as decimal numbers, and the zero groups that a double colon stands for are as
many as are missing.
-/

namespace InDoubt.Locator

namespace Ipv4

/-- One of the bytes of an address, counted from the lowest. -/
def byte (a : Ipv4) (i : Nat) : Nat := a.value.toNat / span i % 256

theorem byte_lt (a : Ipv4) (i : Nat) : a.byte i < 256 := Nat.mod_lt _ (by decide)

/-- The labels of a written address. -/
def written (a : Ipv4) : List (List Char) := [3, 2, 1, 0].map fun i => Nat.toDigits 10 (a.byte i)

theorem toChars_eq (a : Ipv4) : a.toChars = ['.'].intercalate a.written := by
  simp [toChars, written, byte, List.intercalate]

theorem isDigit_of_mem_written {a : Ipv4} {label : List Char} (h : label ∈ a.written) :
    ∀ c ∈ label, c.isDigit = true := by
  obtain ⟨i, -, rfl⟩ := List.mem_map.mp h
  exact fun c => Nat.isDigit_of_mem_toDigits (by decide) (by decide)

theorem labels_toChars (a : Ipv4) : labels a.toChars = a.written := by
  have split : splitOn (· = '.') a.toChars = a.written := by
    rw [toChars_eq]
    refine splitOn_intercalate (by simp) (by simp [written]) ?_
    intro label mem c hc
    have digit := isDigit_of_mem_written mem c hc
    rw [decide_eq_false_iff_not]
    rintro rfl
    cases digit
  have last : Nat.toDigits 10 (a.byte 0) ≠ [] := Nat.toDigits_ne_nil
  rw [labels, split]
  simp only [written, List.map_cons, List.map_nil, List.reverse_cons, List.reverse_nil,
    List.nil_append, List.cons_append]
  split
  · rename_i e
    exact absurd (List.cons.inj e).1 last
  · rfl

theorem number?_toDigits {n : Nat} (h : n < 256) : number? (Nat.toDigits 10 n) = some n := by
  have all : ∀ n < 256, number? (Nat.toDigits 10 n) = some n := by decide +kernel
  exact all n h

theorem endsInNumber_toChars (a : Ipv4) : endsInNumber a.toChars = true := by
  have last : a.written.getLast? = some (Nat.toDigits 10 (a.byte 0)) := rfl
  simp [endsInNumber, labels_toChars, last, number?_toDigits (a.byte_lt 0)]

theorem toChars_ne_nil (a : Ipv4) : a.toChars ≠ [] := fun e =>
  absurd (e ▸ a.endsInNumber_toChars) (by decide)

theorem parse_toChars (a : Ipv4) : parse a.toChars = .ok a := by
  have numbers : a.written.mapM number? = some ([3, 2, 1, 0].map a.byte) := by
    simp [written, number?_toDigits (a.byte_lt _)]
  have whole : ofParts? ([3, 2, 1, 0].map a.byte) = some a := by
    have lt := a.value.toNat_lt
    have value : ((a.byte 3 * 256 + a.byte 2) * 256 + a.byte 1) * 256 + a.byte 0 =
        a.value.toNat := by
      have spans : span 3 = 16777216 ∧ span 2 = 65536 ∧ span 1 = 256 ∧ span 0 = 1 := by decide
      simp only [byte, spans]
      omega
    simp [ofParts?, a.byte_lt, span, value]
  rw [parse, labels_toChars, numbers, Option.bind_eq_bind, Option.bind_some, whole]

theorem mem_toChars {a : Ipv4} {c : Char} (h : c ∈ a.toChars) : c = '.' ∨ c.isDigit = true := by
  rw [toChars_eq] at h
  refine (mem_of_mem_intercalate h).imp_right ?_
  intro ⟨label, mem, hc⟩
  exact isDigit_of_mem_written mem c hc

end Ipv4

namespace Ipv6

variable {g : UInt16} {gs front back : List UInt16} {t piece : List Char} {c : Char}

theorem group?_ofNat (g : UInt16) : group? (Hex.ofNat g.toNat) = some g := by
  have lt := g.toNat_lt
  have short : (Nat.toDigits 16 g.toNat).length ≤ 4 :=
    (Nat.length_toDigits_le_iff (by decide) (by decide)).mpr lt
  have nonempty : Nat.toDigits 16 g.toNat ≠ [] := Nat.toDigits_ne_nil
  rw [group?, Hex.ofNat, if_pos ⟨nonempty, short⟩, digits?_toDigits (by decide) (by decide)]
  simp

/-- A digit of a group separates nothing. -/
theorem plain_of_mem_ofNat {n : Nat} (h : c ∈ Hex.ofNat n) : c ≠ ':' ∧ c ≠ '.' ∧ c.isAlphanum := by
  obtain ⟨d, lt, rfl⟩ := exists_of_mem_toDigits (by decide) h
  have all : ∀ d < 16, Nat.digitChar d ≠ ':' ∧ Nat.digitChar d ≠ '.' ∧
      (Nat.digitChar d).isAlphanum := by decide
  exact all d lt

theorem pieces?_map (dottedLast : Bool) (gs : List UInt16) :
    pieces? dottedLast (gs.map fun g => Hex.ofNat g.toNat) = some gs := by
  induction gs with
  | nil => rfl
  | cons g rest ih =>
      cases rest with
      | nil =>
          have undotted : '.' ∉ Hex.ofNat g.toNat := fun dot => (plain_of_mem_ofNat dot).2.1 rfl
          simp [pieces?, undotted, group?_ofNat]
      | cons g' rest =>
          rw [List.map_cons] at ih
          rw [List.map_cons, List.map_cons, pieces?, group?_ofNat, ih]
          · rfl
          · simp

theorem joinGroups_cons (nonempty : gs ≠ []) :
    joinGroups (g :: gs) = Hex.ofNat g.toNat ++ ':' :: joinGroups gs := by
  rw [joinGroups, List.map_cons, List.intercalate_cons_of_ne_nil (by simpa using nonempty),
    List.append_assoc]
  rfl

/-- Groups start with a digit. -/
theorem exists_joinGroups_eq_cons (nonempty : gs ≠ []) :
    ∃ c t, joinGroups gs = c :: t ∧ c ≠ ':' := by
  cases gs with
  | nil => exact absurd rfl nonempty
  | cons g gs =>
      cases e : Hex.ofNat g.toNat with
      | nil => exact absurd e Nat.toDigits_ne_nil
      | cons c t =>
          have mem : c ∈ Hex.ofNat g.toNat := e ▸ List.mem_cons_self
          have digit : c ≠ ':' := (plain_of_mem_ofNat mem).1
          by_cases last : gs = []
          · subst last
            exact ⟨c, t, by simp [joinGroups, e], digit⟩
          · exact ⟨c, _, by rw [joinGroups_cons last, e, List.cons_append], digit⟩

theorem side?_joinGroups (dottedLast : Bool) (gs : List UInt16) :
    side? dottedLast (joinGroups gs) = some gs := by
  by_cases empty : gs = []
  · subst empty
    rfl
  · obtain ⟨c, t, e, -⟩ := exists_joinGroups_eq_cons empty
    have split : splitOn (· = ':') (joinGroups gs) = gs.map fun g => Hex.ofNat g.toNat := by
      refine splitOn_intercalate (by simp) (by simpa using empty) ?_
      intro piece mem c hc
      obtain ⟨g, -, rfl⟩ := List.mem_map.mp mem
      exact decide_eq_false (plain_of_mem_ofNat hc).1
    rw [side?, if_neg (by simp [e]), split, pieces?_map]

theorem splitDouble_append (plain : ':' ∉ piece) :
    splitDouble (piece ++ t) =
      (splitDouble t).map fun (before, after) => (piece ++ before, after) := by
  induction piece with
  | nil => simp
  | cons c piece ih =>
      simp only [List.mem_cons, not_or] at plain
      rw [List.cons_append, splitDouble, ih plain.2, Option.map_map]
      · rfl
      · exact fun _ e _ => absurd e.symm plain.1

theorem splitDouble_colon (h : c ≠ ':') :
    splitDouble (':' :: c :: t) =
      (splitDouble (c :: t)).map fun (before, after) => (':' :: before, after) := by
  rw [splitDouble]
  exact fun _ _ e => absurd (List.cons.inj e).1 h

theorem colon_not_mem (g : UInt16) : ':' ∉ Hex.ofNat g.toNat :=
  fun mem => (plain_of_mem_ofNat mem).1 rfl

theorem splitDouble_joinGroups (gs : List UInt16) : splitDouble (joinGroups gs) = none := by
  induction gs with
  | nil => rfl
  | cons g gs ih =>
      by_cases last : gs = []
      · have whole : joinGroups [g] = Hex.ofNat g.toNat ++ [] := by simp [joinGroups]
        rw [last, whole, splitDouble_append (colon_not_mem g)]
        rfl
      · obtain ⟨c, t, e, digit⟩ := exists_joinGroups_eq_cons last
        rw [joinGroups_cons last, splitDouble_append (colon_not_mem g), e, splitDouble_colon digit,
          ← e, ih]
        rfl

/-- The double colon of a written address is the first one. -/
theorem splitDouble_compressed (front : List UInt16) (t : List Char) :
    splitDouble (joinGroups front ++ ':' :: ':' :: t) = some (joinGroups front, t) := by
  induction front with
  | nil => rfl
  | cons g gs ih =>
      by_cases last : gs = []
      · have whole : joinGroups [g] = Hex.ofNat g.toNat := by simp [joinGroups]
        rw [last, whole, splitDouble_append (colon_not_mem g)]
        simp [splitDouble]
      · obtain ⟨c, t', e, digit⟩ := exists_joinGroups_eq_cons last
        rw [e, List.cons_append] at ih
        rw [joinGroups_cons last, List.append_assoc, splitDouble_append (colon_not_mem g),
          List.cons_append, e, List.cons_append, splitDouble_colon digit, ih]
        rfl

theorem leadingZeros_run (gs : List UInt16) :
    gs = List.replicate (gs.takeWhile (· = 0)).length 0 ++ gs.drop (gs.takeWhile (· = 0)).length ∧
      (gs.takeWhile (· = 0)).length ≤ gs.length := by
  induction gs with
  | nil => exact ⟨rfl, Nat.le_refl _⟩
  | cons g gs ih =>
      by_cases zero : g = 0
      · rw [List.takeWhile_cons_of_pos (by simpa using zero), List.length_cons,
          List.replicate_succ, List.cons_append, List.drop_succ_cons, ← ih.1, zero]
        exact ⟨rfl, Nat.succ_le_succ ih.2⟩
      · rw [List.takeWhile_cons_of_neg (by simpa using zero)]
        exact ⟨rfl, Nat.zero_le _⟩

/-- The run that is left out consists of zeros. -/
theorem longestZeros_run {start length : Nat} (h : longestZeros gs = (start, length)) :
    gs = gs.take start ++ List.replicate length 0 ++ gs.drop (start + length) ∧
      start + length ≤ gs.length := by
  induction gs generalizing start length with
  | nil =>
      cases h
      exact ⟨rfl, Nat.le_refl _⟩
  | cons g gs ih =>
      simp only [longestZeros] at h
      split at h
      · cases h
        simpa using leadingZeros_run (g :: gs)
      · cases h
        obtain ⟨run, le⟩ := ih rfl
        rw [Nat.add_right_comm, List.take_succ_cons, List.drop_succ_cons, List.cons_append,
          List.cons_append, ← run]
        exact ⟨rfl, Nat.succ_le_succ le⟩

theorem parse_toChars (a : Ipv6) : parse a.toChars = .ok a := by
  obtain ⟨groups, eight⟩ := a
  have whole : ofChars? (toChars ⟨groups, eight⟩) = some ⟨groups, eight⟩ := by
    rw [toChars]
    generalize e : longestZeros groups = zeros
    obtain ⟨start, length⟩ := zeros
    obtain ⟨run, le⟩ := longestZeros_run e
    rw [eight] at le
    simp only
    split
    · rename_i two
      have missing : 8 - ((groups.take start).length + (groups.drop (start + length)).length) =
          length := by
        simp only [List.length_take, List.length_drop, eight]
        omega
      rw [ofChars?, List.append_assoc, List.cons_append, List.cons_append, List.nil_append,
        splitDouble_compressed]
      simp only [side?_joinGroups, Option.bind_eq_bind, Option.bind_some]
      rw [dif_pos (by omega)]
      simp only [Option.some.injEq, mk.injEq, missing]
      exact run.symm
    · rw [ofChars?, splitDouble_joinGroups]
      simp only [side?_joinGroups, Option.bind_eq_bind, Option.bind_some]
      rw [dif_pos eight]
  rw [parse, whole]

theorem mem_joinGroups (h : c ∈ joinGroups gs) : c = ':' ∨ c.isAlphanum = true := by
  refine (mem_of_mem_intercalate h).imp_right ?_
  intro ⟨piece, mem, hc⟩
  obtain ⟨g, -, rfl⟩ := List.mem_map.mp mem
  exact (plain_of_mem_ofNat hc).2.2

theorem mem_toChars {a : Ipv6} (h : c ∈ a.toChars) : c = ':' ∨ c.isAlphanum = true := by
  rw [toChars] at h
  simp only at h
  split at h
  · simp only [List.mem_append, List.mem_cons, List.not_mem_nil, or_false] at h
    rcases h with (h | h | h) | h
    · exact mem_joinGroups h
    · exact .inl h
    · exact .inl h
    · exact mem_joinGroups h
  · exact mem_joinGroups h

end Ipv6

end InDoubt.Locator

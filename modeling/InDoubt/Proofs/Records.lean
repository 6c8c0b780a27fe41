import InDoubt.Proofs.Locator.RoundTrip
import InDoubt.Record
import InDoubt.Text.Utf8
import Mathlib.Data.List.Forall2

/-!
Registry files read back what was recorded. The text of a locator that was read is a line of its own
that is not blank and reads as one locator, which is the recorded one exactly if that is settled
(`Record.encode_alone_iff`). The records of any such locators, one after the other, are a content
with what their texts read as in this order. Any content gives the locators of its lines that are
not blank, or fails at the first of these that is no record.
-/

namespace InDoubt

section MapM

variable {ε α β : Type} {f : α → Except ε β} {l : List α}

theorem forall₂_of_mapM_eq_ok {bs : List β} (h : l.mapM f = .ok bs) :
    List.Forall₂ (fun a b => f a = .ok b) l bs := by
  induction l generalizing bs with
  | nil =>
      cases h
      exact .nil
  | cons a rest ih =>
      rw [List.mapM_cons] at h
      obtain ⟨b, first, h⟩ := bind_eq_ok_iff.mp h
      obtain ⟨others, later, h⟩ := bind_eq_ok_iff.mp h
      cases h
      exact .cons first (ih later)

/-- What fails is the first element that fails. -/
theorem first_of_mapM_eq_error {e : ε} (h : l.mapM f = .error e) :
    ∃ before a rest, l = before ++ a :: rest ∧ (∀ a' ∈ before, ∃ b, f a' = .ok b) ∧
      f a = .error e := by
  induction l with
  | nil => cases h
  | cons a rest ih =>
      rw [List.mapM_cons] at h
      cases first : f a with
      | error e' =>
          rw [first] at h
          cases h
          exact ⟨[], a, rest, rfl, nofun, first⟩
      | ok b =>
          cases later : rest.mapM f with
          | ok bs =>
              rw [first, later] at h
              cases h
          | error e' =>
              rw [first, later] at h
              cases h
              obtain ⟨before, a', rest', rfl, well, bad⟩ := ih later
              refine ⟨a :: before, a', rest', rfl, fun a'' mem => ?_, bad⟩
              rcases List.mem_cons.mp mem with rfl | mem
              · exact ⟨b, first⟩
              · exact well a'' mem

end MapM

theorem Text.not_isBlank_of_isAlpha {c : Char} (h : c.isAlpha = true) : isBlank c = false := by
  have ascii := Locator.ascii_of_isAlphanum (c := c) (by simp [Char.isAlphanum, h])
  exact Locator.ascii_cases (P := fun c => c.isAlpha = true → isBlank c = false) ascii
    (by decide +kernel) h

theorem Text.linesOf_append {line rest : List Char} (plain : '\n' ∉ line) (plain' : '\r' ∉ line) :
    linesOf (line ++ '\n' :: rest) = line :: linesOf rest := by
  induction line with
  | nil => simp [linesOf]
  | cons c line ih =>
      simp only [List.mem_cons, not_or] at plain plain'
      have apart : c ≠ '\n' := fun e => plain.1 e.symm
      have apart' : c ≠ '\r' := fun e => plain'.1 e.symm
      rw [List.cons_append, linesOf, ih plain.2 plain'.2]
      · exact apart
      · exact fun _ e => absurd e apart'

namespace Record

theorem not_isBlankLine_of_head? {line : List Char} {c : Char} (first : c ∈ line.head?)
    (alpha : c.isAlpha = true) : isBlankLine line = false := by
  refine List.all_eq_false.mpr ⟨c, List.mem_of_mem_head? first, ?_⟩
  simp [Text.not_isBlank_of_isAlpha alpha]

theorem not_isBlankLine {idna : Locator.Idna} {l : Locator} (h : l.Plain idna) :
    isBlankLine l.toChars = false := by
  obtain ⟨c, first, alpha⟩ := h.head?_toChars
  exact not_isBlankLine_of_head? first alpha

/-- The content of a file in which locators have been recorded. -/
def contentOf : List Locator → String
  | [] => ""
  | l :: ls => encode l ++ contentOf ls

theorem contentOf_append (ls more : List Locator) :
    contentOf (ls ++ more) = contentOf ls ++ contentOf more := by
  induction ls with
  | nil => simp [contentOf]
  | cons first ls ih => simp only [List.cons_append, contentOf, ih, String.append_assoc]

theorem contentOf_concat (ls : List Locator) (l : Locator) :
    contentOf (ls ++ [l]) = contentOf ls ++ encode l := by
  rw [contentOf_append]
  simp [contentOf]

/-- The text of a locator has none of the characters that end a line. -/
theorem not_mem_of_plain {idna : Locator.Idna} {l : Locator} (plain : l.Plain idna) {c : Char}
    (lt : c.toNat < 0x20) : c ∉ l.toChars :=
  fun mem => absurd (plain.mem_toChars mem) (Nat.not_le.mpr lt)

theorem linesOf_contentOf {idna : Locator.Idna} {ls : List Locator}
    (h : ∀ l ∈ ls, l.Plain idna) :
    Text.linesOf (contentOf ls).toList = ls.map Locator.toChars := by
  induction ls with
  | nil => rfl
  | cons l ls ih =>
      have plain := h l List.mem_cons_self
      have line : (contentOf (l :: ls)).toList = l.toChars ++ '\n' :: (contentOf ls).toList := by
        simp [contentOf, encode, Locator.text]
      rw [line, Text.linesOf_append (not_mem_of_plain plain (by decide))
        (not_mem_of_plain plain (by decide)), ih fun l hl => h l (List.mem_cons_of_mem _ hl)]
      rfl

/-- The lines that are read are those of all locators. -/
theorem filledLines_contentOf {idna : Locator.Idna} {ls : List Locator}
    (h : ∀ l ∈ ls, l.Plain idna) :
    (Text.linesOf (contentOf ls).toList).filter (!isBlankLine ·) = ls.map Locator.toChars := by
  rw [linesOf_contentOf h]
  refine List.filter_eq_self.mpr ?_
  intro line mem
  obtain ⟨l, hl, rfl⟩ := List.mem_map.mp mem
  simp [not_isBlankLine (h l hl)]

theorem mapM_parseLine {ls : List Locator} (h : ∀ l ∈ ls, l.Parsed) :
    (ls.map Locator.toChars).mapM parseLine = .ok (ls.map Locator.reread) := by
  induction ls with
  | nil => rfl
  | cons l ls ih =>
      have line : parseLine l.toChars = .ok l.reread := by
        have read := (h l List.mem_cons_self).parse_text
        rw [Locator.parse, Locator.parseBy, Locator.text, String.toList_ofList] at read
        rw [parseLine, parseLineBy, read]
      rw [List.map_cons, List.mapM_cons, line, ih fun l hl => h l (List.mem_cons_of_mem _ hl)]
      rfl

/-- What was recorded is read, each locator as what its text reads as. -/
theorem parse_contentOf {ls : List Locator} (h : ∀ l ∈ ls, l.Parsed) :
    parse (contentOf ls) = .ok (ls.map Locator.reread) := by
  rw [parse, parseBy, filledLines_contentOf fun l hl => (h l hl).plain]
  exact mapM_parseLine h

theorem map_reread {ls : List Locator} (h : ∀ l ∈ ls, l.Faithful) :
    ls.map Locator.reread = ls :=
  (List.map_congr_left fun l hl => (h l hl).reread_eq).trans (List.map_id ls)

/-- What was recorded is what is read, if the texts are read back. -/
theorem parse_contentOf_of_faithful {ls : List Locator} (h : ∀ l ∈ ls, l.Faithful) :
    parse (contentOf ls) = .ok ls := by
  rw [parse_contentOf fun l hl => (h l hl).parsed, map_reread h]

/-! What reading says about lines. -/

theorem parseLine_eq_ok_iff {line : List Char} {l : Locator} :
    parseLine line = .ok l ↔ Locator.parseChars line = .ok l := by
  unfold parseLine parseLineBy Locator.parseChars
  cases Locator.parseCharsBy .ascii line <;> simp

theorem parseLine_eq_error_iff {line : List Char} {bad : Malformed} :
    parseLine line = .error bad ↔
      ∃ cause, Locator.parseChars line = .error cause ∧ bad = ⟨String.ofList line, cause⟩ := by
  unfold parseLine parseLineBy Locator.parseChars
  cases Locator.parseCharsBy .ascii line <;> simp [eq_comm]

/-- The locators that are read are those of the lines that are not blank. -/
theorem forall₂_of_parse_eq_ok {content : String} {ls : List Locator}
    (h : parse content = .ok ls) : List.Forall₂ (fun line l => Locator.parseChars line = .ok l)
      ((Text.linesOf content.toList).filter (!isBlankLine ·)) ls :=
  (forall₂_of_mapM_eq_ok h).imp fun _ _ => parseLine_eq_ok_iff.mp

theorem parse_eq_nil_iff {content : String} :
    parse content = .ok [] ↔ ∀ line ∈ Text.linesOf content.toList, isBlankLine line = true := by
  have empty {lines : List (List Char)} : lines.mapM parseLine = .ok [] ↔ lines = [] := by
    constructor
    · intro h
      cases forall₂_of_mapM_eq_ok h
      rfl
    · rintro rfl
      rfl
  rw [parse, parseBy]
  exact empty.trans (by simp [List.filter_eq_nil_iff])

/-- What spoils a content is the first line that is neither blank nor a record. -/
theorem first_of_parse_eq_error {content : String} {bad : Malformed}
    (h : parse content = .error bad) :
    ∃ before line rest cause, Text.linesOf content.toList = before ++ line :: rest ∧
      (∀ l ∈ before, isBlankLine l = true ∨ ∃ locator, Locator.parseChars l = .ok locator) ∧
      isBlankLine line = false ∧ Locator.parseChars line = .error cause ∧
      bad = ⟨String.ofList line, cause⟩ := by
  obtain ⟨before, line, rest, filled, well, failed⟩ := first_of_mapM_eq_error h
  obtain ⟨cause, failed', rfl⟩ := parseLine_eq_error_iff.mp failed
  obtain ⟨front, back, whole, rfl, later⟩ := List.filter_eq_append_iff.mp filled
  obtain ⟨blank, more, rfl, blanks, shown, -⟩ := List.filter_eq_cons_iff.mp later
  refine ⟨front ++ blank, line, more, cause, ?_, fun l mem => ?_, by simpa using shown, failed',
    rfl⟩
  · rw [whole, List.append_assoc]
  · rcases List.mem_append.mp mem with mem | mem
    · cases empty : isBlankLine l with
      | true => exact .inl rfl
      | false =>
          obtain ⟨locator, read⟩ := well l (List.mem_filter.mpr ⟨mem, by simp [empty]⟩)
          exact .inr ⟨locator, parseLine_eq_ok_iff.mp read⟩
    · exact .inl (by simpa using blanks l mem)

/-- What is read from lines has been parsed. -/
theorem parsed_of_parse {content : String} {ls : List Locator} (h : parse content = .ok ls) :
    ∀ l ∈ ls, l.Parsed := by
  intro l mem
  have each := forall₂_of_parse_eq_ok h
  obtain ⟨i, lt, rfl⟩ := List.getElem_of_mem mem
  have read := each.get (each.length_eq ▸ lt) lt
  exact ⟨String.ofList _, (congrArg Locator.parseChars String.toList_ofList).trans read⟩

/-! One record. -/

/-- A record that is a line of its own. -/
structure OneLine (record : String) : Prop where
  /-- The only line break is the last character. -/
  single : record.toList.count '\n' = 1
  ended : record.toList.getLast? = some '\n'
  unreturned : '\r' ∉ record.toList
  filled : isBlankLine record.toList = false

theorem oneLine_encode {idna : Locator.Idna} {l : Locator} (plain : l.Plain idna) :
    OneLine (encode l) := by
  have chars : (encode l).toList = l.toChars ++ ['\n'] := by simp [encode, Locator.text]
  constructor
  case single =>
    rw [chars, List.count_append,
      List.count_eq_zero_of_not_mem (not_mem_of_plain plain (by decide))]
    rfl
  case ended => simp [chars]
  case unreturned => simp [chars, not_mem_of_plain plain (c := '\r') (by decide)]
  case filled =>
    rw [chars, isBlankLine, List.all_append, ← isBlankLine, not_isBlankLine plain]
    rfl

/-- However domains are converted, any text that reads as a locator has a record that is one line
and reads as one locator. That is the recorded one, and has the same text, exactly if the recorded
one is settled: it is not of the file scheme, or no segment of its path is a dot and, if it has a
host, the first segment is no drive. -/
theorem encode_alone_iff (idna : Locator.Idna) (s : String) {l : Locator}
    (e : Locator.parseBy idna s = .ok l) :
    OneLine (encode l) ∧ ∃ l', parseBy idna (encode l) = .ok [l'] ∧ (l' = l ↔ l.Settled) ∧
      (l'.text = l.text ↔ l.Settled) := by
  have plain : l.Plain idna := Locator.plain_of_parseCharsBy e
  obtain ⟨l', read, same, written⟩ := plain.parseCharsBy_toChars
  have alone : contentOf [l] = encode l := by simp [contentOf]
  have lines : (Text.linesOf (encode l).toList).filter (!isBlankLine ·) = [l.toChars] := by
    rw [← alone]
    exact filledLines_contentOf (List.forall_mem_singleton.mpr plain)
  refine ⟨oneLine_encode plain, l', ?_, same, ?_⟩
  · rw [parseBy, lines, List.mapM_cons, parseLineBy, read]
    rfl
  · rw [Locator.text, Locator.text, String.ofList_inj, written, same]

/-- Breaks, tabs, blanks and other letters are in a text that is one record nevertheless, and so is
a drive in the place of a host. -/
theorem encode_alone_iff_tangled :
    (∃ l, Locator.parseBy .ascii
        " hTTp://uSer:p w@ExAmple.COM:80/a/../b\tc d?q=ä\n\r#f g\r\n " = .ok l ∧
      OneLine (encode l) ∧ parse (encode l) = .ok [l]) ∧
      ∃ l, Locator.parseBy .ascii "File:\\\\c|\t\\..\\ä" = .ok l ∧
        OneLine (encode l) ∧ parse (encode l) = .ok [l] := by
  have alone {s : String} {l : Locator} (read : Locator.parseBy .ascii s = .ok l)
      (settled : l.Settled) : OneLine (encode l) ∧ parse (encode l) = .ok [l] := by
    obtain ⟨line, l', back, same, -⟩ := encode_alone_iff .ascii s read
    rw [same.mpr settled] at back
    exact ⟨line, back⟩
  constructor
  · let l : Locator := {
      scheme := "http".toList
      authority := some ⟨"uSer".toList, some "p%20w".toList, .name "example.com".toList, none⟩
      path := .rooted ["bc%20d".toList]
      query := some "q=%C3%A4".toList
      fragment := some "f%20g".toList }
    have read : Locator.parseBy .ascii
        " hTTp://uSer:p w@ExAmple.COM:80/a/../b\tc d?q=ä\n\r#f g\r\n " = .ok l := by
      decide +kernel
    exact ⟨l, read, alone read fun file => absurd file (by decide)⟩
  · let l : Locator := {
      scheme := "file".toList
      authority := some ⟨[], none, .name [], none⟩
      path := .rooted ["c:".toList, "%C3%A4".toList]
      query := none
      fragment := none }
    have read : Locator.parseBy .ascii "File:\\\\c|\t\\..\\ä" = .ok l := by
      decide +kernel
    have settled : l.Settled := by
      rintro - _ _ ⟨⟩ ⟨⟩
      exact ⟨by unfold Locator.Undotted; decide, .inl rfl⟩
    exact ⟨l, read, alone read settled⟩

/-- A host that is dropped only when the text is read again. -/
theorem not_encode_alone :
    ∃ l l', Locator.parse "file://h//C|/x" = .ok l ∧ encode l = "file://h/C|/x\n" ∧
      parse (encode l) = .ok [l'] ∧ l'.text = "file:///C:/x" := by
  refine ⟨⟨"file".toList, some ⟨[], none, .name "h".toList, none⟩,
    .rooted ["C|".toList, "x".toList], none, none⟩, ⟨"file".toList, some ⟨[], none, .name [], none⟩,
    .rooted ["C:".toList, "x".toList], none, none⟩, ?_⟩
  decide +kernel

end Record

end InDoubt

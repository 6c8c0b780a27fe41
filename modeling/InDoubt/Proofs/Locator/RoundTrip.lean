import InDoubt.Proofs.Locator.Hierarchies

/-!
Locators read back. What is read has a lowercase scheme, an authority and a path that the scheme
allows together, nothing in its query or fragment that would be encoded, and a visible character at
its end (`Plain`). The text of such a locator is read, and as the locator itself exactly if the
locator is `Settled`. Only locators of the file scheme need not be: for some a drive takes the place
of the host, or a dot disappears, not before they are read a second time.
-/

namespace InDoubt.Locator

open Host (NameChar HostChar)

variable {idna : Idna} {kind : SchemeKind} {s t text after : List Char} {c : Char}
  {scheme : List Char} {authority : Option Authority} {path : Path}
  {query fragment : Option (List Char)} {l : Locator}

/-- A character that is neither a blank nor a control. -/
def Visible (c : Char) : Prop := 0x20 < c.toNat

instance (c : Char) : Decidable (Visible c) := inferInstanceAs (Decidable (_ < _))

theorem visible_of_escape (h : Escape c) : Visible c := by
  rcases h with rfl | ⟨n, lt, rfl⟩
  · decide
  · have all : ∀ n < 16, Visible (Hex.digit n) := by decide
    exact all n lt

theorem visible_of_hostChar (h : HostChar c) : Visible c := by
  rcases h with name | mark
  · exact name.1
  · simp only [List.mem_cons, List.not_mem_nil, or_false] at mark
    rcases mark with rfl | rfl | rfl <;> decide

/-! Schemes. -/

/-- A scheme in lowercase. -/
structure Scheme (scheme : List Char) : Prop where
  letter : ∃ c rest, scheme = c :: rest ∧ c.isAlpha = true
  each : ∀ c ∈ scheme, isSchemeChar c = true ∧ c.toLower = c

theorem ascii_of_isSchemeChar (h : isSchemeChar c = true) : c.toNat < 128 := by
  simp only [isSchemeChar, Bool.or_eq_true, decide_eq_true_eq] at h
  rcases h with ((alphanum | rfl) | rfl) | rfl
  · exact ascii_of_isAlphanum alphanum
  all_goals decide

theorem visible_of_isSchemeChar (h : isSchemeChar c = true) : Visible c :=
  ascii_cases (P := fun c => isSchemeChar c = true → Visible c) (ascii_of_isSchemeChar h)
    (by decide +kernel) h

theorem toLower_schemeChar (h : isSchemeChar c = true) :
    isSchemeChar c.toLower = true ∧ c.toLower.toLower = c.toLower :=
  ascii_cases (P := fun c => isSchemeChar c = true → isSchemeChar c.toLower = true ∧
    c.toLower.toLower = c.toLower) (ascii_of_isSchemeChar h) (by decide +kernel) h

theorem toLower_alpha (h : c.isAlpha = true) : c.toLower.isAlpha = true := by
  have ascii := ascii_of_isAlphanum (c := c) (by simp [Char.isAlphanum, h])
  exact ascii_cases (P := fun c => c.isAlpha = true → c.toLower.isAlpha = true) ascii
    (by decide +kernel) h

theorem isBreak_of_visible (h : Visible c) : isBreak c = false :=
  isBreak_of_lt (Nat.le_of_lt h)

theorem scheme_of_splitScheme (e : splitScheme s = some (scheme, t)) :
    Scheme scheme ∧ (':' :: t) <:+ s := by
  unfold splitScheme at e
  split at e
  · rename_i first more mark rest front back
    split at e
    · rename_i allowed
      obtain ⟨alpha, each⟩ := Bool.and_eq_true_iff.mp allowed
      cases e
      have colon : mark = ':' := by
        have stops := List.head?_dropWhile_not (fun c : Char => decide (c ≠ ':')) s
        rw [back] at stops
        simpa using stops
      refine ⟨⟨⟨_, _, rfl, toLower_alpha alpha⟩, fun c mem => ?_⟩, ?_⟩
      · obtain ⟨d, old, rfl⟩ := List.mem_map.mp mem
        rcases List.mem_cons.mp old with rfl | old
        · exact toLower_schemeChar (by simp [isSchemeChar, Char.isAlphanum, alpha])
        · exact toLower_schemeChar (List.all_eq_true.mp each d old)
      · rw [← colon, ← back]
        exact List.dropWhile_suffix _
    · cases e
  · cases e

theorem splitScheme_append (h : Scheme scheme) (t : List Char) :
    splitScheme (scheme ++ ':' :: t) = some (scheme, t) := by
  have inside : ∀ c ∈ scheme, decide (c ≠ ':') = true := by
    intro c mem
    refine decide_eq_true fun e => ?_
    exact absurd (e ▸ (h.each c mem).1) (by decide)
  have stops : StopsAt (fun c => decide (c ≠ ':')) (':' :: t) := by
    rintro c ⟨⟩
    rfl
  have free : withoutBreaks scheme = scheme := withoutBreaks_of_free fun c mem =>
    isBreak_of_visible (visible_of_isSchemeChar (h.each c mem).1)
  have lower : scheme.map Char.toLower = scheme :=
    (List.map_congr_left fun c mem => (h.each c mem).2).trans (List.map_id scheme)
  obtain ⟨first, more, rfl, alpha⟩ := h.letter
  have allowed : (first.isAlpha && more.all isSchemeChar) = true :=
    Bool.and_eq_true_iff.mpr ⟨alpha, List.all_eq_true.mpr fun c mem =>
      (h.each c (List.mem_cons_of_mem first mem)).1⟩
  simp only [splitScheme, takeWhile_append_of_stopsAt inside stops,
    dropWhile_append_of_stopsAt inside stops, free, if_pos allowed, lower]

theorem SchemeKind.of_eq_file_iff : SchemeKind.of scheme = .file ↔ scheme = "file".toList := by
  constructor
  · intro e
    unfold SchemeKind.of at e
    split at e
    · cases e
    split at e
    · cases e
    split at e
    · cases e
    split at e
    · assumption
    · cases e
  · rintro rfl
    rfl

/-! Queries and fragments. -/

/-- What may not stand in a query. -/
def querySet (kind : SchemeKind) : EncodeSet :=
  if kind = .general then .query else .specialQuery

/-- What is written for a query and a fragment. -/
def tail (query fragment : Option (List Char)) : List Char :=
  (match query with
    | some query => '?' :: query
    | none => []) ++
  (match fragment with
    | some fragment => '#' :: fragment
    | none => [])

/-- The queries and fragments of a kind of scheme. -/
structure Tail (kind : SchemeKind) (query fragment : Option (List Char)) : Prop where
  query : ∀ q ∈ query, Clean (querySet kind) q
  fragment : ∀ f ∈ fragment, Clean .fragment f

theorem querySet_eq (kind : SchemeKind) :
    (if kind = .general then EncodeSet.query else EncodeSet.specialQuery) = querySet kind :=
  rfl

theorem plain_querySet (kind : SchemeKind) : (querySet kind).Plain := by
  unfold querySet
  split <;> decide

theorem query_of_querySet (h : querySet kind c = false) : EncodeSet.query c = false := by
  unfold querySet at h
  split at h
  · exact h
  · simp only [EncodeSet.specialQuery, Bool.or_eq_false_iff] at h
    exact h.1

theorem visible_of_query (h : EncodeSet.query c = false) : Visible c := by
  simp only [EncodeSet.query, EncodeSet.controls, Bool.or_eq_false_iff, decide_eq_false_iff_not,
    List.mem_cons, not_or] at h
  have space : c.toNat ≠ 0x20 := fun e => h.2.1 (Char.toNat_inj.mp e)
  unfold Visible
  omega

theorem visible_of_fragment (h : EncodeSet.fragment c = false) : Visible c := by
  simp only [EncodeSet.fragment, EncodeSet.controls, Bool.or_eq_false_iff, decide_eq_false_iff_not,
    List.mem_cons, not_or] at h
  have space : c.toNat ≠ 0x20 := fun e => h.2.1 (Char.toNat_inj.mp e)
  unfold Visible
  omega

theorem tail_of_queryAndFragment (e : queryAndFragment kind s = (query, fragment)) :
    Tail kind query fragment := by
  have encoded (s : List Char) : Clean (querySet kind) (percentEncode (querySet kind) s) :=
    clean_percentEncode (plain_querySet kind) s
  have encoded' (s : List Char) : Clean .fragment (percentEncode .fragment s) :=
    clean_percentEncode (by decide) s
  simp only [queryAndFragment, querySet_eq] at e
  split at e
  · split at e
    · cases e
      exact ⟨fun q mem => Option.some.inj mem ▸ encoded _,
        fun f mem => Option.some.inj mem ▸ encoded' _⟩
    · cases e
      exact ⟨fun q mem => Option.some.inj mem ▸ encoded _, nofun⟩
  · cases e
    exact ⟨nofun, fun f mem => Option.some.inj mem ▸ encoded' _⟩
  · cases e
    exact ⟨nofun, nofun⟩

namespace Tail

variable (h : Tail kind query fragment)
include h

theorem queryHere : QueryHere (tail query fragment) := by
  intro c mem
  cases query with
  | some q =>
      obtain rfl : '?' = c := Option.some.inj mem
      rfl
  | none =>
      cases fragment with
      | some f =>
          obtain rfl : '#' = c := Option.some.inj mem
          rfl
      | none => cases mem

theorem visible (mem : c ∈ tail query fragment) : Visible c := by
  rcases List.mem_append.mp mem with mem | mem
  · cases query with
    | none => cases mem
    | some q =>
        rcases List.mem_cons.mp mem with rfl | mem
        · decide
        · exact visible_of_query (query_of_querySet (h.query q rfl c mem))
  · cases fragment with
    | none => cases mem
    | some f =>
        rcases List.mem_cons.mp mem with rfl | mem
        · decide
        · exact visible_of_fragment (h.fragment f rfl c mem)

theorem queryAndFragment_tail :
    queryAndFragment kind (tail query fragment) = (query, fragment) := by
  have written (f : List Char) (mem : f ∈ fragment) : percentEncode .fragment f = f :=
    percentEncode_of_clean (h.fragment f mem)
  simp only [queryAndFragment, querySet_eq]
  cases query with
  | none =>
      cases fragment with
      | none => rfl
      | some f => simp [tail, written f rfl]
  | some q =>
      have inside : ∀ c ∈ q, decide (c ≠ '#') = true := by
        intro c mem
        have free := query_of_querySet (h.query q rfl c mem)
        simp only [EncodeSet.query, Bool.or_eq_false_iff, decide_eq_false_iff_not, List.mem_cons,
          List.not_mem_nil, or_false, not_or] at free
        exact decide_eq_true free.2.2.2.1
      have stops : StopsAt (fun c => decide (c ≠ '#')) (tail none fragment) := by
        intro c mem
        cases fragment with
        | none => cases mem
        | some f =>
            obtain rfl : '#' = c := Option.some.inj mem
            rfl
      have split : tail (some q) fragment = '?' :: (q ++ tail none fragment) := rfl
      simp only [split, takeWhile_append_of_stopsAt inside stops,
        dropWhile_append_of_stopsAt inside stops, percentEncode_of_clean (h.query q rfl)]
      cases fragment with
      | none => rfl
      | some f => simp [tail, written f rfl]

end Tail

/-! The whole text. -/

theorem visible_of_path (h : EncodeSet.path c = false) : Visible c := by
  simp only [EncodeSet.path, Bool.or_eq_false_iff] at h
  exact visible_of_fragment h.1

theorem Path.After.visible (h : path.After kind) (mem : c ∈ path.toChars) : Visible c := by
  obtain ⟨-, -, e⟩ | ⟨segments, -, each, e⟩ := h.toChars_eq
  · rw [e] at mem
    cases mem
  · rw [e] at mem
    rcases List.mem_cons.mp mem with rfl | mem
    · decide
    · rcases each.mem_joined mem with rfl | clean
      · decide
      · exact visible_of_path clean

/-- Only in a path without structure there may be blanks. -/
theorem Reads.visible (h : Reads idna kind authority path)
    (mem : c ∈ hierarchyText authority path) :
    Visible c ∨ path = .rootless (hierarchyText authority path) ∧ EncodeSet.controls c = false := by
  cases h with
  | @hosted _ a _ other plain after =>
      left
      simp only [hierarchyText, hierarchy, List.cons_append, List.mem_cons, List.mem_append] at mem
      rcases mem with rfl | rfl | mem | mem
      · decide
      · decide
      · rcases plain.mem_toChars mem with inner | rfl
        · exact visible_of_hostChar inner
        · decide
      · exact after.visible mem
  | @file host segments near each =>
      left
      have after : (Path.rooted segments).After .file := .inr each
      simp only [hierarchyText, hierarchy, Authority.toChars, Authority.credentials, if_true,
        List.nil_append, List.append_nil, List.cons_append, List.mem_cons, List.mem_append] at mem
      rcases mem with rfl | rfl | mem | mem
      · decide
      · decide
      · exact visible_of_hostChar (near.written.mem_toChars mem)
      · exact after.visible mem
  | @rooted segments each =>
      left
      have after : (Path.rooted segments).After .general := .inr each
      simp only [hierarchyText, hierarchy] at mem
      split at mem
      · rcases List.mem_cons.mp mem with rfl | mem
        · decide
        rcases List.mem_cons.mp mem with rfl | mem
        · decide
        · exact after.visible mem
      · exact after.visible mem
  | @rootless text clean whole unrooted => exact .inr ⟨rfl, clean c mem⟩

/-- What is known of every locator that is read. -/
structure Plain (idna : Idna) (l : Locator) : Prop where
  scheme : Scheme l.scheme
  hierarchy : Reads idna (SchemeKind.of l.scheme) l.authority l.path
  tail : Tail (SchemeKind.of l.scheme) l.query l.fragment
  ended : ∀ text, l.path = .rootless text → l.query = none → l.fragment = none →
    ∀ c ∈ text.getLast?, Visible c

theorem toChars_eq (l : Locator) : l.toChars =
    l.scheme ++ ':' :: (hierarchyText l.authority l.path ++ tail l.query l.fragment) := by
  obtain ⟨scheme, authority, path, query, fragment⟩ := l
  have same : hierarchy ⟨scheme, authority, path, query, fragment⟩ =
      hierarchyText authority path := rfl
  cases query <;> cases fragment <;> simp [toChars, tail, same]

/-! Reading. -/

theorem visible_trimmed (s : List Char) : ∀ c ∈ (trimmed s).getLast?, Visible c := by
  intro c mem
  rw [trimmed, List.getLast?_reverse] at mem
  have stops := List.head?_dropWhile_not (fun c : Char => decide (c.toNat ≤ 0x20))
    (s.dropWhile fun c => decide (c.toNat ≤ 0x20)).reverse
  rw [Option.mem_def.mp mem] at stops
  simpa [Visible] using stops

theorem visible_withoutBreaks (h : ∀ c ∈ s.getLast?, Visible c) :
    ∀ c ∈ (withoutBreaks s).getLast?, Visible c := by
  rcases List.eq_nil_or_concat s with rfl | ⟨front, last, rfl⟩
  · exact nofun
  · rw [List.concat_eq_append] at h ⊢
    have visible : Visible last := h last (by simp)
    have kept : withoutBreaks (front ++ [last]) = withoutBreaks front ++ [last] := by
      simp [withoutBreaks, isBreak_of_visible visible]
    rw [kept]
    intro c mem
    obtain rfl : last = c := by simpa using mem
    exact visible

theorem eq_nil_of_queryAndFragment (e : queryAndFragment kind s = (none, none)) : s = [] := by
  simp only [queryAndFragment] at e
  split at e
  · split at e <;> simp at e
  · simp at e
  · rfl

/-- A path without structure that nothing follows is all the text. -/
theorem rootless_of_hierarchyOf
    (e : hierarchyOf idna kind s = .ok (authority, .rootless text, [])) :
    text = percentEncode .controls (withoutBreaks s) := by
  cases (reads_hierarchyOf e).1 with
  | hosted _ _ after _ => exact after.elim
  | rootless =>
      simp only [hierarchyOf, generalHierarchy] at e
      split at e
      · obtain ⟨⟨a, rest⟩, -, e⟩ := bind_eq_ok_iff.mp e
        have rooted :=
          (Path.after_afterAuthority .general (rest.takeWhile (!isQueryOrFragment ·))).1
        simp only [withPath, pure, Except.pure, Except.ok.injEq, Prod.mk.injEq] at e
        rw [e.2.1] at rooted
        exact rooted.elim
      · simp at e
      · simp only [Except.ok.injEq, Prod.mk.injEq, Path.rootless.injEq] at e
        obtain ⟨-, rfl, rest⟩ := e
        have whole := List.takeWhile_append_dropWhile (p := fun c => !isQueryOrFragment c)
          (l := withoutBreaks s)
        rw [rest, List.append_nil] at whole
        rw [whole]

theorem plain_of_parseCharsBy (e : parseCharsBy idna s = .ok l) : l.Plain idna := by
  unfold parseCharsBy at e
  split at e
  · cases e
  · rename_i scheme rest split
    obtain ⟨lower, suffix⟩ := scheme_of_splitScheme split
    obtain ⟨⟨authority, path, after⟩, read, e⟩ := bind_eq_ok_iff.mp e
    rcases trail : queryAndFragment (SchemeKind.of scheme) after with ⟨query, fragment⟩
    simp only [trail] at e
    cases e
    refine ⟨lower, (reads_hierarchyOf read).1, tail_of_queryAndFragment trail, ?_⟩
    rintro text rfl rfl rfl c mem
    rw [eq_nil_of_queryAndFragment trail] at read
    rw [rootless_of_hierarchyOf read] at mem
    rcases getLast?_percentEncode mem with last | escape
    · obtain ⟨front, e⟩ := suffix
      refine visible_withoutBreaks (fun d mem' => visible_trimmed s d ?_) c last
      rw [← e, ← List.singleton_append]
      exact mem_getLast?_append_right (mem_getLast?_append_right mem')
    · exact visible_of_escape escape

/-! Reading back. -/

/-- There are blanks in a path without structure only, and controls nowhere. -/
theorem Plain.mem_toChars (h : l.Plain idna) (mem : c ∈ l.toChars) : 0x20 ≤ c.toNat := by
  have of_visible (visible : Visible c) : 0x20 ≤ c.toNat := Nat.le_of_lt visible
  rw [toChars_eq] at mem
  rcases List.mem_append.mp mem with mem | mem
  · exact of_visible (visible_of_isSchemeChar (h.scheme.each c mem).1)
  rcases List.mem_cons.mp mem with rfl | mem
  · decide
  rcases List.mem_append.mp mem with mem | mem
  · rcases h.hierarchy.visible mem with visible | ⟨-, free⟩
    · exact of_visible visible
    · simp only [EncodeSet.controls, Bool.or_eq_false_iff, decide_eq_false_iff_not] at free
      exact Nat.le_of_not_lt free.1
  · exact of_visible (h.tail.visible mem)

theorem eq_none_of_tail (e : tail query fragment = []) : query = none ∧ fragment = none := by
  cases query <;> cases fragment <;> simp [tail] at e ⊢

theorem Plain.visible (h : l.Plain idna) : ∀ c ∈ l.toChars.getLast?, Visible c := by
  intro c mem
  rw [toChars_eq, ← List.singleton_append] at mem
  rcases mem_getLast?_append mem with mem | ⟨empty, -⟩
  · rcases mem_getLast?_append mem with mem | ⟨-, mem⟩
    · rcases mem_getLast?_append mem with mem | ⟨empty, mem⟩
      · exact h.tail.visible (List.mem_of_mem_getLast? mem)
      · rcases h.hierarchy.visible (List.mem_of_mem_getLast? mem) with visible | ⟨rootless, -⟩
        · exact visible
        · obtain ⟨query, fragment⟩ := eq_none_of_tail empty
          exact h.ended _ rootless query fragment c mem
    · obtain rfl : ':' = c := by simpa using mem
      decide
  · simp at empty

theorem dropWhile_of_visible (h : ∀ c ∈ s.head?, Visible c) :
    s.dropWhile (fun c => decide (c.toNat ≤ 0x20)) = s := by
  refine dropWhile_append_of_stopsAt (s := []) nofun ?_
  intro c mem
  exact decide_eq_false (Nat.not_le.mpr (h c mem))

theorem Plain.head?_toChars (h : l.Plain idna) : ∃ c ∈ l.toChars.head?, c.isAlpha = true := by
  obtain ⟨c, rest, e, alpha⟩ := h.scheme.letter
  exact ⟨c, by simp [toChars_eq, e], alpha⟩

theorem Plain.trimmed_toChars (h : l.Plain idna) : trimmed l.toChars = l.toChars := by
  have first : ∀ c ∈ l.toChars.head?, Visible c := by
    intro c mem
    obtain ⟨d, mem', alpha⟩ := h.head?_toChars
    obtain rfl : c = d := Option.some.inj (mem.symm.trans mem')
    exact visible_of_isSchemeChar (by simp [isSchemeChar, Char.isAlphanum, alpha])
  have last : ∀ c ∈ l.toChars.reverse.head?, Visible c := by
    rw [List.head?_reverse]
    exact h.visible
  simp only [trimmed, dropWhile_of_visible first, dropWhile_of_visible last, List.reverse_reverse]

/-- A locator that is read back from its text. -/
def Settled (l : Locator) : Prop := l.scheme = "file".toList → Unmoved l.authority l.path

/-- The text of what was read is read, and as the same exactly if that is settled. Otherwise another
text is written for it. -/
theorem Plain.parseCharsBy_toChars (h : l.Plain idna) :
    ∃ l', parseCharsBy idna l.toChars = .ok l' ∧ (l' = l ↔ l.Settled) ∧
      (l'.toChars = l.toChars ↔ l' = l) := by
  let after := Locator.tail l.query l.fragment
  have free : ∀ c ∈ hierarchyText l.authority l.path ++ after, isBreak c = false := by
    intro c mem
    refine isBreak_of_lt (h.mem_toChars ?_)
    rw [toChars_eq]
    exact List.mem_append_right _ (List.mem_cons_of_mem _ mem)
  have split : splitScheme (trimmed l.toChars) =
      some (l.scheme, hierarchyText l.authority l.path ++ after) := by
    rw [h.trimmed_toChars, toChars_eq, splitScheme_append h.scheme]
  obtain ⟨authority, path, read, same, other⟩ : ∃ authority path,
      hierarchyOf idna (SchemeKind.of l.scheme) (hierarchyText l.authority l.path ++ after) =
          .ok (authority, path, after) ∧
        (authority = l.authority ∧ path = l.path ↔ l.Settled) ∧
        (hierarchyText authority path = hierarchyText l.authority l.path →
          authority = l.authority ∧ path = l.path) := by
    by_cases file : SchemeKind.of l.scheme = .file
    · obtain ⟨authority, path, read, same⟩ :=
        hierarchyOf_file (file ▸ h.hierarchy) h.tail.queryHere free
      refine ⟨authority, path, file ▸ read, same.trans ?_, ?_⟩
      · simp [Settled, SchemeKind.of_eq_file_iff.mp file]
      · exact hierarchyText_injective (file ▸ h.hierarchy) (reads_hierarchyOf read).1
    · refine ⟨_, _, hierarchyOf_text h.hierarchy file h.tail.queryHere free, ?_,
        fun _ => ⟨rfl, rfl⟩⟩
      exact ⟨fun _ e => absurd (SchemeKind.of_eq_file_iff.mpr e) file, fun _ => ⟨rfl, rfl⟩⟩
  have equal : (⟨l.scheme, authority, path, l.query, l.fragment⟩ : Locator) = l ↔
      authority = l.authority ∧ path = l.path := by
    obtain ⟨scheme, authority', path', query, fragment⟩ := l
    simp
  refine ⟨⟨l.scheme, authority, path, l.query, l.fragment⟩, ?_, equal.trans same, ?_⟩
  · rw [parseCharsBy, split]
    simp only [read, bind, Except.bind, after, h.tail.queryAndFragment_tail]
    rfl
  · refine ⟨fun e => equal.mpr (other ?_), fun e => by rw [e]⟩
    rw [toChars_eq, toChars_eq] at e
    exact List.append_cancel_right (List.cons.inj (List.append_cancel_left e)).2

/-! The conversion of names in ASCII. -/

/-- The locator has been read from some text. -/
def Parsed (l : Locator) : Prop := ∃ s, parse s = .ok l

/-- The text of the locator reads as the locator. -/
def Faithful (l : Locator) : Prop := parse l.text = .ok l

instance (l : Locator) : Decidable l.Faithful := inferInstanceAs (Decidable (_ = _))

/-- The locator that the text of a locator reads as. -/
def reread (l : Locator) : Locator :=
  match parse l.text with
  | .ok l' => l'
  | .error _ => l

theorem Parsed.plain (h : l.Parsed) : l.Plain .ascii := by
  obtain ⟨s, e⟩ := h
  exact plain_of_parseCharsBy e

theorem Parsed.parse_text (h : l.Parsed) : parse l.text = .ok l.reread := by
  obtain ⟨l', read, -⟩ := h.plain.parseCharsBy_toChars
  have back : parse l.text = .ok l' := by
    rwa [parse, parseBy, text, String.toList_ofList]
  rw [reread, back]

theorem Faithful.parsed (h : l.Faithful) : l.Parsed := ⟨l.text, h⟩

theorem Faithful.reread_eq (h : l.Faithful) : l.reread = l := by
  rw [reread, show parse l.text = .ok l from h]

end InDoubt.Locator

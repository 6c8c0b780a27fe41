import InDoubt.Proofs.Appending
import InDoubt.Proofs.Gleaning

/-!
Records that have been cut short. If a process crashes while it writes, its file holds the start of
what was to be written: complete records, as many as there are line breaks, and possibly the start
of the next one (`Record.Torn`). The complete records are read in any case, unless what follows them
is no locator, which is then what is reported; what follows them may be a locator that has never
been recorded, since nothing tells a record from the start of a longer one. A scan of the file goes
by what is read (`Record.torn_append`).
-/

namespace InDoubt

namespace Text

variable {s t : List Char}

theorem linesOf_of_single (nonempty : s ≠ []) (single : '\n' ∉ s) : linesOf s = [s] := by
  induction s with
  | nil => exact absurd rfl nonempty
  | cons c s ih =>
      simp only [List.mem_cons, not_or] at single
      obtain ⟨apart, single⟩ := single
      cases s with
      | nil =>
          rw [linesOf]
          · rfl
          · exact fun e => apart e.symm
          · intro rest _ feed
            cases feed
      | cons d s =>
          refine linesOf_cons (fun e => apart e.symm) (fun _ _ feed => ?_) (ih (by simp) single)
          obtain ⟨rfl, -⟩ := List.cons.inj feed
          exact single List.mem_cons_self

end Text

namespace Record

variable {ls : List Locator} {l : Locator} {s : List Char} {p : String}

/-- The number of records that a content has complete. -/
def complete (p : String) : Nat := p.toList.count '\n'

/-- What follows the last line break. -/
def remainder (p : String) : String :=
  String.ofList (p.toList.reverse.takeWhile (· ≠ '\n')).reverse

/-- What is read of a torn content, by the records that are complete, the one that has been cut, and
what is left of it. -/
inductive Salvages (kept : List Locator) (cut? : Option Locator) (rest : String) :
    Except Malformed (List Locator) → Prop
  | whole (empty : rest = "") : Salvages kept cut? rest (.ok kept)
  /-- What is left is a locator, the one that has been cut if only the line break is missing. -/
  | more {l : Locator} (nonempty : rest ≠ "") (read : Locator.parse rest = .ok l)
      (own : ∀ cut ∈ cut?, rest = cut.text → l = cut) : Salvages kept cut? rest (.ok (kept ++ [l]))
  | bad {cause : Locator.ParseError} (nonempty : rest ≠ "")
      (read : Locator.parse rest = .error cause) (short : ∀ cut ∈ cut?, rest ≠ cut.text) :
      Salvages kept cut? rest (.error ⟨rest, cause⟩)

/-- The start of a content in which locators have been recorded, and what is read of it. -/
structure Torn (ls : List Locator) (p : String) : Prop where
  bound : complete p ≤ ls.length
  whole : p = contentOf (ls.take (complete p)) ++ remainder p
  /-- Anything after the complete records is the start of the next one. -/
  next : remainder p ≠ "" →
    ∃ l, ls[complete p]? = some l ∧ (remainder p).toList <+: l.toChars
  salvages : Salvages (ls.take (complete p)) ls[complete p]? (remainder p) (parse p)

theorem toList_contentOf_cons (l : Locator) (ls : List Locator) :
    (contentOf (l :: ls)).toList = l.toChars ++ '\n' :: (contentOf ls).toList := by
  simp [contentOf, encode, Locator.text]

/-- The start of a content is complete records and the start of another. -/
theorem exists_of_prefix (start : s <+: (contentOf ls).toList) :
    ∃ k rest, k ≤ ls.length ∧ s = (contentOf (ls.take k)).toList ++ rest ∧
      (rest = [] ∨ ∃ l, ls[k]? = some l ∧ rest <+: l.toChars) := by
  induction ls generalizing s with
  | nil =>
      obtain rfl : s = [] := List.prefix_nil.mp start
      exact ⟨0, [], Nat.le_refl _, rfl, .inl rfl⟩
  | cons l ls ih =>
      rw [toList_contentOf_cons] at start
      obtain short | ⟨t, rfl, later⟩ : s <+: l.toChars ∨
          ∃ t, s = l.toChars ++ '\n' :: t ∧ t <+: (contentOf ls).toList := by
        obtain ⟨more, e⟩ := start
        obtain ⟨missing, own, -⟩ | ⟨t, rfl, others⟩ := List.append_eq_append_iff.mp e
        · exact .inl ⟨missing, own.symm⟩
        · obtain rfl | ⟨t, rfl, later⟩ := List.prefix_cons_iff.mp ⟨more, others.symm⟩
          · exact .inl ⟨[], by simp⟩
          · exact .inr ⟨t, rfl, later⟩
      · exact ⟨0, s, Nat.zero_le _, rfl, .inr ⟨l, rfl, short⟩⟩
      · obtain ⟨k, rest, le, rfl, tail⟩ := ih later
        refine ⟨k + 1, rest, Nat.succ_le_succ le, ?_, tail⟩
        rw [List.take_succ_cons, toList_contentOf_cons, List.append_assoc, List.cons_append]

theorem feed_not_mem (faithful : l.Faithful) : '\n' ∉ l.toChars :=
  not_mem_of_plain faithful.parsed.plain (by decide)

theorem count_contentOf (faithful : ∀ l ∈ ls, l.Faithful) :
    (contentOf ls).toList.count '\n' = ls.length := by
  induction ls with
  | nil => rfl
  | cons l ls ih =>
      have own := List.count_eq_zero_of_not_mem (feed_not_mem (faithful l List.mem_cons_self))
      have others := ih fun l mem => faithful l (List.mem_cons_of_mem _ mem)
      rw [toList_contentOf_cons, List.count_append, List.count_cons_self, own, others,
        List.length_cons, Nat.zero_add]

theorem ended_contentOf (ls : List Locator) : Ended '\n' (contentOf ls).toList := by
  rcases List.eq_nil_or_concat ls with rfl | ⟨init, l, rfl⟩
  · exact .inl rfl
  · rw [List.concat_eq_append, contentOf_concat]
    exact .inr (by simp [encode])

/-- A line that is not blank is read on its own. -/
theorem parse_of_single (single : '\n' ∉ p.toList) (filled : isBlankLine p.toList = false) :
    parse p = (parseLine p.toList).map ([·]) := by
  have text : p.toList ≠ [] := by
    intro empty
    rw [empty] at filled
    cases filled
  simp only [parse, parseBy, parseLine, Text.linesOf_of_single text single, filled,
    List.filter_cons, Bool.not_false, if_true, List.filter_nil, List.mapM_cons, List.mapM_nil]
  cases parseLineBy .ascii p.toList <;> rfl

/-- The start of a content is told by its line breaks. -/
theorem split_torn (faithful : ∀ l ∈ ls, l.Faithful)
    (start : p.toList <+: (contentOf ls).toList) :
    complete p ≤ ls.length ∧ p = contentOf (ls.take (complete p)) ++ remainder p ∧
      (remainder p ≠ "" → ∃ l, ls[complete p]? = some l ∧ (remainder p).toList <+: l.toChars) := by
  obtain ⟨k, rest, le, split, tail⟩ := exists_of_prefix start
  have single : '\n' ∉ rest := by
    intro mem
    rcases tail with rfl | ⟨l, own, short⟩
    · cases mem
    · exact feed_not_mem (faithful l (List.mem_of_getElem? own)) (short.mem mem)
  have number : complete p = k := by
    have first : ∀ l ∈ ls.take k, l.Faithful := fun l mem => faithful l (List.mem_of_mem_take mem)
    rw [complete, split, List.count_append, count_contentOf first,
      List.count_eq_zero_of_not_mem single, List.length_take, Nat.min_eq_left le, Nat.add_zero]
  have last : remainder p = String.ofList rest := by
    have inside : ∀ c ∈ rest.reverse, decide (c ≠ '\n') = true := by
      intro c mem
      refine decide_eq_true ?_
      rintro rfl
      exact single (List.mem_reverse.mp mem)
    have stops : StopsAt (fun c => decide (c ≠ '\n')) (contentOf (ls.take k)).toList.reverse := by
      intro c mem
      rw [List.head?_reverse] at mem
      rcases ended_contentOf (ls.take k) with empty | feed
      · rw [empty] at mem
        cases mem
      · obtain rfl : '\n' = c := Option.some.inj (feed.symm.trans mem)
        rfl
    rw [remainder, split, List.reverse_append, takeWhile_append_of_stopsAt inside stops,
      List.reverse_reverse]
  rw [number, last]
  refine ⟨le, ?_, fun nonempty => ?_⟩
  · rw [← String.toList_inj, split]
    simp
  · rcases tail with rfl | ⟨l, own, short⟩
    · exact absurd rfl nonempty
    · exact ⟨l, own, by simpa using short⟩

/-- What is left of a record is a line that is not blank. -/
theorem filled_of_prefix (faithful : l.Faithful) (nonempty : s ≠ []) (short : s <+: l.toChars) :
    isBlankLine s = false := by
  obtain ⟨c, first, alpha⟩ := faithful.parsed.plain.head?_toChars
  obtain ⟨d, s, rfl⟩ := List.exists_cons_of_ne_nil nonempty
  obtain ⟨more, e⟩ := short
  rw [← e] at first
  exact not_isBlankLine_of_head? first alpha

/-- The complete records are read, and what is left is read on its own. -/
theorem torn_of_prefix (faithful : ∀ l ∈ ls, l.Faithful)
    (start : p.toList <+: (contentOf ls).toList) : Torn ls p := by
  obtain ⟨bound, whole, next⟩ := split_torn faithful start
  have kept : parse (contentOf (ls.take (complete p))) = .ok (ls.take (complete p)) :=
    parse_contentOf_of_faithful fun l mem => faithful l (List.mem_of_mem_take mem)
  have read : parse p = (parse (remainder p)).map (ls.take (complete p) ++ ·) := by
    refine (congrArg parse whole).trans ?_
    rw [parse_append (ended_contentOf _), kept]
    cases parse (remainder p) <;> rfl
  refine ⟨bound, whole, next, ?_⟩
  rw [read]
  by_cases empty : remainder p = ""
  · have blank : parse (remainder p) = .ok [] := by
      rw [empty]
      rfl
    rw [blank, Except.map, List.append_nil]
    exact .whole empty
  · obtain ⟨cut, own, short⟩ := next empty
    have faithful' : cut.Faithful := faithful cut (List.mem_of_getElem? own)
    have filled := filled_of_prefix faithful' (mt String.toList_eq_nil_iff.mp empty) short
    rw [parse_of_single (fun mem => feed_not_mem faithful' (short.mem mem)) filled, own]
    have entire (e : remainder p = cut.text) : Locator.parse (remainder p) = .ok cut := by
      rw [e]
      exact faithful'
    cases line : parseLine (remainder p).toList with
    | ok l =>
        have read' := parseLine_eq_ok_iff.mp line
        refine .more empty read' ?_
        rintro _ ⟨⟩ e
        exact Except.ok.inj (read'.symm.trans (entire e))
    | error bad =>
        obtain ⟨cause, read', rfl⟩ := parseLine_eq_error_iff.mp line
        rw [String.ofList_toList]
        refine .bad empty read' ?_
        rintro _ ⟨⟩ e
        cases read'.symm.trans (entire e)

theorem ascii_contentOf (faithful : ∀ l ∈ ls, l.Faithful) {c : Char}
    (mem : c ∈ (contentOf ls).toList) : c.toNat < 128 := by
  induction ls with
  | nil => cases mem
  | cons l ls ih =>
      rw [toList_contentOf_cons] at mem
      rcases List.mem_append.mp mem with own | others
      · exact (faithful l List.mem_cons_self).parsed.plain.ascii own
      · rcases List.mem_cons.mp others with rfl | later
        · decide
        · exact ih (fun l mem => faithful l (List.mem_cons_of_mem _ mem)) later

/-- To cut the bytes of records is to cut their text. -/
theorem take_recordBytes (faithful : ∀ l ∈ ls, l.Faithful) (cut : Nat) :
    (FileSystem.recordBytes ls).take cut =
      Utf8.encode (String.ofList ((contentOf ls).toList.take cut)) := by
  have each : ∀ c ∈ (contentOf ls).toList, c.toNat < 128 := fun c mem =>
    ascii_contentOf faithful mem
  have whole := Utf8.encode_of_ascii each
  rw [String.ofList_toList] at whole
  rw [FileSystem.recordBytes, whole,
    Utf8.encode_of_ascii fun c mem => each c (List.mem_of_mem_take mem), List.map_take]

/-- Nothing has been written if nothing is read. -/
theorem Torn.eq_empty_iff (torn : Torn ls p) : parse p = .ok [] ↔ p = "" := by
  refine ⟨fun blank => ?_, fun empty => by rw [empty]; rfl⟩
  obtain ⟨-, whole, -, salvages⟩ := torn
  generalize ls.take (complete p) = kept at whole salvages
  rw [blank] at salvages
  generalize read : Except.ok [] = answer at salvages
  cases salvages with
  | whole empty =>
      obtain rfl := Except.ok.inj read
      rw [whole, empty]
      rfl
  | more =>
      have added := Except.ok.inj read
      simp at added
  | bad => cases read

/-- Of records that have been cut at any byte the complete ones are read, and what is left as a
locator or as the bad line. The first scan of a process goes by this, wherever it meets such a file:
it recovers the complete records and perhaps one more, drops the file if it is empty and is not
locked, or reports the line and leaves the file. -/
theorem torn_append (faithful : ∀ l ∈ ls, l.Faithful) (cut : Nat) :
    let p := String.ofList ((contentOf ls).toList.take cut)
    (FileSystem.recordBytes ls).take cut = Utf8.encode p ∧ Torn ls p ∧
      (parse p = .ok [] ↔ p = "") ∧
      ∀ changes past config node id inode,
        let w := World.after past (.ofFiles (FileSystem.empty.applyAll changes))
        w.files.Lists config.dir id inode →
        w.files.content inode = (FileSystem.recordBytes ls).take cut →
        ∃ o v, (w.openLog config node).2.scan (w.openLog config node).1 [] = (.ok o, v) ∧
          World.Gleans (w.openLog config node).1 config.dir id inode
            (parseAt (joinPath config.dir id) p) (w.openLog config node).2 o v := by
  intro p
  have bytes := take_recordBytes faithful cut
  have start : p.toList <+: (contentOf ls).toList := by
    simpa [p] using List.take_prefix cut (contentOf ls).toList
  have torn : Torn ls p := torn_of_prefix faithful start
  refine ⟨bytes, torn, torn.eq_empty_iff, ?_⟩
  intro changes past config node id inode w lists content
  have sound : w.files.Sound := ((World.Orderly.ofFiles changes).after past).sound
  have read : w.files.readRecords (joinPath config.dir id) =
      parseAt (joinPath config.dir id) p := by
    rw [FileSystem.readRecords_of_inodeAt lists.reached, content, bytes, Utf8.decode?_encode]
  have gleans := World.gleans_openLog config node sound lists
  rw [read] at gleans
  exact gleans

/-- The second of two records has been cut before its line break and the letter that ends it. What
is left of it is a locator, and is recovered as one. -/
theorem torn_append_cut :
    let short : Locator := { Locator.sample with path := .rooted [[]] }
    let p := "xa:/r\nxa:/"
    let w := World.ofFiles (FileSystem.empty.applyAll
      [.write (Utf8.encode "./xa-recovery/a") (Utf8.encode p)])
    Torn [.sample, .sample] p ∧ parse p = .ok [.sample, short] ∧
      let (q, opened) := w.openLog {} "n"
      ∃ o v, opened.scan q [] = (.ok o, v) ∧
        v.locationsUnder "a" (v.process q).inDoubt = [.sample, short] ∧
        v.files.content 0 = Utf8.encode p := by
  intro short p w
  have text : String.ofList ((contentOf [.sample, .sample]).toList.take 10) = p := by
    decide +kernel
  have faithful : ∀ l ∈ [Locator.sample, .sample], l.Faithful := by decide +kernel
  obtain ⟨bytes, torn, -, scans⟩ := torn_append faithful 10
  rw [text] at bytes torn scans
  have lists : w.files.Lists "./xa-recovery" "a" 0 :=
    ⟨⟨["a"], by decide +kernel⟩, by decide +kernel⟩
  obtain ⟨o, v, scanned, gleans⟩ := scans
    [.write (Utf8.encode "./xa-recovery/a") (Utf8.encode p)] [] {} "n" "a" 0 lists
    (by decide +kernel)
  have read : parse p = .ok [.sample, short] := by decide +kernel
  refine ⟨torn, read, o, v, scanned, ?_, ?_⟩
  · refine gleans.locations.trans ?_
    rw [parseAt, read]
    rfl
  · refine gleans.content.trans ?_
    decide +kernel

end Record

end InDoubt

import InDoubt.Locator.FilePath
import InDoubt.Proofs.Locator.Hosts
import InDoubt.Proofs.Locator.Paths

/-!
Paths under the file scheme read back. What is read starts with no empty segment that could be
dropped, and if there were no breaks in the text, none of its segments is a dot. The segments are
read from what is written for them if none of them is a dot and, in a path without a slash in front,
the first one is no drive (`fileSegments_joined`, `fileSegments_slash`); such a drive takes the
place of the host (`replaces_fileSegments`).
-/

namespace InDoubt.Locator

variable {kind : SchemeKind} {s segment : List Char}
  {segments stack texts rest : List (List Char)} {c : Char} {drive : Drive}

/-! Empty segments in front. -/

theorem dropLeadingEmpty_suffix (segments : List (List Char)) :
    dropLeadingEmpty segments <:+ segments := by
  fun_induction dropLeadingEmpty segments with
  | case1 segment rest ih => exact ih.trans (List.suffix_cons _ _)
  | case2 => exact List.suffix_refl _

theorem dropLeadingEmpty_ne_nil (h : segments ≠ []) : dropLeadingEmpty segments ≠ [] := by
  fun_induction dropLeadingEmpty segments with
  | case1 segment rest ih => exact ih (List.cons_ne_nil _ _)
  | case2 => exact h

theorem dropLeadingEmpty_twice (segments : List (List Char)) :
    dropLeadingEmpty (dropLeadingEmpty segments) = dropLeadingEmpty segments := by
  fun_induction dropLeadingEmpty segments with
  | case1 segment rest ih => exact ih
  | case2 segments other => rw [dropLeadingEmpty.eq_2 _ other]

/-! Breaks. -/

theorem mem_withoutBreaks : c ∈ withoutBreaks s ↔ c ∈ s ∧ isBreak c = false := by
  simp [withoutBreaks]

theorem withoutBreaks_of_free (free : ∀ c ∈ s, isBreak c = false) : withoutBreaks s = s :=
  List.filter_eq_self.mpr fun c mem => by simp [free c mem]

theorem dropWhile_isBreak_of_free (free : ∀ c ∈ s, isBreak c = false) : s.dropWhile isBreak = s :=
  dropWhile_append_of_stopsAt (s := []) nofun fun c mem => free c (List.mem_of_mem_head? mem)

theorem isBreak_of_lt (h : 0x20 ≤ c.toNat) : isBreak c = false := by
  have other (d : Char) (lt : d.toNat < 0x20) : c ≠ d := by
    rintro rfl
    omega
  simp [isBreak, other '\t' (by decide), other '\n' (by decide), other '\r' (by decide)]

theorem Segment.free (h : Segment kind segment) : ∀ c ∈ segment, isBreak c = false := by
  intro c mem
  have clean := h.clean c mem
  simp only [EncodeSet.path, EncodeSet.fragment, EncodeSet.controls, Bool.or_eq_false_iff,
    decide_eq_false_iff_not] at clean
  exact isBreak_of_lt (Nat.le_of_not_lt clean.1.1.1)

theorem segmentOf_eq (h : Segment kind segment) : segmentOf segment = segment := by
  rw [segmentOf, withoutBreaks_of_free h.free, percentEncode_of_clean h.clean]

theorem Segments.map_segmentOf (h : Segments kind segments) : segments.map segmentOf = segments :=
  (List.map_congr_left fun segment mem => segmentOf_eq (h.each segment mem)).trans
    (List.map_id segments)

theorem segment_segmentOf (h : ∀ c ∈ s, separates kind c = false) : Segment kind (segmentOf s) :=
  segment_percentEncode fun c mem => h c (mem_withoutBreaks.mp mem).1

/-! Drives. -/

/-- Whether a segment is a letter with a colon or a bar. -/
def namesDrive : List Char → Bool
  | [letter, mark] => letter.isAlpha && (mark = ':' || mark = '|')
  | _ => false

theorem Drive.of_of? (h : Drive.of? s = some drive) :
    drive.letter.isAlpha = true ∧ ∀ behind ∈ drive.behind, ∀ c ∈ behind, c ∈ s := by
  unfold Drive.of? at h
  split at h
  · cases h
  · rename_i letter marked front
    split at h
    · cases h
    · rename_i mark rest back
      have suffix : rest <:+ s := by
        have inner : mark :: rest <:+ marked := back ▸ List.dropWhile_suffix _
        have outer : letter :: marked <:+ s := front ▸ List.dropWhile_suffix _
        exact (List.suffix_cons mark rest).trans (inner.trans ((List.suffix_cons _ _).trans outer))
      split at h
      · cases h
      · rename_i alpha
        have alpha : letter.isAlpha = true := by simpa using alpha
        split at h
        · split at h
          · cases h
            exact ⟨alpha, nofun⟩
          · cases h
        · split at h
          · cases h
            refine ⟨alpha, fun behind e c mem => suffix.subset ?_⟩
            cases e
            exact (mem_withoutBreaks.mp mem).1
          · cases h

/-- Without breaks a text is a drive only as a whole. -/
theorem Drive.of?_of_free (free : ∀ c ∈ s, isBreak c = false) :
    Drive.of? s = if namesDrive s then s.head?.map (⟨·, none⟩) else none := by
  have free_tail {c : Char} {t : List Char} (e : s = c :: t) : ∀ d ∈ t, isBreak d = false :=
    fun d mem => free d (e ▸ List.mem_cons_of_mem c mem)
  rw [Drive.of?, dropWhile_isBreak_of_free free]
  cases s with
  | nil => rfl
  | cons letter marked =>
      have inner := free_tail rfl
      simp only [dropWhile_isBreak_of_free inner]
      cases marked with
      | nil => rfl
      | cons mark rest =>
          have last : ∀ d ∈ rest, isBreak d = false :=
            fun d mem => inner d (List.mem_cons_of_mem mark mem)
          simp only [withoutBreaks_of_free last]
          cases rest with
          | nil => by_cases alpha : letter.isAlpha = true <;> simp [namesDrive, alpha]
          | cons d rest => simp [namesDrive, last d List.mem_cons_self]

theorem Drive.segment_isDrive (h : drive.letter.isAlpha = true) : isDrive drive.segment = true := by
  simp [segment, isDrive, h]

theorem Drive.segment_segment (h : drive.letter.isAlpha = true) :
    Segment .file drive.segment ∧ isDot drive.segment = false ∧
      isDoubleDot drive.segment = false := by
  have plain : EncodeSet.path drive.letter = false ∧ separates .file drive.letter = false ∧
      isDot [drive.letter, ':'] = false ∧ isDoubleDot [drive.letter, ':'] = false :=
    ascii_cases (P := fun c => c.isAlpha = true → EncodeSet.path c = false ∧
      separates .file c = false ∧ isDot [c, ':'] = false ∧ isDoubleDot [c, ':'] = false)
      (ascii_of_isAlphanum (by simp [Char.isAlphanum, h])) (by decide +kernel) h
  refine ⟨⟨?_, ?_⟩, plain.2.2⟩
  · rw [segment, Clean, List.forall_mem_cons, List.forall_mem_singleton]
    exact ⟨plain.1, by decide⟩
  · rw [segment, List.forall_mem_cons, List.forall_mem_singleton]
    exact ⟨plain.2.1, by decide⟩

theorem mem_of_leadingDrive (h : leadingDrive stack texts = some (drive, rest)) :
    (∃ s ∈ texts, Drive.of? s = some drive) ∧ ∀ s ∈ rest, s ∈ texts := by
  induction texts generalizing stack with
  | nil => cases h
  | cons s more ih =>
      rw [leadingDrive] at h
      split at h
      · rename_i drive' e
        cases h
        split at e
        · exact ⟨⟨s, List.mem_cons_self, e⟩, fun _ => List.mem_cons_of_mem s⟩
        · cases e
      · obtain ⟨⟨s', mem, e⟩, inside⟩ := ih h
        exact ⟨⟨s', List.mem_cons_of_mem s mem, e⟩,
          fun t mem => List.mem_cons_of_mem s (inside t mem)⟩

/-- Behind a segment there is no drive that none is left in front of. -/
theorem leadingDrive_eq_none (filled : stack ≠ []) (undotted : Undotted (texts.map segmentOf)) :
    leadingDrive stack texts = none := by
  induction texts generalizing stack with
  | nil => rfl
  | cons s rest ih =>
      rw [List.map_cons] at undotted
      rw [leadingDrive, if_neg filled, enter_of_undotted (undotted _ List.mem_cons_self)]
      exact ih (List.cons_ne_nil _ _) fun t mem => undotted t (List.mem_cons_of_mem _ mem)

/-! Reading. -/

/-- The segments are those of a drive and of the texts behind it, or those of all texts. -/
theorem fileSegments_cases (s : List Char) :
    (∃ (drive : Drive) (rest : List (List Char)),
      (∃ t ∈ splitOn (separates .file) s, Drive.of? t = some drive) ∧
      (∀ t ∈ rest, t ∈ splitOn (separates .file) s) ∧
      fileSegments s = ((resolveDots (drive.behind.toList.map (percentEncode .path) ++
        [drive.segment]) (rest.map segmentOf)).reverse, drive.behind.isNone)) ∨
    leadingDrive [] (splitOn (separates .file) s) = none ∧ fileSegments s =
      (dropLeadingEmpty (resolveDots []
        ((splitOn (separates .file) s).map segmentOf)).reverse, false) := by
  cases found : leadingDrive [] (splitOn (separates .file) s) with
  | some first =>
      obtain ⟨drive, rest⟩ := first
      obtain ⟨named, behind⟩ := mem_of_leadingDrive found
      exact .inl ⟨drive, rest, named, behind, by simp only [fileSegments, found]⟩
  | none => exact .inr ⟨rfl, by simp only [fileSegments, found]⟩

/-- What is read is a path, and no segment in front of it could be dropped. -/
theorem segments_fileSegments (s : List Char) : Segments .file (fileSegments s).1 ∧
    dropLeadingEmpty (fileSegments s).1 = (fileSegments s).1 := by
  have text {t : List Char} (mem : t ∈ splitOn (separates .file) s) : Segment .file (segmentOf t) :=
    segment_segmentOf fun c => separates_of_mem_splitOn mem
  obtain ⟨drive, rest, ⟨t, mem, named⟩, behind, e⟩ | ⟨-, e⟩ := fileSegments_cases s
  · obtain ⟨alpha, part⟩ := Drive.of_of? named
    obtain ⟨more, bottom⟩ := exists_resolveDots_concat (Drive.segment_isDrive alpha)
      (drive.behind.toList.map (percentEncode .path)) (rest.map segmentOf)
    refine ⟨⟨by simp [e, bottom], fun segment mem' => ?_⟩, ?_⟩
    · rw [e, List.mem_reverse] at mem'
      rcases mem_resolveDots mem' with rfl | front | ⟨new, -⟩
      · exact .nil
      · rcases List.mem_append.mp front with divided | own
        · obtain ⟨b, hb, rfl⟩ := List.mem_map.mp divided
          exact segment_percentEncode fun c hc =>
            separates_of_mem_splitOn mem (part b (Option.mem_toList.mp hb) c hc)
        · rw [List.mem_singleton.mp own]
          exact (Drive.segment_segment alpha).1
      · obtain ⟨u, hu, rfl⟩ := List.mem_map.mp new
        exact text (behind u hu)
    · simp only [e, bottom, List.reverse_append, List.reverse_singleton, List.singleton_append]
      rfl
  · have pieces : (splitOn (separates .file) s).map segmentOf ≠ [] := by
      simpa using splitOn_ne_nil _ _
    rw [e]
    refine ⟨⟨dropLeadingEmpty_ne_nil (by simpa using resolveDots_ne_nil pieces),
      fun segment mem => ?_⟩, dropLeadingEmpty_twice _⟩
    rcases mem_resolveDots (List.mem_reverse.mp ((dropLeadingEmpty_suffix _).mem mem)) with
      rfl | old | ⟨new, -⟩
    · exact .nil
    · cases old
    · obtain ⟨t, ht, rfl⟩ := List.mem_map.mp new
      exact text ht

/-- Without breaks no dot is left. -/
theorem undotted_fileSegments (free : ∀ c ∈ s, isBreak c = false) :
    Undotted (fileSegments s).1 := by
  obtain ⟨drive, rest, ⟨t, mem, named⟩, -, e⟩ | ⟨-, e⟩ := fileSegments_cases s
  · have whole : drive.behind = none := by
      rw [Drive.of?_of_free fun c hc => free c (mem_of_mem_splitOn mem hc)] at named
      split at named
      · obtain ⟨letter, -, rfl⟩ := Option.map_eq_some_iff.mp named
        rfl
      · cases named
    intro segment mem'
    rw [e, List.mem_reverse, whole] at mem'
    rcases mem_resolveDots mem' with rfl | front | ⟨-, undotted⟩
    · decide
    · rw [List.mem_singleton.mp front]
      exact (Drive.segment_segment (Drive.of_of? named).1).2
    · exact undotted
  · intro segment mem
    rw [e] at mem
    rcases mem_resolveDots (List.mem_reverse.mp ((dropLeadingEmpty_suffix _).mem mem)) with
      rfl | old | ⟨-, undotted⟩
    · decide
    · cases old
    · exact undotted

/-! Reading back. -/

variable (each : Segments .file segments)
include each

/-- Nothing changes where no drive is found. -/
theorem fileSegments_of_none (tight : dropLeadingEmpty segments = segments)
    (undotted : Undotted segments) (split : splitOn (separates .file) s = segments ∨
      splitOn (separates .file) s = [] :: segments)
    (found : leadingDrive [] (splitOn (separates .file) s) = none) :
    fileSegments s = (segments, false) := by
  rcases split with split | split
  · rw [split] at found
    simp only [fileSegments, split, found, each.map_segmentOf, resolveDots_of_undotted undotted,
      List.append_nil, List.reverse_reverse, tight]
  · have undotted' : Undotted ([] :: segments) := List.forall_mem_cons.mpr ⟨by decide, undotted⟩
    have empty : segmentOf [] = [] := rfl
    obtain ⟨first, more, e⟩ := List.exists_cons_of_ne_nil each.filled
    have dropped : dropLeadingEmpty ([] :: segments) = segments := by
      rw [e, dropLeadingEmpty, ← e, tight]
    rw [split] at found
    simp only [fileSegments, split, found, List.map_cons, empty, each.map_segmentOf,
      resolveDots_of_undotted undotted', List.append_nil, List.reverse_reverse, dropped]

theorem fileSegments_joined (tight : dropLeadingEmpty segments = segments)
    (undotted : Undotted segments) (other : ∀ first ∈ segments.head?, namesDrive first = false) :
    fileSegments (joined segments) = (segments, false) := by
  refine fileSegments_of_none each tight undotted (.inl each.splitOn_joined) ?_
  rw [each.splitOn_joined]
  obtain ⟨first, more, rfl⟩ := List.exists_cons_of_ne_nil each.filled
  have segment := each.each first List.mem_cons_self
  have free : Drive.of? first = none := by
    rw [Drive.of?_of_free segment.free, if_neg (by simp [other first rfl])]
  have later : Undotted (more.map segmentOf) := by
    have same := each.map_segmentOf
    rw [List.map_cons] at same
    rw [(List.cons.inj same).2]
    exact fun s mem => undotted s (List.mem_cons_of_mem first mem)
  rw [leadingDrive, if_pos rfl, free, segmentOf_eq segment,
    enter_of_undotted (undotted first List.mem_cons_self)]
  exact leadingDrive_eq_none (List.cons_ne_nil _ _) later

theorem fileSegments_slash (tight : dropLeadingEmpty segments = segments)
    (undotted : Undotted segments) : fileSegments ('/' :: joined segments) = (segments, false) := by
  have slash : separates .file '/' = true := rfl
  have split : splitOn (separates .file) ('/' :: joined segments) = [] :: segments := by
    rw [← List.nil_append ('/' :: _), splitOn_append_cons slash, each.splitOn_joined]
    rfl
  have first : leadingDrive [] ([] :: segments) = leadingDrive [[]] segments := rfl
  refine fileSegments_of_none each tight undotted (.inr split) ?_
  rw [split, first]
  exact leadingDrive_eq_none (List.cons_ne_nil _ _) (each.map_segmentOf.symm ▸ undotted)

theorem replaces_fileSegments (named : ∃ first ∈ segments.head?, namesDrive first = true) :
    (fileSegments (joined segments)).2 = true := by
  obtain ⟨first, front, named⟩ := named
  obtain ⟨more, rfl⟩ := List.head?_eq_some_iff.mp front
  have drive := Drive.of?_of_free (each.each first List.mem_cons_self).free
  rw [if_pos named] at drive
  obtain ⟨letter, rest, rfl⟩ : ∃ letter rest, first = letter :: rest := by
    cases first with
    | nil => cases named
    | cons letter rest => exact ⟨letter, rest, rfl⟩
  have found : leadingDrive [] ((letter :: rest) :: more) = some (⟨letter, none⟩, more) := by
    rw [leadingDrive, if_pos rfl, drive]
    rfl
  simp only [fileSegments, each.splitOn_joined, found]
  rfl

end InDoubt.Locator

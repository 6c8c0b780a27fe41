import InDoubt.Locator.Path
import InDoubt.Proofs.Locator.Percent
import InDoubt.Proofs.Basic

/-!
Paths read back. The segments that are read have no separators in them and nothing that would be
encoded (`Segments`). If none of them is a dot, they are read from what is written for them.
-/

namespace InDoubt.Locator

variable {kind : SchemeKind} {s text segment : List Char}
  {segments stack raw : List (List Char)} {c : Char}

/-- A segment that stays as it is, unless it is a dot or a drive. -/
structure Segment (kind : SchemeKind) (segment : List Char) : Prop where
  clean : Clean .path segment
  whole : ∀ c ∈ segment, separates kind c = false

/-- The segments of a path. -/
structure Segments (kind : SchemeKind) (segments : List (List Char)) : Prop where
  filled : segments ≠ []
  each : ∀ segment ∈ segments, Segment kind segment

/-- None of the segments is a dot or a double dot. -/
def Undotted (segments : List (List Char)) : Prop :=
  ∀ segment ∈ segments, isDot segment = false ∧ isDoubleDot segment = false

theorem Segment.nil : Segment kind [] := ⟨nofun, nofun⟩

/-! Dot segments. -/

theorem mem_of_mem_leaveSegment (h : segment ∈ leaveSegment stack) : segment ∈ stack := by
  unfold leaveSegment at h
  split at h
  · exact h
  · split at h
    · exact h
    · exact List.mem_cons_of_mem _ h

theorem mem_of_mem_enter (h : segment ∈ enter stack text) :
    segment ∈ stack ∨ segment = text ∧ isDot text = false ∧ isDoubleDot text = false := by
  unfold enter at h
  split at h
  · exact .inl (mem_of_mem_leaveSegment h)
  · rename_i up
    split at h
    · exact .inl h
    · rename_i here
      exact (List.mem_cons.mp h).symm.imp_right fun e => ⟨e, by simpa using here, by simpa using up⟩

theorem enter_of_undotted (h : isDot segment = false ∧ isDoubleDot segment = false) :
    enter stack segment = segment :: stack := by
  simp [enter, h]

/-- What is left are segments that were there and are no dots, or an empty one at the end. -/
theorem mem_resolveDots (h : segment ∈ resolveDots stack raw) :
    segment = [] ∨ segment ∈ stack ∨
      segment ∈ raw ∧ isDot segment = false ∧ isDoubleDot segment = false := by
  fun_induction resolveDots stack raw with
  | case1 => exact .inr (.inl h)
  | case2 stack last dots =>
      rcases List.mem_cons.mp h with e | entered
      · exact .inl e
      · rcases mem_of_mem_enter entered with old | ⟨rfl, plain⟩
        · exact .inr (.inl old)
        · exact .inr (.inr ⟨List.mem_cons_self, plain⟩)
  | case3 stack last dots =>
      rcases mem_of_mem_enter h with old | ⟨rfl, plain⟩
      · exact .inr (.inl old)
      · exact .inr (.inr ⟨List.mem_cons_self, plain⟩)
  | case4 stack first rest more ih =>
      rcases ih h with e | entered | ⟨new, plain⟩
      · exact .inl e
      · rcases mem_of_mem_enter entered with old | ⟨rfl, plain⟩
        · exact .inr (.inl old)
        · exact .inr (.inr ⟨List.mem_cons_self, plain⟩)
      · exact .inr (.inr ⟨List.mem_cons_of_mem _ new, plain⟩)

theorem resolveDots_ne_nil (h : raw ≠ []) : resolveDots stack raw ≠ [] := by
  fun_induction resolveDots stack raw with
  | case1 => exact absurd rfl h
  | case2 => exact List.cons_ne_nil _ _
  | case3 stack last dots =>
      rw [enter_of_undotted (by simpa [and_comm] using dots)]
      exact List.cons_ne_nil _ _
  | case4 _ _ _ more ih => exact ih more

theorem resolveDots_of_undotted (h : Undotted raw) :
    resolveDots stack raw = raw.reverse ++ stack := by
  fun_induction resolveDots stack raw with
  | case1 => rfl
  | case2 stack last dots => simp [h last List.mem_cons_self] at dots
  | case3 stack last dots => rw [enter_of_undotted (h last List.mem_cons_self)]; rfl
  | case4 stack segment rest more ih =>
      rw [ih fun segment mem => h segment (List.mem_cons_of_mem _ mem),
        enter_of_undotted (h segment List.mem_cons_self)]
      simp

/-- A drive stays at the bottom of a stack. -/
theorem exists_enter_concat (h : isDrive segment = true) (text : List Char)
    (stack : List (List Char)) :
    ∃ stack', enter (stack ++ [segment]) text = stack' ++ [segment] := by
  unfold enter
  split
  · cases stack with
    | nil => exact ⟨[], by simp [leaveSegment, h]⟩
    | cons first rest =>
        by_cases other : isDrive first = true
        · exact ⟨first :: rest, by simp [leaveSegment, other]⟩
        · exact ⟨rest, by simp [leaveSegment, other]⟩
  · split
    · exact ⟨stack, rfl⟩
    · exact ⟨text :: stack, rfl⟩

theorem exists_resolveDots_concat (h : isDrive segment = true) (stack raw : List (List Char)) :
    ∃ stack', resolveDots (stack ++ [segment]) raw = stack' ++ [segment] := by
  induction raw generalizing stack with
  | nil => exact ⟨stack, rfl⟩
  | cons first rest ih =>
      obtain ⟨entered, e⟩ := exists_enter_concat h first stack
      cases rest with
      | nil =>
          rw [resolveDots, e]
          split
          · exact ⟨[] :: entered, rfl⟩
          · exact ⟨entered, rfl⟩
      | cons second rest =>
          rw [resolveDots, e]
          · exact ih entered
          · exact List.cons_ne_nil _ _

/-! Segments. -/

theorem segment_percentEncode (h : ∀ c ∈ s, separates kind c = false) :
    Segment kind (percentEncode .path s) := by
  refine ⟨clean_percentEncode (by decide) s, fun c mem => ?_⟩
  rcases mem_percentEncode mem with ⟨old, -⟩ | rfl | ⟨n, lt, rfl⟩
  · exact h c old
  · cases kind <;> rfl
  · have all : ∀ n < 16, Hex.digit n ≠ '/' ∧ Hex.digit n ≠ '\\' := by decide
    simp [separates, all n lt]

/-- Segments, no one of them a dot, are left of what is between the separators of a text. -/
theorem segments_segmentsOf (kind : SchemeKind) (s : List Char) :
    Segments kind (segmentsOf kind s) ∧ Undotted (segmentsOf kind s) := by
  have pieces : (splitOn (separates kind) s).map (percentEncode .path) ≠ [] := by
    simpa using splitOn_ne_nil _ _
  have each {segment : List Char} (h : segment ∈ segmentsOf kind s) : Segment kind segment ∧
      isDot segment = false ∧ isDoubleDot segment = false := by
    rcases mem_resolveDots (List.mem_reverse.mp h) with rfl | old | ⟨new, undotted⟩
    · exact ⟨.nil, by decide⟩
    · cases old
    · obtain ⟨piece, mem, rfl⟩ := List.mem_map.mp new
      exact ⟨segment_percentEncode fun c => separates_of_mem_splitOn mem, undotted⟩
  exact ⟨⟨by simpa [segmentsOf] using resolveDots_ne_nil pieces, fun _ mem => (each mem).1⟩,
    fun _ mem => (each mem).2⟩

/-- The text of a path without its first slash. -/
def joined (segments : List (List Char)) : List Char := ['/'].intercalate segments

theorem toChars_rooted (filled : segments ≠ []) :
    (Path.rooted segments).toChars = '/' :: joined segments := by
  rw [Path.toChars, joined]
  induction segments with
  | nil => exact absurd rfl filled
  | cons segment rest ih =>
      rw [List.flatMap_cons]
      by_cases last : rest = []
      · simp [last]
      · rw [List.intercalate_cons_of_ne_nil last, ih last, List.append_assoc]
        rfl

namespace Segments

variable (h : Segments kind segments)
include h

theorem splitOn_joined : splitOn (separates kind) (joined segments) = segments :=
  splitOn_intercalate (by simp [separates]) h.filled fun segment mem => (h.each segment mem).whole

theorem percentEncode_map : segments.map (percentEncode .path) = segments := by
  refine (List.map_congr_left ?_).trans (List.map_id segments)
  exact fun segment mem => percentEncode_of_clean (h.each segment mem).clean

theorem mem_joined (mem : c ∈ joined segments) : c = '/' ∨ EncodeSet.path c = false :=
  (mem_of_mem_intercalate mem).imp_right fun ⟨_, mem', hc⟩ => (h.each _ mem').clean c hc

theorem segmentsOf_joined (undotted : Undotted segments) :
    segmentsOf kind (joined segments) = segments := by
  rw [segmentsOf, h.splitOn_joined, h.percentEncode_map, resolveDots_of_undotted undotted,
    List.append_nil, List.reverse_reverse]

end Segments

/-! Paths after an authority. -/

/-- A path that may stand after an authority. -/
def Path.After (kind : SchemeKind) : Path → Prop
  | .rooted segments => segments = [] ∧ kind = .general ∨ Segments kind segments
  | .rootless _ => False

/-- No segment of the path is a dot or a double dot. -/
def Path.Undotted : Path → Prop
  | .rooted segments => Locator.Undotted segments
  | .rootless _ => True

namespace Path

variable {path : Path}

theorem after_afterAuthority (kind : SchemeKind) (s : List Char) :
    (afterAuthority kind s).After kind ∧ (afterAuthority kind s).Undotted := by
  unfold afterAuthority
  split
  · split
    · rename_i general
      exact ⟨.inl ⟨rfl, general⟩, nofun⟩
    · exact (segments_segmentsOf kind []).imp_left .inr
  · exact (segments_segmentsOf kind _).imp_left .inr

theorem After.toChars_eq (h : path.After kind) :
    path = .rooted [] ∧ kind = .general ∧ path.toChars = [] ∨
      ∃ segments, path = .rooted segments ∧ Segments kind segments ∧
        path.toChars = '/' :: joined segments := by
  cases path with
  | rooted segments =>
      rcases h with ⟨rfl, general⟩ | h
      · exact .inl ⟨rfl, general, rfl⟩
      · exact .inr ⟨segments, rfl, h, toChars_rooted h.filled⟩
  | rootless text => exact h.elim

theorem After.afterAuthority_toChars (h : path.After kind) (undotted : path.Undotted) :
    afterAuthority kind path.toChars = path := by
  obtain ⟨rfl, rfl, e⟩ | ⟨segments, rfl, each, e⟩ := h.toChars_eq
  · rfl
  · rw [e, afterAuthority, if_pos (by simp [separates]), each.segmentsOf_joined undotted]

end Path

end InDoubt.Locator

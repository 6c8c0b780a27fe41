import InDoubt.Proofs.Locator.Authorities
import InDoubt.Proofs.Locator.Drives

/-!
Authority and path read back. The schemes differ in which of them they allow together (`Reads`), and
each combination is read from what is written for it, up to the query or the fragment. Under the
file scheme that holds of those alone that are `Unmoved`: no segment is a dot, and no drive takes
the place of a host.
-/

namespace InDoubt.Locator

open Host (NameChar HostChar)

/-- What follows a path starts a query or a fragment. -/
def QueryHere (after : List Char) : Prop := ∀ c ∈ after.head?, isQueryOrFragment c = true

/-- A host of the file scheme. -/
def Host.Local (idna : Idna) (h : Host) : Prop :=
  h = .name [] ∨ h.Special idna ∧ h ≠ .name "localhost".toList

/-- The authorities and paths of a kind of scheme. -/
inductive Reads (idna : Idna) : SchemeKind → Option Authority → Path → Prop
  | hosted {kind a path} (other : kind ≠ .file) (plain : a.Plain idna kind)
      (after : path.After kind) (undotted : path.Undotted) : Reads idna kind (some a) path
  | file {host segments} (near : Host.Local idna host) (each : Segments .file segments)
      (tight : dropLeadingEmpty segments = segments) :
      Reads idna .file (some ⟨[], none, host, none⟩) (.rooted segments)
  | rooted {segments} (each : Segments .general segments) (undotted : Undotted segments) :
      Reads idna .general none (.rooted segments)
  | rootless {text} (clean : Clean .controls text)
      (whole : ∀ c ∈ text, isQueryOrFragment c = false) (unrooted : text.head? ≠ some '/') :
      Reads idna .general none (.rootless text)

variable {idna : Idna} {kind : SchemeKind} {s text after : List Char} {c : Char} {host : Host}
  {a : Authority} {authority : Option Authority} {path : Path} {segments : List (List Char)}

/-- What is written for an authority and a path. -/
def hierarchyText (authority : Option Authority) (path : Path) : List Char :=
  hierarchy ⟨[], authority, path, none, none⟩

/-! Reading. -/

theorem queryHere_dropWhile (s : List Char) :
    QueryHere (s.dropWhile fun c => !isQueryOrFragment c) := by
  intro c mem
  have stops := List.head?_dropWhile_not (fun c => !isQueryOrFragment c) s
  rw [Option.mem_def.mp mem] at stops
  simpa using stops

theorem reads_withPath (other : kind ≠ .file) (plain : a.Plain idna kind)
    (e : withPath kind a s = (authority, path, after)) :
    Reads idna kind authority path ∧ QueryHere after := by
  cases e
  obtain ⟨rooted, undotted⟩ := Path.after_afterAuthority kind (s.takeWhile (!isQueryOrFragment ·))
  exact ⟨.hosted other plain rooted undotted, queryHere_dropWhile s⟩

theorem local_of_fileHost (e : fileHost idna s = .ok host) : host.Local idna := by
  unfold fileHost at e
  split at e
  · cases e
    exact .inl rfl
  · obtain ⟨host', read, e⟩ := bind_eq_ok_iff.mp e
    split at e
    · cases e
      exact .inl rfl
    · rename_i other
      cases e
      exact .inr ⟨Host.special_of_parseDomain read, other⟩

theorem isBreak_of_isQueryOrFragment (h : isQueryOrFragment c = true) : isBreak c = false := by
  simp only [isQueryOrFragment, Bool.or_eq_true, decide_eq_true_eq] at h
  rcases h with rfl | rfl <;> rfl

theorem QueryHere.withoutBreaks (h : QueryHere s) : QueryHere (withoutBreaks s) := by
  cases s with
  | nil => exact h
  | cons c s =>
      have first := h c rfl
      have kept : Locator.withoutBreaks (c :: s) = c :: Locator.withoutBreaks s := by
        simp [Locator.withoutBreaks, isBreak_of_isQueryOrFragment first]
      rw [kept]
      intro d mem
      obtain rfl : c = d := Option.some.inj mem
      exact first

/-- The host that is left when a drive is read. -/
theorem Host.Local.replaced (near : host.Local idna) (replaced : Bool) :
    (if replaced then .name [] else host).Local idna := by
  cases replaced with
  | false => exact near
  | true => exact .inl rfl

theorem reads_withFilePath (near : host.Local idna)
    (e : withFilePath host s = (authority, path, after)) :
    Reads idna .file authority path ∧ QueryHere after := by
  cases e
  obtain ⟨each, tight⟩ := segments_fileSegments (s.takeWhile (!isQueryOrFragment ·))
  exact ⟨.file (near.replaced _) each tight, (queryHere_dropWhile s).withoutBreaks⟩

theorem reads_fileHierarchy (e : fileHierarchy idna s = .ok (authority, path, after)) :
    Reads idna .file authority path ∧ QueryHere after := by
  unfold fileHierarchy at e
  split at e
  · exact reads_withFilePath (.inl rfl) (Except.ok.inj e)
  · split at e
    · exact reads_withFilePath (.inl rfl) (Except.ok.inj e)
    · simp only [hostedHierarchy] at e
      split at e
      · exact reads_withFilePath (.inl rfl) (Except.ok.inj e)
      · obtain ⟨host, read, e⟩ := bind_eq_ok_iff.mp e
        exact reads_withFilePath (local_of_fileHost read) (Except.ok.inj e)

theorem reads_generalHierarchy (e : generalHierarchy idna s = .ok (authority, path, after)) :
    Reads idna .general authority path ∧ QueryHere after := by
  unfold generalHierarchy at e
  split at e
  · obtain ⟨⟨a, rest⟩, read, e⟩ := bind_eq_ok_iff.mp e
    exact reads_withPath (by simp) (plain_of_authorityOf read) (Except.ok.inj e)
  · cases e
    obtain ⟨each, undotted⟩ := segments_segmentsOf .general _
    exact ⟨.rooted each undotted, queryHere_dropWhile _⟩
  · rename_i unrooted
    cases e
    refine ⟨.rootless (clean_percentEncode (by decide) _) ?_ ?_, queryHere_dropWhile _⟩
    · intro c mem
      rcases mem_percentEncode mem with ⟨old, -⟩ | rfl | ⟨n, lt, rfl⟩
      · simpa using List.all_eq_true.mp List.all_takeWhile c old
      · rfl
      · have all : ∀ n < 16, isQueryOrFragment (Hex.digit n) = false := by decide
        exact all n lt
    · intro first
      rcases head?_percentEncode first with old | escape
      · rw [List.head?_takeWhile, Option.mem_def, Option.filter_eq_some_iff] at old
        obtain ⟨rest, rfl⟩ := List.head?_eq_some_iff.mp old.1
        exact unrooted rest rfl
      · exact absurd escape (by decide)

theorem reads_hierarchyOf (e : hierarchyOf idna kind s = .ok (authority, path, after)) :
    Reads idna kind authority path ∧ QueryHere after := by
  cases kind with
  | special port =>
      obtain ⟨⟨a, rest⟩, read, e⟩ := bind_eq_ok_iff.mp e
      exact reads_withPath (by simp) (plain_of_authorityOf read) (Except.ok.inj e)
  | file => exact reads_fileHierarchy e
  | general => exact reads_generalHierarchy e

/-! Reading back. -/

theorem Path.After.endsHere (h : path.After kind) (query : QueryHere after) :
    EndsHere (path.toChars ++ after) := by
  obtain ⟨-, -, e⟩ | ⟨segments, -, -, e⟩ := h.toChars_eq
  · rw [e]
    intro c mem
    exact .inr (by simpa [isQueryOrFragment] using query c mem)
  · rw [e]
    intro c mem
    exact .inl (Option.some.inj mem).symm

theorem QueryHere.stopsAt (h : QueryHere after) :
    StopsAt (fun c => !isQueryOrFragment c) after := by
  intro c mem
  simp [h c mem]

theorem QueryHere.head?_append (h : QueryHere after) (unrooted : text.head? ≠ some '/') :
    (text ++ after).head? ≠ some '/' := by
  cases text with
  | nil => exact fun slash => absurd (h '/' slash) (by decide)
  | cons c text => exact unrooted

theorem isQueryOrFragment_of_path (h : EncodeSet.path c = false) : isQueryOrFragment c = false := by
  simp only [EncodeSet.path, Bool.or_eq_false_iff, decide_eq_false_iff_not, List.mem_cons,
    List.not_mem_nil, or_false, not_or] at h
  simp [isQueryOrFragment, h]

theorem Segments.inPath (h : Segments kind segments) :
    ∀ c ∈ joined segments, (!isQueryOrFragment c) = true := by
  intro c mem
  rcases h.mem_joined mem with rfl | clean
  · rfl
  · rw [isQueryOrFragment_of_path clean]
    rfl

theorem Path.After.inPath (h : path.After kind) :
    ∀ c ∈ path.toChars, (!isQueryOrFragment c) = true := by
  obtain ⟨-, -, e⟩ | ⟨segments, -, each, e⟩ := h.toChars_eq
  · rw [e]
    exact nofun
  · rw [e]
    intro c mem
    rcases List.mem_cons.mp mem with rfl | mem
    · rfl
    · exact each.inPath c mem

theorem withPath_toChars (h : path.After kind) (undotted : path.Undotted)
    (query : QueryHere after) :
    withPath kind a (path.toChars ++ after) = (some a, path, after) := by
  simp only [withPath, takeWhile_append_of_stopsAt h.inPath query.stopsAt,
    dropWhile_append_of_stopsAt h.inPath query.stopsAt, h.afterAuthority_toChars undotted]

/-- An authority does not start with a slash. -/
theorem Authority.Plain.stopsAt (h : a.Plain idna kind) (special : kind ≠ .general) :
    StopsAt (separates kind) (a.toChars ++ s) := by
  intro c mem
  obtain ⟨first, rest, e⟩ := List.exists_cons_of_ne_nil (h.toChars_ne_nil special)
  rw [e] at mem
  obtain rfl : first = c := Option.some.inj mem
  have ends : endsAuthority kind first = false := by
    rcases h.mem_toChars (c := first) (by rw [e]; exact List.mem_cons_self) with inner | rfl
    · exact endsAuthority_of_hostChar inner
    · cases kind <;> rfl
  simp only [endsAuthority, Bool.or_eq_false_iff] at ends
  simp [separates, ends]

theorem Host.Local.written (near : host.Local idna) : host.Written := by
  rcases near with rfl | ⟨special, -⟩
  · exact nofun
  · exact special.written

theorem Host.Local.inHost (near : host.Local idna) :
    ∀ c ∈ host.toChars, (!endsAuthority .file c) = true := by
  intro c mem
  rw [endsAuthority_of_hostChar (near.written.mem_toChars mem)]
  rfl

theorem stopsAt_slash (s : List Char) :
    StopsAt (fun c => !endsAuthority .file c) ('/' :: s) := by
  rintro c ⟨⟩
  rfl

theorem fileHost_toChars (near : host.Local idna) : fileHost idna host.toChars = .ok host := by
  rcases near with rfl | ⟨special, other⟩
  · rfl
  · rw [fileHost, if_neg special.toChars_ne_nil, Host.parseDomain_toChars special]
    exact congrArg Except.ok (if_neg other)

/-- A host is not taken for a drive. -/
theorem Host.Local.of?_toChars (near : host.Local idna)
    (free : ∀ c ∈ host.toChars, isBreak c = false) : Drive.of? host.toChars = none := by
  refine (Drive.of?_of_free free).trans (if_neg fun drive => ?_)
  obtain ⟨letter, mark, e⟩ : ∃ letter mark, host.toChars = [letter, mark] := by
    unfold namesDrive at drive
    split at drive
    · rename_i letter mark e
      exact ⟨letter, mark, e⟩
    · cases drive
  simp only [e, namesDrive, Bool.and_eq_true, Bool.or_eq_true, decide_eq_true_eq] at drive
  obtain ⟨alpha, marked⟩ := drive
  rcases near with rfl | ⟨special, -⟩
  · cases e
  · cases host with
    | name text =>
        have allowed := (idna.written special.2.2 mark (by rw [show text = _ from e]; simp)).1
        rcases marked with rfl | rfl <;> cases allowed
    | ipv4 address =>
        have mem : mark ∈ address.toChars := by rw [show address.toChars = _ from e]; simp
        rcases Ipv4.mem_toChars mem with rfl | digit
        · simp at marked
        · rcases marked with rfl | rfl <;> cases digit
    | ipv6 address =>
        obtain rfl : '[' = letter := (List.cons.inj e).1
        cases alpha

/-- The slash in front of a path belongs to it only after the empty host. -/
def pathText (host : Host) (segments : List (List Char)) : List Char :=
  if host = .name [] then '/' :: joined segments else joined segments

theorem hostedHierarchy_text (near : host.Local idna)
    (free : ∀ c ∈ host.toChars, isBreak c = false) :
    hostedHierarchy idna (host.toChars ++ '/' :: joined segments ++ after) =
      .ok (withFilePath host (pathText host segments ++ after)) := by
  have stops := stopsAt_slash (joined segments ++ after)
  have slash : afterSlash ('/' :: (joined segments ++ after)) =
      some (joined segments ++ after) := rfl
  rw [List.append_assoc]
  simp only [hostedHierarchy, List.cons_append, takeWhile_append_of_stopsAt near.inHost stops,
    dropWhile_append_of_stopsAt near.inHost stops, near.of?_toChars free, withoutBreaks_of_free free,
    fileHost_toChars near, slash, Host.isEmpty, Option.any_none, bind, Except.bind, pure,
    Except.pure, Bool.false_eq_true, if_false, Option.getD_some]
  by_cases empty : host = .name [] <;> simp [pathText, empty]

theorem Segments.pathText_inPath (each : Segments .file segments) :
    ∀ c ∈ pathText host segments, (!isQueryOrFragment c) = true := by
  unfold pathText
  split
  · exact List.forall_mem_cons.mpr ⟨rfl, each.inPath⟩
  · exact each.inPath

theorem Segments.pathText_free (each : Segments .file segments) :
    ∀ c ∈ pathText host segments, isBreak c = false := by
  have inner : ∀ c ∈ joined segments, isBreak c = false := by
    intro c mem
    rcases mem_of_mem_intercalate mem with rfl | ⟨segment, mem, hc⟩
    · rfl
    · exact (each.each segment mem).free c hc
  unfold pathText
  split
  · exact List.forall_mem_cons.mpr ⟨rfl, inner⟩
  · exact inner

/-- Only a path that looks like an authority has a second slash in front. -/
theorem Segments.head?_joined (each : Segments .general segments)
    (looks : (Path.rooted segments).looksLikeAuthority ≠ true) :
    (joined segments).head? ≠ some '/' := by
  cases segments with
  | nil => exact absurd rfl each.filled
  | cons segment rest =>
      cases segment with
      | nil =>
          cases rest with
          | nil => simp [joined]
          | cons next rest => exact absurd rfl looks
      | cons c segment =>
          have other := (each.each _ List.mem_cons_self).whole c List.mem_cons_self
          have first : (joined ((c :: segment) :: rest)).head? = some c := by
            cases rest <;> simp [joined]
          rw [first]
          rintro ⟨⟩
          simp [separates] at other

/-- A dot in front of a path is not there any more once it is read. -/
theorem Segments.segmentsOf_dotted (each : Segments .general segments)
    (undotted : Undotted segments) :
    segmentsOf .general ('.' :: '/' :: joined segments) = segments := by
  have pieces : splitOn (separates .general) ('.' :: '/' :: joined segments) =
      ['.'] :: segments := by
    have slash : separates .general '/' = true := rfl
    rw [← List.singleton_append, splitOn_append_cons slash, each.splitOn_joined]
    rfl
  have encoded : (['.'] :: segments).map (percentEncode .path) = ['.'] :: segments := by
    rw [List.map_cons, each.percentEncode_map]
    rfl
  obtain ⟨first, rest, e⟩ := List.exists_cons_of_ne_nil each.filled
  have skipped : resolveDots [] (['.'] :: segments) = resolveDots [] segments := by
    rw [e]
    rfl
  rw [segmentsOf, pieces, encoded, skipped, resolveDots_of_undotted undotted, List.append_nil,
    List.reverse_reverse]

/-- A path without an authority does not read as one. -/
theorem Segments.exists_text (each : Segments .general segments) (undotted : Undotted segments) :
    ∃ text, hierarchyText none (.rooted segments) = '/' :: text ∧ text.head? ≠ some '/' ∧
      (∀ c ∈ text, (!isQueryOrFragment c) = true) ∧ segmentsOf .general text = segments := by
  have whole := toChars_rooted each.filled
  by_cases looks : (Path.rooted segments).looksLikeAuthority = true
  · refine ⟨'.' :: '/' :: joined segments, ?_, by simp, ?_, each.segmentsOf_dotted undotted⟩
    · simp [hierarchyText, hierarchy, looks, whole]
    · intro c mem
      rcases List.mem_cons.mp mem with rfl | mem
      · rfl
      rcases List.mem_cons.mp mem with rfl | mem
      · rfl
      · exact each.inPath c mem
  · refine ⟨joined segments, ?_, each.head?_joined looks, each.inPath,
      each.segmentsOf_joined undotted⟩
    simp [hierarchyText, hierarchy, looks, whole]

/-- No segment is a dot, and a drive in front takes no host's place. -/
def Unmoved (authority : Option Authority) (path : Path) : Prop :=
  ∀ a segments, authority = some a → path = .rooted segments → Undotted segments ∧
    (a.host = .name [] ∨ ∀ first ∈ segments.head?, namesDrive first = false)

/-- Host and segments are read again as they are exactly if they are unmoved. -/
theorem fileSegments_pathText_iff (each : Segments .file segments)
    (tight : dropLeadingEmpty segments = segments) :
    ((if (fileSegments (pathText host segments)).2 then .name [] else host) = host ∧
        (fileSegments (pathText host segments)).1 = segments) ↔
      Unmoved (some ⟨[], none, host, none⟩) (.rooted segments) := by
  constructor
  · rintro ⟨kept, same⟩ _ _ ⟨⟩ ⟨⟩
    refine ⟨same ▸ undotted_fileSegments each.pathText_free, ?_⟩
    by_contra moved
    obtain ⟨hosted, drive⟩ := not_or.mp moved
    simp only [not_forall, Bool.not_eq_false] at drive
    obtain ⟨first, front, named⟩ := drive
    rw [pathText, if_neg hosted, if_pos (replaces_fileSegments each ⟨first, front, named⟩)] at kept
    exact hosted kept.symm
  · intro unmoved
    obtain ⟨undotted, other⟩ := unmoved _ _ rfl rfl
    have same : fileSegments (pathText host segments) = (segments, false) := by
      unfold pathText
      split
      · exact fileSegments_slash each tight undotted
      · rename_i hosted
        exact fileSegments_joined each tight undotted (other.resolve_left hosted)
    rw [same]
    exact ⟨rfl, rfl⟩

theorem hierarchyText_file (each : Segments .file segments) :
    hierarchyText (some ⟨[], none, host, none⟩) (.rooted segments) =
      '/' :: '/' :: (host.toChars ++ '/' :: joined segments) := by
  simp [hierarchyText, hierarchy, Authority.toChars, Authority.credentials,
    toChars_rooted each.filled]

/-- Other hosts or segments are written otherwise. -/
theorem hierarchyText_injective {authority' : Option Authority} {path' : Path}
    (h : Reads idna .file authority path) (h' : Reads idna .file authority' path')
    (e : hierarchyText authority' path' = hierarchyText authority path) :
    authority' = authority ∧ path' = path := by
  cases h with
  | hosted other => exact absurd rfl other
  | @file host segments near each tight =>
      cases h' with
      | hosted other => exact absurd rfl other
      | @file host' segments' near' each' tight' =>
          rw [hierarchyText_file each, hierarchyText_file each', List.cons.injEq,
            List.cons.injEq] at e
          have hosts := congrArg (List.takeWhile fun c => !endsAuthority .file c) e.2.2
          have paths := congrArg (List.dropWhile fun c => !endsAuthority .file c) e.2.2
          rw [takeWhile_append_of_stopsAt near.inHost (stopsAt_slash _),
            takeWhile_append_of_stopsAt near'.inHost (stopsAt_slash _)] at hosts
          rw [dropWhile_append_of_stopsAt near.inHost (stopsAt_slash _),
            dropWhile_append_of_stopsAt near'.inHost (stopsAt_slash _), List.cons.injEq] at paths
          obtain rfl : host' = host := by
            have back := fileHost_toChars near'
            rw [hosts, fileHost_toChars near] at back
            exact (Except.ok.inj back).symm
          obtain rfl : segments' = segments := by
            rw [← each'.splitOn_joined, paths.2, each.splitOn_joined]
          exact ⟨rfl, rfl⟩

/-- Under the file scheme something is read, and it is the same exactly if it is unmoved. -/
theorem hierarchyOf_file (h : Reads idna .file authority path) (query : QueryHere after)
    (free : ∀ c ∈ hierarchyText authority path ++ after, isBreak c = false) :
    ∃ authority' path', hierarchyOf idna .file (hierarchyText authority path ++ after) =
        .ok (authority', path', after) ∧
      (authority' = authority ∧ path' = path ↔ Unmoved authority path) := by
  cases h with
  | hosted other => exact absurd rfl other
  | @file host segments near each tight =>
      have stops := query.stopsAt
      rw [hierarchyText_file each] at free ⊢
      have inHost : ∀ c ∈ host.toChars, isBreak c = false := fun c mem => free c (by simp [mem])
      have later : withoutBreaks after = after :=
        withoutBreaks_of_free fun c mem => free c (by simp [mem])
      have slashes (s : List Char) : fileHierarchy idna ('/' :: '/' :: s) =
        hostedHierarchy idna s := rfl
      let path := fileSegments (pathText host segments)
      refine ⟨some ⟨[], none, if path.2 then .name [] else host, none⟩, .rooted path.1, ?_, ?_⟩
      · rw [hierarchyOf, List.cons_append, List.cons_append, slashes,
          hostedHierarchy_text near inHost]
        simp only [withFilePath, takeWhile_append_of_stopsAt each.pathText_inPath stops,
          dropWhile_append_of_stopsAt each.pathText_inPath stops, later, path]
      · rw [← fileSegments_pathText_iff each tight]
        simp only [Option.some.injEq, Authority.mk.injEq, Path.rooted.injEq, true_and, and_true,
          path]

theorem hierarchyOf_text (h : Reads idna kind authority path) (other : kind ≠ .file)
    (query : QueryHere after)
    (free : ∀ c ∈ hierarchyText authority path ++ after, isBreak c = false) :
    hierarchyOf idna kind (hierarchyText authority path ++ after) =
      .ok (authority, path, after) := by
  have whole := withoutBreaks_of_free free
  cases h with
  | file => exact absurd rfl other
  | @hosted _ a _ other plain afterPath undotted =>
      have read := authorityOf_toChars plain (afterPath.endsHere query)
      have text : hierarchyText (some a) path ++ after =
          ['/', '/'] ++ (a.toChars ++ (path.toChars ++ after)) := by
        simp [hierarchyText, hierarchy]
      rw [text] at whole ⊢
      cases kind with
      | special port =>
          have slashes : ∀ c ∈ ['/', '/'], separates (.special port) c = true := by
            simp [separates]
          simp only [hierarchyOf, whole, specialHierarchy]
          rw [dropWhile_append_of_stopsAt slashes (plain.stopsAt (by simp)), read]
          simp only [bind, Except.bind, withPath_toChars afterPath undotted query]
          rfl
      | file => exact absurd rfl other
      | general =>
          simp only [hierarchyOf, whole]
          simp only [List.cons_append, List.nil_append, generalHierarchy, read, bind,
            Except.bind, withPath_toChars afterPath undotted query]
          rfl
  | @rooted segments each undotted =>
      obtain ⟨text, e, unrooted, inside, read⟩ := each.exists_text undotted
      have first := query.head?_append unrooted
      rw [e] at whole ⊢
      rw [hierarchyOf, whole, List.cons_append, generalHierarchy,
        takeWhile_append_of_stopsAt inside query.stopsAt,
        dropWhile_append_of_stopsAt inside query.stopsAt, read]
      exact fun rest e => first (by rw [e]; rfl)
  | @rootless text clean inside unrooted =>
      have inPath : ∀ c ∈ text, (!isQueryOrFragment c) = true := by
        intro c mem
        rw [inside c mem]
        rfl
      have plain : hierarchyText none (.rootless text) = text := rfl
      have first := query.head?_append unrooted
      rw [plain] at whole ⊢
      rw [hierarchyOf, whole, generalHierarchy, takeWhile_append_of_stopsAt inPath query.stopsAt,
        dropWhile_append_of_stopsAt inPath query.stopsAt, percentEncode_of_clean clean]
      · exact fun rest e => first (by rw [e]; rfl)
      · exact fun rest e => first (by rw [e]; rfl)

end InDoubt.Locator

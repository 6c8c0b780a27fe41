import InDoubt.Proofs.FileSystem.Opening

/-!
Reading the files that a listing names. A file that stands under a name in a directory is reached by
its path, unless the path or the name is too long or holds what no path can hold; it is never found
missing. What is read depends on the path and the content alone, so that removing one file changes
the reading of no other. A file without records goes when it is unlinked, unless it is locked.
-/

namespace InDoubt.FileSystem

variable {fs tree : FileSystem} {top place : Place} {places : List Place} {inode : Nat}
  {path : Bytes} {dir id : String} {f : Failure} {inodes : List Nat}

/-- A path that is none for another reason than being empty is not counted as missing. -/
theorem checkPath_ne_notFound (nonempty : path ≠ []) : checkPath path ≠ .error .notFound := by
  unfold checkPath refuseNul
  rw [if_neg nonempty]
  split
  · exact nofun
  · simp only [bind, Except.bind]
    split <;> exact nofun

theorem encode_joinPath_ne_nil (dir : String) (held : Holdable id) :
    Utf8.encode (joinPath dir id) ≠ [] := by
  intro empty
  have one : names (Utf8.encode (joinPath dir id)) =
      names (Utf8.encode dir) ++ [Utf8.encode id] := names_joinPath dir held.2 held.1.1
  simp [empty] at one

/-- A file in a directory is reached by its path, if its path can be followed at all. -/
theorem Opens.inodeAt_eq (h : fs.Opens dir top) (held : Holdable id)
    (stands : fs.node? (Utf8.encode id :: top) = some (.file inode)) :
    fs.inodeAt (Utf8.encode (joinPath dir id)) =
      checkPath (Utf8.encode (joinPath dir id)) >>= fun () =>
        if maxName < (Utf8.encode id).length then .error .nameTooLong else .ok inode := by
  have noSlash := endsInSlash_joinPath dir held.2 held.1.1
  unfold FileSystem.inodeAt FileSystem.locate
  rw [namesToDirectory_of_not noSlash]
  cases checkPath (Utf8.encode (joinPath dir id)) with
  | error e => rfl
  | ok =>
      simp only [bind, Except.bind]
      by_cases long : maxName < (Utf8.encode id).length
      · rw [if_pos long, h.walk_of_long held (by simp) long]
      · have leads : Leads fs .follow maxLinks [] (names (Utf8.encode (joinPath dir id)))
            (Utf8.encode id :: top) :=
          h.leads_to held (by simp) (Nat.le_of_not_lt long) (by simp [stands])
        rw [if_neg long, walk_eq_ok_iff.mpr leads]
        simp only [stands]

/-- A file that is listed is not found missing. -/
theorem Opens.inodeAt_ne_notFound (h : fs.Opens dir top) (held : Holdable id)
    (stands : fs.node? (Utf8.encode id :: top) = some (.file inode)) :
    fs.inodeAt (Utf8.encode (joinPath dir id)) ≠ .error .notFound := by
  rw [h.inodeAt_eq held stands]
  have checked := checkPath_ne_notFound (encode_joinPath_ne_nil dir held)
  cases found : checkPath (Utf8.encode (joinPath dir id)) with
  | error e =>
      rintro same
      cases same
      exact checked found
  | ok =>
      simp only [bind, Except.bind]
      split <;> exact nofun

/-- What is read at a path depends on the inode that it leads to and its content. -/
theorem readRecords_congr {path : String}
    (reached : tree.inodeAt (Utf8.encode path) = fs.inodeAt (Utf8.encode path))
    (content : ∀ {inode}, fs.inodeAt (Utf8.encode path) = .ok inode →
      tree.content inode = fs.content inode) : tree.readRecords path = fs.readRecords path := by
  have same : tree.read (Utf8.encode path) = fs.read (Utf8.encode path) := by
    unfold read
    rw [reached]
    cases found : fs.inodeAt (Utf8.encode path) with
    | error e => rfl
    | ok inode => exact congrArg Except.ok (content found)
  simp only [readRecords, same]

/-- The failure to read a file names it, and a listed file is not a missing one. -/
theorem readRecords_eq_error {path : String} (h : fs.readRecords path = .error f) :
    f.path? = some path := by
  unfold readRecords at h
  repeat' split at h
  all_goals cases h <;> rfl

theorem Opens.readRecords_ne_notFound (h : fs.Opens dir top) (held : Holdable id)
    (stands : fs.node? (Utf8.encode id :: top) = some (.file inode)) (path : String) :
    fs.readRecords (joinPath dir id) ≠ .error (.readFailed path (.system .notFound)) := by
  intro missing
  unfold readRecords at missing
  split at missing
  · rename_i e failed
    cases missing
    unfold read at failed
    cases found : fs.inodeAt (Utf8.encode (joinPath dir id)) with
    | error e =>
        rw [found] at failed
        cases failed
        exact h.inodeAt_ne_notFound held stands found
    | ok inode =>
        rw [found] at failed
        cases failed
  · split at missing
    · cases missing
    · split at missing <;> cases missing

/-- A file that can be read is at the end of its path. -/
theorem Opens.homeAt_of_readRecords (h : fs.Opens dir top) (held : Holdable id)
    (stands : fs.node? (Utf8.encode id :: top) = some (.file inode)) {ls : List Locator}
    (read : fs.readRecords (joinPath dir id) = .ok ls) :
    HomeAt fs (Utf8.encode (joinPath dir id)) (Utf8.encode id :: top) inode := by
  obtain ⟨other, content, reached, -, -⟩ := readRecords_eq_ok_iff.mp read
  have home := h.homeAt_of_inodeAt held (by simp [stands]) reached
  have same := home.file
  rw [stands] at same
  cases same
  exact home

/-- A leftover file at the end of its path goes, unless it is locked. -/
theorem HomeAt.unlinkUnlocked {path : String}
    (h : HomeAt fs (Utf8.encode path) place inode) :
    fs.unlinkUnlocked path = if fs.isLocked inode then fs else fs.remove place := by
  simp only [FileSystem.unlinkUnlocked, h.inodeAt, h.unlink]

/-! Discarding files. -/

/-- The tree without what stands at some places. -/
def discard (fs : FileSystem) (places : List Place) : FileSystem :=
  { fs with entries := fs.entries.filter (·.1 ∉ places) }

/-- Files stand at these places. -/
def Filed (fs : FileSystem) (places : List Place) : Prop :=
  ∀ place ∈ places, ∃ inode, fs.node? place = some (.file inode)

@[simp] theorem discard_nil : fs.discard [] = fs := by simp [discard]

theorem discard_cons : fs.discard (place :: places) = (fs.discard places).remove place := by
  simp [discard, FileSystem.remove, List.filter_filter, not_or]

theorem discard_append (more : List Place) :
    fs.discard (places ++ more) = (fs.discard places).discard more := by
  simp [discard, List.filter_filter, not_or, Bool.and_comm]

theorem node?_discard {other : Place} : (fs.discard places).node? other =
    if other ∈ places ∧ other ≠ [] then none else fs.node? other := by
  induction places with
  | nil => simp
  | cons place rest ih =>
      rw [discard_cons, node?_remove, ih]
      by_cases here : other = place
      · subst here
        by_cases root : other = [] <;> simp [root]
      · simp [here]

theorem node?_discard_of_not_mem {other : Place} (out : other ∉ places) :
    (fs.discard places).node? other = fs.node? other := by
  rw [node?_discard, if_neg fun gone => out gone.1]

namespace Filed

theorem keepsWays (filed : fs.Filed places) : KeepsWays fs (fs.discard places) where
  directory {place} stands := by
    rw [node?_discard_of_not_mem, stands]
    intro gone
    obtain ⟨inode, file⟩ := filed place gone
    rw [stands] at file
    cases file
  link {place target} := by
    rw [node?_discard]
    split
    · rename_i gone
      obtain ⟨inode, file⟩ := filed place gone.1
      simp [file]
    · rfl

theorem sound (filed : fs.Filed places) (h : fs.Sound) : (fs.discard places).Sound := by
  refine h.filter _ fun {name dir node} mem _ root => ?_
  simp only [decide_eq_true_eq]
  intro gone
  obtain ⟨_, _, e, -, -, above⟩ := h.seated mem
  obtain ⟨rfl, rfl⟩ := List.cons.inj e
  obtain ⟨inode, file⟩ := filed dir gone
  rw [above] at file
  cases file

end Filed

/-! Locks. -/

theorem locateEntry_unlock : (fs.unlock inodes).locateEntry path = fs.locateEntry path :=
  locateEntry_congr fun _ => rfl

/-- What unlinking does to the entries is not a matter of locks. -/
theorem unlink_unlock :
    (fs.unlock inodes).unlink path = (fs.unlink path).map (·.unlock inodes) := by
  unfold unlink
  rw [locateEntry_unlock]
  cases fs.locateEntry path with
  | error e => rfl
  | ok place =>
      simp only [bind, Except.bind, node?_unlock]
      cases fs.node? place with
      | none => rfl
      | some node =>
          cases node with
          | directory => rfl
          | file inode => simp only [apply_ite (Except.map _)]; rfl
          | link target => simp only [apply_ite (Except.map _)]; rfl

end InDoubt.FileSystem

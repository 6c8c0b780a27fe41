import InDoubt.Proofs.FileSystem.Alterations
import InDoubt.RegistryFile

/-!
Files by name in a directory that a path leads to. While directories and links stay, the path of a
name in that directory names the entry there, and reading and unlinking by that path reach it.
-/

namespace InDoubt.FileSystem

variable {fs tree : FileSystem} {place top : Place} {node : Node} {inode : Nat} {path : Bytes}
  {dir id : String} {last : AtLast} {links : Nat} {here : Place} {name : Bytes}
  {names : List Bytes}

theorem Leads.unique {other : Place} (h : Leads fs last links here names place)
    (k : Leads fs last links here names other) : place = other := by
  rw [← walk_eq_ok_iff] at h k
  exact Except.ok.inj (h.symm.trans k)

theorem mem_children_iff (h : fs.Sound) :
    (name, node) ∈ fs.children place ↔ fs.node? (name :: place) = some node := by
  have entry : (name, node) ∈ fs.children place ↔ (name :: place, node) ∈ fs.entries := by
    simp only [children, List.mem_filterMap, Prod.exists]
    constructor
    · rintro ⟨p, n, mem, e⟩
      split at e
      · split at e
        · cases e
          rename_i heq here
          obtain ⟨rfl, rfl⟩ := Prod.mk.inj here
          exact heq ▸ mem
        · cases e
      · cases e
    · exact fun mem => ⟨_, _, mem, by simp⟩
  rw [entry, h.mem_entries_iff]
  simp

theorem list_eq_ok_iff {entries : List (Bytes × Node)} : fs.list path = .ok entries ↔
    ∃ place, fs.locate path = .ok place ∧ fs.node? place = some .directory ∧
      entries = fs.children place := by
  simp only [list, bind_eq_ok_iff]
  refine exists_congr fun place => and_congr_right fun _ => ?_
  cases stands : fs.node? place with
  | none => simp
  | some node => cases node <;> simp [eq_comm]

/-- The path of a directory leads to it. -/
structure Opens (fs : FileSystem) (dir : String) (top : Place) : Prop where
  leads : Leads fs .follow maxLinks [] (FileSystem.names (Utf8.encode dir)) top
  directory : fs.node? top = some .directory

/-- What a directory may hold under a name. -/
def Holdable (id : String) : Prop := Proper (Utf8.encode id) ∧ slash ∉ Utf8.encode id

namespace Opens

theorem kept (h : fs.Opens dir top) (ways : KeepsWays fs tree) : tree.Opens dir top :=
  ⟨h.leads.kept ways, ways.directory h.directory⟩

theorem of_locate (h : fs.locate (Utf8.encode dir) = .ok top)
    (directory : fs.node? top = some .directory) : fs.Opens dir top := by
  refine ⟨?_, directory⟩
  have leads := (locate_eq_ok_iff.mp h).2
  unfold namesToDirectory at leads
  split at leads
  · exact (Leads.slash_iff directory).mp leads
  · exact leads

theorem locate (h : fs.Opens dir top) (checked : checkPath (Utf8.encode dir) = .ok ()) :
    fs.locate (Utf8.encode dir) = .ok top := by
  refine locate_eq_ok_iff.mpr ⟨checked, ?_⟩
  unfold namesToDirectory
  split
  · exact (Leads.slash_iff h.directory).mpr h.leads
  · exact h.leads

/-- The names on the path of a name in the directory lead to the place of that name. -/
theorem leads_to (h : fs.Opens dir top) (held : Holdable id) (creating : last ≠ .followToCreate)
    (fits : (Utf8.encode id).length ≤ maxName)
    (plain : ∀ target, fs.node? (Utf8.encode id :: top) = some (.link target) → last = .keep) :
    Leads fs last maxLinks [] (FileSystem.names (Utf8.encode (joinPath dir id)))
      (Utf8.encode id :: top) := by
  rw [names_joinPath dir held.2 held.1.1]
  exact h.leads.append h.directory creating (by simp) fun _ => .to_name held.1 fits plain

theorem locateEntry_iff (h : fs.Opens dir top) (held : Holdable id) :
    fs.locateEntry (Utf8.encode (joinPath dir id)) = .ok place ↔
      checkPath (Utf8.encode (joinPath dir id)) = .ok () ∧ (Utf8.encode id).length ≤ maxName ∧
        place = Utf8.encode id :: top := by
  rw [locateEntry_eq_ok_iff]
  refine and_congr_right fun _ => ⟨fun leads => ?_, ?_⟩
  · have fits := (leads.at_last held.1 (by simp [names_joinPath dir held.2 held.1.1])).1
    exact ⟨fits, leads.unique (h.leads_to held (by simp) fits fun _ _ => rfl)⟩
  · rintro ⟨fits, rfl⟩
    exact h.leads_to held (by simp) fits fun _ _ => rfl

/-- A file that is reached by name in the directory is the one that is there. -/
theorem homeAt_of_inodeAt (h : fs.Opens dir top) (held : Holdable id)
    (plain : ∀ target, fs.node? (Utf8.encode id :: top) ≠ some (.link target))
    (e : fs.inodeAt (Utf8.encode (joinPath dir id)) = .ok inode) :
    HomeAt fs (Utf8.encode (joinPath dir id)) (Utf8.encode id :: top) inode := by
  have noSlash := endsInSlash_joinPath dir held.2 held.1.1
  obtain ⟨place, located, stands⟩ := inodeAt_eq_ok_iff.mp e
  obtain ⟨checked, leads⟩ := locate_eq_ok_iff.mp located
  rw [namesToDirectory_of_not noSlash] at leads
  have fits := (leads.at_last held.1 (by simp [names_joinPath dir held.2 held.1.1])).1
  have there := leads.unique
    (h.leads_to held (by simp) fits fun target link => absurd link (plain target))
  subst there
  exact ⟨noSlash, (h.locateEntry_iff held).mpr ⟨checked, fits, rfl⟩, stands⟩

end Opens

theorem registryFileName?_eq_some_iff : registryFileName? (name, node) = some id ↔
    Utf8.encode id = name ∧ ∃ inode, node = .file inode := by
  cases node <;> simp [registryFileName?, Utf8.decode?_eq_some_iff]

/-- The names that a listing gives are those of the files in the directory. -/
theorem mem_registryFiles_iff (sound : fs.Sound) {ids : List String}
    (h : fs.registryFiles dir = .ok ids) :
    (ids = [] ∧ fs.list (Utf8.encode dir) = .error .notFound) ∨
      ∃ top, fs.locate (Utf8.encode dir) = .ok top ∧ fs.node? top = some .directory ∧
        ∀ id, id ∈ ids ↔ ∃ inode, fs.node? (Utf8.encode id :: top) = some (.file inode) := by
  unfold registryFiles at h
  split at h
  · rename_i entries e
    cases h
    obtain ⟨top, located, directory, rfl⟩ := list_eq_ok_iff.mp e
    refine .inr ⟨top, located, directory, fun id => ?_⟩
    simp only [mem_sort, List.mem_filterMap, Prod.exists, registryFileName?_eq_some_iff,
      mem_children_iff sound]
    constructor
    · rintro ⟨_, _, stands, rfl, inode, rfl⟩
      exact ⟨inode, stands⟩
    · rintro ⟨inode, stands⟩
      exact ⟨_, _, stands, rfl, inode, rfl⟩
  · rename_i e
    cases h
    exact .inl ⟨rfl, e⟩
  · cases h

theorem Sound.holdable (h : fs.Sound) (stands : fs.node? (Utf8.encode id :: top) = some node) :
    Holdable id := by
  obtain ⟨_, _, e, proper, plain, -⟩ := h.seated (mem_entries_of_node? (by simp) stands)
  obtain ⟨rfl, -⟩ := List.cons.inj e
  exact ⟨proper, plain⟩

theorem opens_of_mem_registryFiles (sound : fs.Sound) {ids : List String}
    (h : fs.registryFiles dir = .ok ids) (mem : id ∈ ids) :
    ∃ top inode, fs.Opens dir top ∧ Holdable id ∧
      fs.node? (Utf8.encode id :: top) = some (.file inode) := by
  obtain ⟨rfl, -⟩ | ⟨top, located, directory, ids_iff⟩ := mem_registryFiles_iff sound h
  · cases mem
  · obtain ⟨inode, stands⟩ := (ids_iff id).mp mem
    exact ⟨top, inode, .of_locate located directory, sound.holdable stands, stands⟩

theorem readRecords_eq_ok_iff {path : String} {locators : List Locator} :
    fs.readRecords path = .ok locators ↔ ∃ inode content,
      fs.inodeAt (Utf8.encode path) = .ok inode ∧
      Utf8.decode? (fs.content inode) = some content ∧ Record.parse content = .ok locators := by
  unfold readRecords
  split
  · rename_i e
    have : ∀ inode, fs.inodeAt (Utf8.encode path) ≠ .ok inode := fun inode e' => by
      simp [read, e', Except.map] at e
    simp [this]
  · rename_i bytes e
    obtain ⟨inode, stands, rfl⟩ := read_eq_ok_iff.mp e
    simp only [stands, Except.ok.injEq]
    split
    · rename_i undecoded
      simp [undecoded]
    · rename_i content decoded
      split
      · rename_i bad
        simp [decoded, bad]
      · rename_i parsed
        simp [decoded, parsed]

/-- Deleting a leftover file removes at most that file. -/
theorem alters_unlinkUnlocked {path : String} {gone : Place → Prop} {written : Nat → Prop}
    (h : ∀ inode, fs.inodeAt (Utf8.encode path) = .ok inode →
      HomeAt fs (Utf8.encode path) place inode) (goes : gone place) :
    Alters fs (fs.unlinkUnlocked path) gone written := by
  unfold unlinkUnlocked
  split
  · exact .refl fs
  · rename_i inode e
    have home := h inode e
    split
    · exact .refl fs
    · rw [home.unlink]
      exact .remove home.file goes

theorem contents_unlinkUnlocked (fs : FileSystem) (path : String) :
    (fs.unlinkUnlocked path).contents = fs.contents := by
  unfold unlinkUnlocked
  split
  · rfl
  · split
    · rfl
    · split
      · rename_i e
        obtain ⟨_, _, -, -, -, -, rfl⟩ := unlink_eq_ok_iff.mp e
        rfl
      · rfl

theorem Sound.unlinkUnlocked (h : fs.Sound) (path : String) : (fs.unlinkUnlocked path).Sound := by
  unfold FileSystem.unlinkUnlocked
  split
  · exact h
  · split
    · exact h
    · split
      · rename_i e
        exact h.unlink e
      · exact h

end InDoubt.FileSystem

import InDoubt.Proofs.Frame

/-!
What each operation on registries can do, said once. Creation either fails and changes at most the
tree, or enters one registry and claims its identifier. A release that is not the last changes one
count; the last one closes the registry, and gives its identifier up unless its file cannot be
deleted. Recovery of one file does nothing to the registries, or adopts one.
-/

namespace InDoubt.World

variable {w : World} {p : ProcessRef} {r : RegistryRef} {b : BranchRef}

/-- The world in which a created registry has been entered. -/
def enter (w : World) (p : ProcessRef) (files : FileSystem) (id path : String) (inode : Nat) :
    World :=
  ({ w with files, registries := w.registries ++ [⟨p, id, path, .created (some inode), 0⟩] } :
    World).updateProcess p fun proc => { proc with openIds := proc.openIds.insert id }

/-- A creation fails and leaves at most new directories behind, or it succeeds: the identifier was
free, and a new file has been entered at the path. -/
theorem createIn_cases (w : World) (p : ProcessRef) (dir : String) (xid : Xid) :
    (∃ f files, (files = w.files ∨ files = (w.files.makeDirectories (Utf8.encode dir)).2) ∧
      w.createIn p dir xid = (.error f, { w with files })) ∨
    ∃ tree inode made, xid.name ∉ (w.process p).openIds ∧
      w.files.makeDirectories (Utf8.encode dir) = (.ok (), tree) ∧
      tree.createNew (Utf8.encode (joinPath dir xid.name)) = .ok (inode, made) ∧
      w.createIn p dir xid = (.ok ⟨w.registries.length⟩,
        w.enter p (made.lock inode) xid.name (joinPath dir xid.name) inode) := by
  simp only [createIn]
  split
  · exact .inl ⟨_, w.files, .inl rfl, rfl⟩
  · rename_i free
    split
    · rename_i e files h
      exact .inl ⟨_, files, .inr (by rw [h]), rfl⟩
    · rename_i tree h
      split
      · exact .inl ⟨_, tree, .inr (by rw [h]), rfl⟩
      · rename_i inode made h'
        exact .inr ⟨tree, inode, made, free, h, h', rfl⟩

/-- A creation is refused at once while the process owns the identifier. -/
theorem createIn_of_mem {dir : String} {xid : Xid} (h : xid.name ∈ (w.process p).openIds) :
    w.createIn p dir xid = (.error (.createFailed (joinPath dir xid.name) .alreadyOpen), w) :=
  if_pos h

/-- A creation fails if the directory or the file cannot be made. -/
theorem createIn_of_failed {dir : String} {xid : Xid} {tree : FileSystem} {e : SystemError}
    (free : xid.name ∉ (w.process p).openIds)
    (failed : w.files.makeDirectories (Utf8.encode dir) = (.error e, tree) ∨
      w.files.makeDirectories (Utf8.encode dir) = (.ok (), tree) ∧
        tree.createNew (Utf8.encode (joinPath dir xid.name)) = .error e) :
    w.createIn p dir xid =
      (.error (.createFailed (joinPath dir xid.name) (.system e)), { w with files := tree }) := by
  rcases failed with made | ⟨made, new⟩
  · simp only [createIn, if_neg free, made]
  · simp only [createIn, if_neg free, made, new]

/-- A creation enters a registry with a new file if the directory and the file can be made. -/
theorem createIn_of_made {dir : String} {xid : Xid} {tree files : FileSystem} {inode : Nat}
    (free : xid.name ∉ (w.process p).openIds)
    (made : w.files.makeDirectories (Utf8.encode dir) = (.ok (), tree))
    (new : tree.createNew (Utf8.encode (joinPath dir xid.name)) = .ok (inode, files)) :
    w.createIn p dir xid = (.ok ⟨w.registries.length⟩,
      w.enter p (files.lock inode) xid.name (joinPath dir xid.name) inode) := by
  simp only [createIn, if_neg free, made, new]
  rfl

/-! Recording. -/

theorem registries_record (w : World) (r : RegistryRef) (l : Locator) :
    (w.record r l).2.registries =
      w.registries.modify r.index fun g => { g with count := g.count + 1 } := by
  unfold record; split <;> rfl

theorem processes_record (w : World) (r : RegistryRef) (l : Locator) :
    (w.record r l).2.processes = w.processes := by
  unfold record; split <;> rfl

theorem branches_record (w : World) (r : RegistryRef) (l : Locator) :
    (w.record r l).2.branches = w.branches := by
  unfold record; split <;> rfl

/-- What recording writes goes to the end of the file that the registry holds open, if any. -/
theorem files_record (w : World) (r : RegistryRef) (l : Locator) :
    (w.record r l).2.files =
      match (w.registry r).handle? with
      | some inode => w.files.appendTo inode (Utf8.encode (Record.encode l))
      | none => w.files := by
  unfold record Registry.handle?
  split <;> rename_i h <;> rw [h] <;> rfl

/-- Enlisting is recording, and one more branch if that succeeds. -/
theorem enlist_cases (w : World) (r : RegistryRef) (l : Locator) (node : String) :
    (∃ f, (w.record r l).1 = .error f ∧ w.enlist r l node = (.error f, (w.record r l).2)) ∨
    ((w.record r l).1 = .ok () ∧ w.enlist r l node = (.ok ⟨w.branches.length⟩,
      { (w.record r l).2 with branches := w.branches ++ [⟨l, node, r⟩] })) := by
  unfold enlist
  split
  · rename_i f v h
    exact .inl ⟨f, by rw [h], by rw [h]⟩
  · rename_i v h
    refine .inr ⟨by rw [h], ?_⟩
    have : v.branches = w.branches := by rw [← branches_record w r l, h]
    simp only [bind, addBranch, h, this]

theorem registries_enlist (w : World) (r : RegistryRef) (l : Locator) (node : String) :
    (w.enlist r l node).2.registries = (w.record r l).2.registries := by
  obtain ⟨_, -, e⟩ | ⟨-, e⟩ := enlist_cases w r l node <;> rw [e]

theorem processes_enlist (w : World) (r : RegistryRef) (l : Locator) (node : String) :
    (w.enlist r l node).2.processes = w.processes := by
  obtain ⟨_, -, e⟩ | ⟨-, e⟩ := enlist_cases w r l node <;> rw [e] <;> exact processes_record ..

theorem files_enlist (w : World) (r : RegistryRef) (l : Locator) (node : String) :
    (w.enlist r l node).2.files = (w.record r l).2.files := by
  obtain ⟨_, -, e⟩ | ⟨-, e⟩ := enlist_cases w r l node <;> rw [e]

theorem record_eq_ok_iff :
    (w.record r l).1 = .ok () ↔
      (w.registry r).origin = .recovered ∨ (w.registry r).handle?.isSome := by
  unfold record Registry.handle?
  split <;> rename_i h <;> simp [h]

/-! Releasing. -/

/-- The registry without its last branch, closed, in a world with these files. -/
def retire (w : World) (r : RegistryRef) (files : FileSystem) : World :=
  ({ w with files } : World).updateRegistry r fun g => { g.closed with count := 0 }

/-- A release that is not the last changes one count. -/
theorem releaseFrom_of_ne (h : (w.registry r).count ≠ 1) :
    w.releaseFrom r b = (.ok (),
      (w.updateRegistry r fun g => { g with count := g.count - 1 }).settle
        (w.registry r).owner b) := by
  simp only [releaseFrom, if_neg h]

theorem label_updateRegistry {f : Registry → Registry} (keeps : ∀ g, (f g).id = g.id) :
    (w.updateRegistry r f).label b = w.label b := by
  have same := part_updateRegistry (w := w) (r := r) Registry.id keeps (w.branch b).registry
  exact congrArg (fun id => "SubordinateResource \x7b location: " ++ (w.branch b).location.text ++
    ", node: " ++ (w.branch b).node ++ ", registry: " ++ id ++ " \x7d") same

theorem close_counted (h : (w.registry r).count = 1) :
    (w.updateRegistry r fun g => { g with count := g.count - 1 }).close r =
      w.retire r (w.files.unlock (w.registry r).handle?.toList) := by
  have hr : r.index < w.registries.length := lt_of_count_ne_zero (by omega)
  have counted := registry_updateRegistry_self hr fun g => { g with count := g.count - 1 }
  have once : (w.registries.modify r.index fun g => { g with count := g.count - 1 }).modify r.index
      Registry.closed = w.registries.modify r.index fun g => { g.closed with count := 0 } := by
    have one : w.registries[r.index].count = 1 := by
      simpa only [registry, List.getD_eq_getElem _ _ hr] using h
    apply List.ext_getElem?
    intro i
    by_cases hi : r.index = i
    · subst hi
      simp [hr, Registry.closed, one]
      split <;> simp_all
    · simp [List.getElem?_modify_ne _ _ hi]
  rw [close, counted]
  simp only [retire, updateRegistry, once]
  rfl

/-- The last release closes the registry. It gives the identifier up if the file has been deleted
or was gone. -/
theorem releaseFrom_of_eq (h : (w.registry r).count = 1) (b : BranchRef) :
    let g := w.registry r
    let files := w.files.unlock g.handle?.toList
    w.releaseFrom r b =
      match files.unlink (Utf8.encode g.path) with
      | .ok deleted => (.ok (), ((w.retire r deleted).unclaim g.owner g.id).2.settle g.owner b)
      | .error .notFound => (.ok (), ((w.retire r files).unclaim g.owner g.id).2.settle g.owner b)
      | .error e => (.error (.deleteFailed g.path (w.label b) (.system e)),
          (w.retire r files).settle g.owner b) := by
  have hr : r.index < w.registries.length := lt_of_count_ne_zero (by omega)
  have counted := registry_updateRegistry_self hr fun g => { g with count := g.count - 1 }
  simp only [releaseFrom, if_pos h, delete, close_counted h, counted, label_updateRegistry,
    implies_true]
  split <;> rename_i hu <;> simp only [retire, files_updateRegistry] at hu <;> rw [hu]
  · rfl
  · rfl
  · rename_i e ne
    cases e <;> first | exact absurd rfl ne | rfl

/-- The last release answers well if the file could be deleted or was gone. -/
theorem releaseFrom_eq_ok_iff (h : (w.registry r).count = 1) :
    let files := w.files.unlock (w.registry r).handle?.toList
    (w.releaseFrom r b).1 = .ok () ↔
      (∃ tree, files.unlink (Utf8.encode (w.registry r).path) = .ok tree) ∨
        files.unlink (Utf8.encode (w.registry r).path) = .error .notFound := by
  simp only [releaseFrom_of_eq h]
  split <;> rename_i e
  · simp [e]
  · simp [e]
  · rename_i error other
    have : error ≠ .notFound := other
    simp [e, this]

theorem length_registries_releaseFrom :
    (w.releaseFrom r b).2.registries.length = w.registries.length := by
  by_cases h : (w.registry r).count = 1
  · rw [releaseFrom_of_eq h]
    split <;> simp [settle, unclaim, retire]
  · simp [releaseFrom_of_ne h, settle]

theorem inDoubt_settle (b : BranchRef) : ((w.settle p b).process p).inDoubt =
    (w.process p).inDoubt.filter (· ≠ b) := by
  by_cases there : p.index < w.processes.length
  · rw [settle, process_updateProcess_self there]
  · rw [process_of_le (w := w) (Nat.le_of_not_lt there), process_of_le]
    · rfl
    · simpa [settle] using there

/-- The branch that is released is in doubt no longer. -/
theorem inDoubt_releaseFrom (owner : (w.registry r).owner = p) :
    ((w.releaseFrom r b).2.process p).inDoubt = (w.process p).inDoubt.filter (· ≠ b) := by
  have kept (files : FileSystem) (id : String) :
      (((w.retire r files).unclaim p id).2.process p).inDoubt = (w.process p).inDoubt := by
    refine part_updateProcess (w := w.retire r files) (·.inDoubt) ?_ p
    exact fun _ => rfl
  by_cases one : (w.registry r).count = 1
  · rw [releaseFrom_of_eq one, owner]
    split
    · rw [inDoubt_settle, kept]
    · rw [inDoubt_settle, kept]
    · exact inDoubt_settle b
  · rw [releaseFrom_of_ne one, owner]
    exact inDoubt_settle b

end InDoubt.World

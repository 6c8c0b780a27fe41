import InDoubt.Proofs.FileSystem.Holding

/-!
What the outcome of an operation on the directory of a log depends on. Making the directory and
unlinking look at entries only, not at contents or locks. In all trees in which a path leads to the
same directory a name in it is looked up with the same outcome, which is a failure for a name or a
path that is too long; where the path leads to no directory, it is a failure for every name.
-/

namespace InDoubt.FileSystem

variable {fs tree store : FileSystem} {place top : Place} {node : Node} {path : Bytes}
  {dir id : String} {last : AtLast} {links : Nat} {here : Place} {name : Bytes}
  {front more : List Bytes}

/-! Entries alone. -/

/-- The entries of one tree over the contents and the locks of another. -/
def restock (fs store : FileSystem) : FileSystem := { store with entries := fs.entries }

@[simp] theorem node?_restock : (fs.restock store).node? place = fs.node? place := rfl

theorem restock_eq (h : store.entries = fs.entries) : fs.restock store = store := by
  rw [restock, ← h]

theorem walk_congr (same : ∀ place, tree.node? place = fs.node? place) :
    walk tree last links here front = walk fs last links here front := by
  have step (atl : Place → List Bytes → Except SystemError Place) (here : Place)
      (front : List Bytes) : descend tree atl last here front = descend fs atl last here front := by
    induction front generalizing here with
    | nil => rfl
    | cons name rest ih => simp only [descend, same, ih]
  induction links generalizing here front with
  | zero => exact step _ here front
  | succ fewer ih =>
      have inner : walk tree last fewer = walk fs last fewer := funext fun _ => funext fun _ => ih
      rw [walk, walk, inner]
      exact step _ here front

theorem locateEntry_congr (same : ∀ place, tree.node? place = fs.node? place) :
    tree.locateEntry path = fs.locateEntry path := by
  simp only [locateEntry, walk_congr same]

theorem makeDirectory_restock (fs store : FileSystem) (path : List Bytes) :
    (fs.restock store).makeDirectory path = (fs.makeDirectory path).map (·.restock store) := by
  simp only [makeDirectory, walk_congr (fun _ => node?_restock)]
  cases walk fs .keep maxLinks [] path with
  | error e => rfl
  | ok place =>
      simp only [bind, Except.bind, node?_restock]
      cases fs.node? place <;> rfl

theorem settleDirectory_restock (fs store : FileSystem) (path : List Bytes) :
    (fs.restock store).settleDirectory path =
      ((fs.settleDirectory path).1, (fs.settleDirectory path).2.restock store) := by
  have there : (fs.restock store).isDirectory path = fs.isDirectory path := by
    simp only [isDirectory, walk_congr (fun _ => node?_restock), node?_restock]
    rfl
  unfold settleDirectory
  rw [makeDirectory_restock, there]
  cases fs.makeDirectory path with
  | ok made => rfl
  | error e =>
      simp only [Except.map]
      split <;> rfl

theorem makeDirectoriesBelow_restock (fs store : FileSystem) (above path : List Bytes) :
    makeDirectoriesBelow (fs.restock store) above path =
      ((makeDirectoriesBelow fs above path).1,
        (makeDirectoriesBelow fs above path).2.restock store) := by
  induction above generalizing path with
  | nil =>
      unfold makeDirectoriesBelow
      rw [makeDirectory_restock, settleDirectory_restock]
      cases fs.makeDirectory path with
      | ok made => rfl
      | error e => cases e <;> rfl
  | cons name higher ih =>
      have upper := ih (name :: higher).reverse
      unfold makeDirectoriesBelow
      rw [makeDirectory_restock, settleDirectory_restock]
      cases fs.makeDirectory path with
      | ok made => rfl
      | error e =>
          cases e <;> try rfl
          simp only [Except.map, upper]
          obtain ⟨outcome, made⟩ := makeDirectoriesBelow fs higher (name :: higher).reverse
          cases outcome with
          | ok => exact settleDirectory_restock ..
          | error => rfl

/-- Making a directory depends on the entries, and changes nothing else. -/
theorem makeDirectories_restock (fs store : FileSystem) (path : Bytes) :
    (fs.restock store).makeDirectories path =
      ((fs.makeDirectories path).1, (fs.makeDirectories path).2.restock store) := by
  unfold makeDirectories
  split
  · rfl
  · split
    · rfl
    · exact makeDirectoriesBelow_restock ..

/-- What is made is made of the contents and the locks that were there. -/
theorem restock_makeDirectories (fs : FileSystem) (path : Bytes) :
    (fs.makeDirectories path).2.restock fs = (fs.makeDirectories path).2 := by
  have whole := makeDirectories_restock fs fs path
  rw [restock_eq rfl] at whole
  exact (congrArg Prod.snd whole).symm

/-! Paths into a directory. -/

/-- A path leads to a directory in every tree that has the directories and the links on it. -/
theorem Leads.grow (h : Leads fs .follow links here front place)
    (dir : fs.node? place = some .directory)
    (stands : ∀ {place node}, fs.node? place = some node → (∀ inode, node ≠ .file inode) →
      tree.node? place = some node) : Leads tree .follow links here front place := by
  induction h with
  | done => exact .done
  | stay void _ ih => exact .stay void (ih dir)
  | up _ ih => exact .up (ih dir)
  | enter proper plain fits found _ ih =>
      exact .enter proper plain fits (stands found (by simp)) (ih dir)
  | stop _ _ found => exact absurd rfl (found _ dir).1
  | pass proper plain fits found through _ ih =>
      exact .pass proper plain fits (stands found (by simp)) through (ih dir)

/-- Following a path past a directory on it is following the rest from there. -/
theorem Leads.walk_append (h : Leads fs .follow links here front place)
    (dir : fs.node? place = some .directory) (creating : last ≠ .followToCreate)
    (nonempty : more ≠ []) :
    ∃ left, walk fs last links here (front ++ more) = walk fs last left place more := by
  induction h with
  | @done links => exact ⟨links, rfl⟩
  | stay void _ ih =>
      obtain ⟨left, e⟩ := ih dir
      refine ⟨left, ?_⟩
      rwa [List.cons_append, walk_eq_descend, descend, if_pos void, ← walk_eq_descend]
  | up _ ih =>
      obtain ⟨left, e⟩ := ih dir
      refine ⟨left, ?_⟩
      rwa [List.cons_append, walk_eq_descend, descend, if_neg (by decide), if_pos rfl,
        ← walk_eq_descend]
  | enter proper _ fits found _ ih =>
      obtain ⟨left, e⟩ := ih dir
      refine ⟨left, ?_⟩
      rw [List.cons_append, walk_eq_descend, descend_proper proper, if_neg (creating ·.1),
        if_neg (Nat.not_lt.mpr fits), found]
      rwa [walk_eq_descend] at e
  | stop _ _ found => exact absurd rfl (found _ dir).1
  | @pass links here name rest place target proper _ fits found _ _ ih =>
      obtain ⟨left, e⟩ := ih dir
      refine ⟨left, ?_⟩
      rw [List.cons_append, walk_eq_descend, descend_proper proper, if_neg (creating ·.1),
        if_neg (Nat.not_lt.mpr fits), found]
      simp only [List.append_eq_nil_iff, nonempty, and_false, false_and, if_false]
      rwa [List.append_assoc] at e

namespace Opens

theorem grow (h : fs.Opens dir top)
    (stands : ∀ {place node}, fs.node? place = some node → (∀ inode, node ≠ .file inode) →
      tree.node? place = some node) : tree.Opens dir top :=
  ⟨h.leads.grow h.directory stands, stands h.directory (by simp)⟩

theorem unique {other : Place} (h : fs.Opens dir top) (k : fs.Opens dir other) : top = other :=
  h.leads.unique k.leads

/-- A name that is too long for the system is not looked up, whatever its directory. -/
theorem walk_of_long (h : fs.Opens dir top) (held : Holdable id)
    (creating : last ≠ .followToCreate) (long : maxName < (Utf8.encode id).length) :
    walk fs last maxLinks [] (names (Utf8.encode (joinPath dir id))) = .error .nameTooLong := by
  obtain ⟨left, e⟩ :=
    h.leads.walk_append h.directory creating (List.cons_ne_nil (Utf8.encode id) [])
  rw [names_joinPath dir held.2 held.1.1, e, walk_eq_descend, descend_proper held.1,
    if_neg (creating ·.1), if_pos long]

/-- Where a name in the directory is looked up is a matter of the path alone. -/
theorem locateEntry_eq (h : fs.Opens dir top) (held : Holdable id) :
    fs.locateEntry (Utf8.encode (joinPath dir id)) =
      checkPath (Utf8.encode (joinPath dir id)) >>= fun () =>
        if maxName < (Utf8.encode id).length then .error .nameTooLong
        else .ok (Utf8.encode id :: top) := by
  unfold locateEntry
  cases checkPath (Utf8.encode (joinPath dir id)) with
  | error e => rfl
  | ok =>
      simp only [bind, Except.bind]
      split
      · exact h.walk_of_long held (by simp) ‹_›
      · rename_i fits
        exact walk_eq_ok_iff.mpr (h.leads_to held (by simp) (Nat.le_of_not_lt fits) fun _ _ => rfl)

theorem locateEntry_eq_of_opens (h : fs.Opens dir top) (k : tree.Opens dir top)
    (held : Holdable id) : fs.locateEntry (Utf8.encode (joinPath dir id)) =
      tree.locateEntry (Utf8.encode (joinPath dir id)) := by
  rw [h.locateEntry_eq held, k.locateEntry_eq held]

/-- Making a directory that is there succeeds, unless its path is none, and changes nothing. -/
theorem makeDirectories (h : fs.Opens dir top)
    (checked : checkPath (Utf8.encode dir) = .ok () ∨ Utf8.encode dir = []) :
    fs.makeDirectories (Utf8.encode dir) = (.ok (), fs) := by
  unfold FileSystem.makeDirectories
  split
  · rfl
  · rename_i nonempty
    rw [checked.resolve_right nonempty]
    exact makeDirectoriesBelow_of_isDirectory (isDirectory_iff.mpr ⟨top, h.leads, h.directory⟩)

/-- If a name can be looked up in a directory, its path leads to it. -/
theorem of_locateEntry (sound : fs.Sound) (held : Holdable id)
    (e : fs.locateEntry (Utf8.encode (joinPath dir id)) = .ok place) :
    (checkPath (Utf8.encode dir) = .ok () ∨ Utf8.encode dir = []) ∧ ∃ top, fs.Opens dir top := by
  obtain ⟨checked, leads⟩ := locateEntry_eq_ok_iff.mp e
  rw [names_joinPath dir held.2 held.1.1] at leads
  obtain ⟨top, leads', directory⟩ := leads.split (by simp) sound rfl
  refine ⟨?_, top, leads', directory⟩
  by_cases named : Utf8.encode dir = []
  · exact .inr named
  · exact .inl (checkPath_of_joinPath named checked)

end Opens

/-! A file that has been removed. -/

/-- A path that ends where nothing stands leads to no file. -/
theorem inodeAt_of_vacant (located : fs.locateEntry path = .ok place)
    (plain : endsInSlash path = false) (vacant : fs.node? place = none) :
    fs.inodeAt path = .error .notFound := by
  obtain ⟨checked, leads⟩ := locateEntry_eq_ok_iff.mp located
  have located : fs.locate path = .ok place := by
    refine locate_eq_ok_iff.mpr ⟨checked, ?_⟩
    rw [namesToDirectory_of_not plain]
    exact leads.follow (by simp [vacant])
  simp only [FileSystem.inodeAt, located, bind, Except.bind, vacant]

namespace HomeAt

variable {inode : Nat}

/-- There is nothing where it was, and its path still ends there. -/
theorem removed (h : HomeAt fs path place inode) : (fs.remove place).locateEntry path = .ok place ∧
    (fs.remove place).node? place = none := by
  have alters : Alters fs (fs.remove place) (· = place) fun _ => False := .remove h.file rfl
  exact ⟨locateEntry_kept alters.ways h.located,
    node?_remove.trans (if_pos ⟨rfl, ne_root_of_node? h.file (by simp)⟩)⟩

/-- Its path leads to no file. -/
theorem inodeAt_remove (h : HomeAt fs path place inode) :
    (fs.remove place).inodeAt path = .error .notFound :=
  inodeAt_of_vacant h.removed.1 h.plain h.removed.2

/-- It can be created again in its directory, which is still there. -/
theorem createNew_remove (h : HomeAt fs (Utf8.encode (joinPath dir id)) place inode)
    (sound : fs.Sound) (held : Holdable id) :
    (fs.remove place).makeDirectories (Utf8.encode dir) = (.ok (), fs.remove place) ∧
      (fs.remove place).createNew (Utf8.encode (joinPath dir id)) =
        .ok ((fs.remove place).contents.length, (fs.remove place).putNewFile place []) := by
  have alters : Alters fs (fs.remove place) (· = place) fun _ => False := .remove h.file rfl
  obtain ⟨checked, top, opens⟩ := Opens.of_locateEntry sound held h.located
  obtain ⟨there, nothing⟩ := h.removed
  exact ⟨(opens.kept alters.ways).makeDirectories checked,
    createNew_eq_ok_iff.mpr ⟨place, there, nothing, rfl, rfl⟩⟩

end HomeAt

end InDoubt.FileSystem

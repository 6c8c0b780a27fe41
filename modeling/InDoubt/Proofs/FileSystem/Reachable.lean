import InDoubt.Proofs.FileSystem.Sound

/-!
Soundness of all trees. A walk ends at the root or where an entry may stand, so every change that
is made at the end of a walk leaves a sound tree, and so does everything that others do to the
files.
-/

namespace InDoubt.FileSystem

variable {fs tree made : FileSystem} {last : AtLast} {links : Nat} {here place : Place}
  {names : List Bytes} {path : Bytes}

theorem slash_not_mem_of_mem_namesToDirectory {name : Bytes} (h : name ∈ namesToDirectory path) :
    slash ∉ name := by
  unfold namesToDirectory at h
  split at h
  · rcases List.mem_append.mp h with h | h
    · exact slash_not_mem_of_mem_names h
    · obtain rfl : name = finalSlash := by simpa using h
      simp [finalSlash]
  · exact slash_not_mem_of_mem_names h

/-- The target of a link starts at a directory. -/
theorem directory_startOf (dir : fs.node? here = some .directory) :
    fs.node? (startOf here path) = some .directory := by
  unfold startOf
  split
  · rfl
  · exact dir

theorem Leads.seat (h : Leads fs last links here names place) (sound : fs.Sound)
    (dir : fs.node? here = some .directory) (plain : ∀ name ∈ names, slash ∉ name) :
    place = [] ∨ fs.Seat place := by
  induction h with
  | @done _ here =>
      by_cases root : here = []
      · exact .inl root
      · exact .inr (sound.seated (mem_entries_of_node? root dir))
  | stay _ _ ih => exact ih dir fun name hn => plain name (List.mem_cons_of_mem _ hn)
  | up _ ih => exact ih (sound.tail dir) fun name hn => plain name (List.mem_cons_of_mem _ hn)
  | enter _ _ _ found _ ih => exact ih found fun name hn => plain name (List.mem_cons_of_mem _ hn)
  | @stop _ here name proper _ _ =>
      exact .inr ⟨name, here, rfl, proper, plain name List.mem_cons_self, dir⟩
  | pass _ _ _ _ _ _ ih =>
      refine ih (directory_startOf dir) fun name hn => ?_
      rcases List.mem_append.mp hn with hn | hn
      · exact slash_not_mem_of_mem_namesToDirectory hn
      · exact plain name (List.mem_cons_of_mem _ hn)

theorem Leads.seat_of_ne_root (h : Leads fs last links [] names place) (sound : fs.Sound)
    (plain : ∀ name ∈ names, slash ∉ name) (inside : place ≠ []) : fs.Seat place :=
  (h.seat sound rfl plain).resolve_left inside

theorem ne_root_of_node? {node : Option Node} (h : fs.node? place = node)
    (other : node ≠ some .directory) : place ≠ [] := by
  rintro rfl
  exact other h.symm

namespace Sound

theorem makeDirectory (h : fs.Sound) (plain : ∀ name ∈ names, slash ∉ name)
    (e : fs.makeDirectory names = .ok made) : made.Sound := by
  obtain ⟨place, leads, free, rfl⟩ := makeDirectory_eq_ok_iff.mp e
  exact h.put (leads.seat_of_ne_root h plain (ne_root_of_node? free (by simp))) free (by simp)

theorem makeDirectories (h : fs.Sound) (path : Bytes) : (fs.makeDirectories path).2.Sound :=
  makeDirectories_induction (fun partway h => h.makeDirectory partway.plain) h

theorem createNew (h : fs.Sound) {inode : Nat} (e : fs.createNew path = .ok (inode, made)) :
    made.Sound := by
  obtain ⟨place, located, free, -, rfl⟩ := createNew_eq_ok_iff.mp e
  have leads := (locateEntry_eq_ok_iff.mp located).2
  have seat := leads.seat_of_ne_root h (fun _ => slash_not_mem_of_mem_names)
    (ne_root_of_node? free (by simp))
  exact h.putNewFile seat free []

theorem unlink (h : fs.Sound) (e : fs.unlink path = .ok tree) : tree.Sound := by
  obtain ⟨place, node, -, stands, other, -, rfl⟩ := unlink_eq_ok_iff.mp e
  exact h.remove (h.leaf_of_node? (by simpa [stands] using other))

theorem write (h : fs.Sound) {bytes : Bytes} (e : fs.write path bytes = .ok tree) :
    tree.Sound := by
  obtain ⟨place, located, ⟨inode, -, rfl⟩ | ⟨free, rfl⟩⟩ := write_eq_ok_iff.mp e
  · exact h.setContent bytes
  · have leads := (locateToCreate_eq_ok_iff.mp located).2
    have seat := leads.seat_of_ne_root h (fun _ => slash_not_mem_of_mem_namesToDirectory)
      (ne_root_of_node? free (by simp))
    exact h.putNewFile seat free bytes

theorem append (h : fs.Sound) {bytes : Bytes} (e : fs.append path bytes = .ok tree) :
    tree.Sound := by
  obtain ⟨inode, -, rfl⟩ := append_eq_ok_iff.mp e
  exact h.setContent _

theorem makeLink (h : fs.Sound) {target : Bytes} (e : fs.makeLink path target = .ok tree) :
    tree.Sound := by
  obtain ⟨place, located, free, rfl⟩ := makeLink_eq_ok e
  have leads := (locateEntry_eq_ok_iff.mp located).2
  have seat := leads.seat_of_ne_root h (fun _ => slash_not_mem_of_mem_names)
    (ne_root_of_node? free (by simp))
  exact h.put seat free (by simp)

theorem removeDirectory (h : fs.Sound) (e : fs.removeDirectory path = .ok tree) : tree.Sound := by
  obtain ⟨place, childless, rfl⟩ := removeDirectory_eq_ok e
  exact h.remove (leaf_of_children childless)

theorem removeTree (h : fs.Sound) (path : Bytes) : (fs.removeTree path).2.Sound := by
  unfold FileSystem.removeTree
  split
  · exact h
  · rename_i place _
    split
    · exact h
    · exact h
    · rename_i stands
      exact h.remove (h.leaf_of_node? (by simp [stands]))
    · unfold removeFull
      have cleared := h.clear place
      simp only
      split
      · rename_i e
        exact cleared.removeDirectory e
      · exact cleared
      · exact cleared

/-- Nothing stands below what a move may replace. -/
theorem leaf_of_replaceFault (h : fs.Sound) {node : Node} (e : fs.replaceFault node place = none)
    {name : Bytes} {node' : Node} : (name :: place, node') ∉ fs.entries := by
  by_cases placed : fs.node? place = some .directory
  · cases node <;> simp only [replaceFault, placed] at e
    · by_cases childless : fs.children place = []
      · exact leaf_of_children childless
      · simp [childless] at e
    · cases e
    · cases e
  · exact h.leaf_of_node? placed

theorem rename (h : fs.Sound) {newPath : Bytes} (e : fs.rename path newPath = .ok tree) :
    tree.Sound := by
  obtain rfl | ⟨source, target, node, located, apart, inside, fits, rfl⟩ := rename_eq_ok e
  · exact h
  · have target_ne : target ≠ [] := by
      rintro rfl
      simp [isAtOrBelow] at inside
    have leads := (locateEntry_eq_ok_iff.mp located).2
    have seat := leads.seat_of_ne_root h (fun _ => slash_not_mem_of_mem_names) target_ne
    refine h.move (h.leaf_of_replaceFault fits) (fun below => ?_) seat
    rw [isAtOrBelow, List.isSuffixOf_iff_suffix.mpr below] at apart
    cases apart

theorem orBefore (h : fs.Sound) {outcome : Except SystemError FileSystem}
    (sound : ∀ {tree}, outcome = .ok tree → tree.Sound) : (fs.orBefore outcome).2.Sound := by
  unfold FileSystem.orBefore
  split
  · exact sound rfl
  · exact h

theorem apply (h : fs.Sound) (change : FileStep) : (fs.apply change).2.Sound := by
  cases change with
  | write path bytes =>
      have ready := h.makeDirectories (pathAbove path)
      exact ready.orBefore ready.write
  | append path bytes => exact h.orBefore h.append
  | makeDirectories path => exact h.makeDirectories path
  | unlink path => exact h.orBefore h.unlink
  | removeTree path => exact h.removeTree path
  | rename path newPath => exact h.orBefore h.rename
  | link path target => exact h.orBefore h.makeLink

/-- Whatever others have done to the files, the tree is sound. -/
theorem applyAll (h : fs.Sound) (changes : List FileStep) : (fs.applyAll changes).Sound := by
  induction changes generalizing fs with
  | nil => exact h
  | cons change rest ih => exact ih (h.apply change)

end Sound

end InDoubt.FileSystem

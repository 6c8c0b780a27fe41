import InDoubt.Proofs.FileSystem.Listing

/-!
What is written into files that exist. A file is written by the path that leads to it, but what is
written goes to its inode, and no other inode changes (`Spares`). Renaming, unlinking, links and
directories write to no inode at all, and nothing that is done to the files takes or frees a lock.
-/

namespace InDoubt.FileSystem

variable {fs tree other : FileSystem} {written written' : Nat → Prop} {place : Place}
  {inode i : Nat} {path bytes : Bytes}

/-- The inode of the file that a path leads to for writing, if a file is there. -/
def inodeToWrite? (fs : FileSystem) (path : Bytes) : Option Nat :=
  match fs.locateToCreate path with
  | .error _ => none
  | .ok place =>
      match fs.node? place with
      | some (.file inode) => some inode
      | _ => none

/-- The inode that a change writes to, if it writes to a file that exists. -/
def written? (fs : FileSystem) : FileStep → Option Nat
  | .write path _ => (fs.makeParents path).inodeToWrite? path
  | .append path _ => (fs.inodeAt path).toOption
  | _ => none

/-- The inodes that changes write to, one change after the other. -/
def writtenIn (fs : FileSystem) : List FileStep → List Nat
  | [] => []
  | change :: rest => (fs.written? change).toList ++ writtenIn (fs.apply change).2 rest

/-- From one tree to another, the locks are the same and only some inodes are written. -/
structure Spares (fs tree : FileSystem) (written : Nat → Prop) : Prop where
  numbered : fs.contents.length ≤ tree.contents.length
  locked : tree.locked = fs.locked
  content : ∀ {inode}, inode < fs.contents.length → ¬written inode →
    tree.content inode = fs.content inode

namespace Spares

theorem of_eq (locked : tree.locked = fs.locked) (contents : tree.contents = fs.contents) :
    Spares fs tree written :=
  ⟨Nat.le_of_eq (congrArg List.length contents.symm), locked,
    fun _ _ => congrArg (List.getD · _ _) contents⟩

theorem refl (fs : FileSystem) : Spares fs fs written := .of_eq rfl rfl

theorem mono (h : Spares fs tree written) (imp : ∀ {inode}, written inode → written' inode) :
    Spares fs tree written' :=
  { h with content := fun lt still => h.content lt fun wr => still (imp wr) }

theorem trans (h : Spares fs tree written) (k : Spares tree other written) :
    Spares fs other written where
  numbered := Nat.le_trans h.numbered k.numbered
  locked := k.locked.trans h.locked
  content lt still :=
    (k.content (Nat.lt_of_lt_of_le lt h.numbered) still).trans (h.content lt still)

theorem isLocked (h : Spares fs tree written) (inode : Nat) :
    tree.isLocked inode = fs.isLocked inode := by
  simp only [FileSystem.isLocked, h.locked]

theorem setContent (inode : Nat) (bytes : Bytes) (writes : written inode) :
    Spares fs (fs.setContent inode bytes) written where
  numbered := by simp [FileSystem.setContent]
  locked := rfl
  content _ still := content_setContent_of_ne fun e => still (e ▸ writes)

theorem putNewFile (place : Place) (bytes : Bytes) :
    Spares fs (fs.putNewFile place bytes) written where
  numbered := by simp [FileSystem.putNewFile]
  locked := rfl
  content lt _ := content_putNewFile lt

theorem makeDirectories (fs : FileSystem) (path : Bytes) :
    Spares fs (fs.makeDirectories path).2 written := by
  refine makeDirectories_induction (I := fun tree => Spares fs tree written) ?_ (.refl fs)
  intro tree made names _ h e
  obtain ⟨place, -, -, rfl⟩ := makeDirectory_eq_ok_iff.mp e
  exact h.trans (.of_eq rfl rfl)

theorem write (e : fs.write path bytes = .ok tree) (writes : ∀ {inode},
    fs.inodeToWrite? path = some inode → written inode) : Spares fs tree written := by
  obtain ⟨place, located, ⟨inode, stands, rfl⟩ | ⟨-, rfl⟩⟩ := write_eq_ok_iff.mp e
  · exact .setContent inode bytes (writes (by simp [inodeToWrite?, located, stands]))
  · exact .putNewFile place bytes

theorem append (e : fs.append path bytes = .ok tree) (writes : ∀ {inode},
    (fs.inodeAt path).toOption = some inode → written inode) : Spares fs tree written := by
  obtain ⟨inode, reached, rfl⟩ := append_eq_ok_iff.mp e
  exact .setContent inode _ (writes (by simp [reached, Except.toOption]))

theorem unlink (e : fs.unlink path = .ok tree) : Spares fs tree written := by
  obtain ⟨place, -, -, -, -, -, rfl⟩ := unlink_eq_ok_iff.mp e
  exact .of_eq rfl rfl

theorem makeLink {target : Bytes} (e : fs.makeLink path target = .ok tree) :
    Spares fs tree written := by
  obtain ⟨place, -, -, rfl⟩ := makeLink_eq_ok e
  exact .of_eq rfl rfl

theorem rename {newPath : Bytes} (e : fs.rename path newPath = .ok tree) :
    Spares fs tree written := by
  obtain rfl | ⟨source, target, _, -, -, -, -, rfl⟩ := rename_eq_ok e
  · exact .refl _
  · exact .of_eq rfl rfl

theorem removeTree (fs : FileSystem) (path : Bytes) :
    Spares fs (fs.removeTree path).2 written := by
  unfold FileSystem.removeTree
  split
  · exact .refl fs
  · split
    · exact .refl fs
    · exact .refl fs
    · exact .of_eq rfl rfl
    · unfold removeFull
      simp only
      split
      · rename_i e
        obtain ⟨place, -, rfl⟩ := removeDirectory_eq_ok e
        exact .of_eq rfl rfl
      · exact .of_eq rfl rfl
      · exact .of_eq rfl rfl

theorem orBefore {outcome : Except SystemError FileSystem}
    (h : ∀ {tree}, outcome = .ok tree → Spares fs tree written) :
    Spares fs (fs.orBefore outcome).2 written := by
  unfold FileSystem.orBefore
  split
  · exact h rfl
  · exact .refl fs

/-- A change writes to the inode that it leads to, if to any. -/
theorem apply (fs : FileSystem) (change : FileStep) :
    Spares fs (fs.apply change).2 (fs.written? change = some ·) := by
  cases change with
  | write path bytes =>
      have ready : Spares fs (fs.makeParents path) (fs.written? (.write path bytes) = some ·) :=
        .makeDirectories ..
      exact ready.trans (.orBefore fun e => .write e id)
  | append path bytes => exact .orBefore fun e => .append e id
  | makeDirectories path => exact .makeDirectories ..
  | unlink path => exact .orBefore .unlink
  | removeTree path => exact .removeTree ..
  | rename path newPath => exact .orBefore .rename
  | link path target => exact .orBefore .makeLink

theorem applyAll (fs : FileSystem) (changes : List FileStep) :
    Spares fs (fs.applyAll changes) (· ∈ fs.writtenIn changes) := by
  induction changes generalizing fs with
  | nil => exact .refl fs
  | cons change rest ih =>
      have first : Spares fs (fs.apply change).2 (· ∈ fs.writtenIn (change :: rest)) :=
        (apply fs change).mono fun here => List.mem_append_left _ (by simp [here])
      exact first.trans ((ih (fs.apply change).2).mono (List.mem_append_right _))

theorem unlinkUnlocked (fs : FileSystem) (path : String) :
    Spares fs (fs.unlinkUnlocked path) written := by
  unfold FileSystem.unlinkUnlocked
  split
  · exact .refl fs
  · split
    · exact .refl fs
    · split
      · exact .unlink ‹_›
      · exact .refl fs

end Spares

/-! Locks. -/

theorem isLocked_lock : (fs.lock inode).isLocked i = true ↔ i = inode ∨ fs.isLocked i = true := by
  simp [isLocked, lock]

theorem isLocked_unlock (inodes : List Nat) :
    (fs.unlock inodes).isLocked inode = true ↔ fs.isLocked inode = true ∧ inode ∉ inodes := by
  simp [isLocked, unlock]

end InDoubt.FileSystem

import InDoubt.Proofs.FileSystem.Paths

/-!
When the operations on files and directories succeed, and what they leave. Making directories with
all that is missing above them is a series of makings of one directory each, so what one of these
keeps is kept by all (`makeDirectories_induction`).
-/

namespace InDoubt.FileSystem

variable {fs tree made : FileSystem} {path bytes : Bytes} {place : Place} {inode : Nat}

theorem checked_walk_eq_ok_iff {last : AtLast} {names : List Bytes} :
    (do checkPath path; walk fs last maxLinks [] names : Except SystemError Place) = .ok place ↔
      checkPath path = .ok () ∧ Leads fs last maxLinks [] names place := by
  simp only [bind_eq_ok_iff, walk_eq_ok_iff]
  exact ⟨fun ⟨_, h⟩ => h, fun h => ⟨(), h⟩⟩

theorem locate_eq_ok_iff : fs.locate path = .ok place ↔
    checkPath path = .ok () ∧ Leads fs .follow maxLinks [] (namesToDirectory path) place :=
  checked_walk_eq_ok_iff

theorem locateToCreate_eq_ok_iff : fs.locateToCreate path = .ok place ↔
    checkPath path = .ok () ∧ Leads fs .followToCreate maxLinks [] (namesToDirectory path) place :=
  checked_walk_eq_ok_iff

theorem locateEntry_eq_ok_iff : fs.locateEntry path = .ok place ↔
    checkPath path = .ok () ∧ Leads fs .keep maxLinks [] (names path) place :=
  checked_walk_eq_ok_iff

theorem inodeAt_eq_ok_iff : fs.inodeAt path = .ok inode ↔
    ∃ place, fs.locate path = .ok place ∧ fs.node? place = some (.file inode) := by
  simp only [inodeAt, bind_eq_ok_iff]
  refine exists_congr fun place => and_congr_right fun _ => ?_
  split <;> rename_i stands <;> simp [stands]

theorem read_eq_ok_iff : fs.read path = .ok bytes ↔
    ∃ inode, fs.inodeAt path = .ok inode ∧ fs.content inode = bytes := by
  unfold read
  cases fs.inodeAt path <;> simp [Except.map]

theorem append_eq_ok_iff : fs.append path bytes = .ok tree ↔
    ∃ inode, fs.inodeAt path = .ok inode ∧ fs.appendTo inode bytes = tree := by
  unfold append
  cases fs.inodeAt path <;> simp [Except.map]

/-- What is written replaces the content of a file, or is that of a new one. -/
theorem write_eq_ok_iff : fs.write path bytes = .ok tree ↔
    ∃ place, fs.locateToCreate path = .ok place ∧
      ((∃ inode, fs.node? place = some (.file inode) ∧ fs.setContent inode bytes = tree) ∨
        fs.node? place = none ∧ fs.putNewFile place bytes = tree) := by
  simp only [write, bind_eq_ok_iff]
  refine exists_congr fun place => and_congr_right fun _ => ?_
  split <;> rename_i stands <;> simp [stands]

/-- A new file is entered where the path leads and nothing stands, with a new inode. -/
theorem createNew_eq_ok_iff : fs.createNew path = .ok (inode, made) ↔
    ∃ place, fs.locateEntry path = .ok place ∧ fs.node? place = none ∧
      inode = fs.contents.length ∧ made = fs.putNewFile place [] := by
  simp only [createNew, bind_eq_ok_iff]
  refine exists_congr fun place => and_congr_right fun _ => ?_
  split <;> rename_i placed <;> simp [placed, eq_comm]

/-- Unlinking removes the one entry that the path names, which is no directory. -/
theorem unlink_eq_ok_iff : fs.unlink path = .ok tree ↔
    ∃ place node, fs.locateEntry path = .ok place ∧ fs.node? place = some node ∧
      node ≠ .directory ∧ endsInSlash path = false ∧ fs.remove place = tree := by
  simp only [unlink, bind_eq_ok_iff]
  refine exists_congr fun place => ?_
  cases stands : fs.node? place with
  | none => simp
  | some node => cases node <;> simp [guard_eq_ok_iff]

/-- A link is entered where the path leads and nothing stands. -/
theorem makeLink_eq_ok {target : Bytes} (e : fs.makeLink path target = .ok tree) :
    ∃ place, fs.locateEntry path = .ok place ∧ fs.node? place = none ∧
      fs.put place (.link target) = tree := by
  simp only [makeLink, bind_eq_ok_iff] at e
  obtain ⟨-, -, -, -, -, -, place, located, e⟩ := e
  split at e
  · cases e
  · rename_i free
    exact ⟨place, located, free, Except.ok.inj (guard_eq_ok_iff.mp e).2⟩

/-- Only an empty directory is removed. -/
theorem removeDirectory_eq_ok (e : fs.removeDirectory path = .ok tree) :
    ∃ place, fs.children place = [] ∧ fs.remove place = tree := by
  simp only [removeDirectory, bind_eq_ok_iff] at e
  obtain ⟨-, -, e⟩ := e
  split at e
  · cases e
  · simp only [guard_eq_ok_iff, bind_eq_ok_iff] at e
    obtain ⟨-, -, place, -, e⟩ := e
    split at e
    · cases e
    · split at e
      · rename_i childless
        exact ⟨place, childless, Except.ok.inj e⟩
      · cases e
    · cases e

/-- Renaming moves an entry to another place that is not below it, nor it below that, and where
nothing stands that it may not replace. -/
theorem rename_eq_ok {newPath : Bytes} (e : fs.rename path newPath = .ok tree) :
    fs = tree ∨ ∃ source target node, fs.locateEntry newPath = .ok target ∧
      isAtOrBelow target source = false ∧ isAtOrBelow source target = false ∧
      fs.replaceFault node target = none ∧ fs.move source target = tree := by
  simp only [rename, bind_eq_ok_iff, guard_eq_ok_iff] at e
  obtain ⟨-, -, -, -, -, -, -, -, -, source, -, e⟩ := e
  split at e
  · cases e
  · rename_i node _
    simp only [bind_eq_ok_iff, guard_eq_ok_iff] at e
    obtain ⟨target, located, -, e⟩ := e
    split at e
    · exact .inl (Except.ok.inj e)
    · simp only [guard_eq_ok_iff, Bool.not_eq_true] at e
      obtain ⟨apart, inside, e⟩ := e
      split at e
      · cases e
      · rename_i fits
        exact .inr ⟨source, target, node, located, apart, inside, fits, Except.ok.inj e⟩

theorem makeDirectory_eq_ok_iff {path : List Bytes} : fs.makeDirectory path = .ok made ↔
    ∃ place, Leads fs .keep maxLinks [] path place ∧ fs.node? place = none ∧
      made = fs.put place .directory := by
  simp only [makeDirectory, bind_eq_ok_iff, walk_eq_ok_iff]
  refine exists_congr fun place => and_congr_right fun _ => ?_
  split <;> rename_i stands <;> simp [stands, eq_comm]

theorem isDirectory_iff {path : List Bytes} : fs.isDirectory path = true ↔
    ∃ place, Leads fs .follow maxLinks [] path place ∧ fs.node? place = some .directory := by
  simp only [isDirectory, ← walk_eq_ok_iff]
  split
  · rename_i e
    simp [e]
  · rename_i e
    simp [e]

/-! Making directories. -/

theorem settleDirectory_induction {I : FileSystem → Prop} {path : List Bytes}
    (step : ∀ {made}, fs.makeDirectory path = .ok made → I made) (h : I fs) :
    I (fs.settleDirectory path).2 := by
  unfold settleDirectory
  split
  · exact step ‹_›
  · split <;> exact h

/-- What is made on the way to a directory: the path itself, or names that it begins with, the dots
left out. -/
def Partway (bytes : Bytes) (path : List Bytes) : Prop :=
  path = names bytes ∨ path <+: (names bytes).filter (· ≠ dot)

theorem Partway.plain {path : List Bytes} (h : Partway bytes path) :
    ∀ name ∈ path, slash ∉ name := by
  intro name mem
  rcases h with rfl | begins
  · exact slash_not_mem_of_mem_names mem
  · exact slash_not_mem_of_mem_names (List.mem_filter.mp (begins.subset mem)).1

theorem makeDirectoriesBelow_induction {I : FileSystem → Prop} {asked : List Bytes → Prop}
    {above path : List Bytes}
    (step : ∀ {fs made path}, asked path → I fs → fs.makeDirectory path = .ok made → I made)
    (last : asked path) (upper : ∀ higher, higher <:+ above → asked higher.reverse) (h : I fs) :
    I (makeDirectoriesBelow fs above path).2 := by
  induction above generalizing path with
  | nil =>
      unfold makeDirectoriesBelow
      split
      · exact settleDirectory_induction (step last h) h
      · rename_i e
        cases e
      · exact settleDirectory_induction (step last h) h
  | cons name higher ih =>
      have before : I (makeDirectoriesBelow fs higher (name :: higher).reverse).2 :=
        ih (upper _ (List.suffix_refl _)) fun _ ends => upper _ (ends.trans (List.suffix_cons ..))
      unfold makeDirectoriesBelow
      split
      · exact settleDirectory_induction (step last h) h
      · rename_i e
        cases e
        split
        · rename_i made e
          rw [e] at before
          exact settleDirectory_induction (step last before) before
        · rename_i e
          rw [e] at before
          exact before
      · exact settleDirectory_induction (step last h) h

theorem makeDirectories_induction {I : FileSystem → Prop}
    (step : ∀ {fs made path}, Partway bytes path → I fs → fs.makeDirectory path = .ok made → I made)
    (h : I fs) : I (fs.makeDirectories bytes).2 := by
  unfold makeDirectories
  split
  · exact h
  · split
    · exact h
    · refine makeDirectoriesBelow_induction step (.inl rfl) (fun higher ends => .inr ?_) h
      have begins : higher.reverse <+: ((names bytes).filter (· ≠ dot)).dropLast := by
        rw [List.tail_reverse] at ends
        have := List.reverse_prefix.mpr ends
        rwa [List.reverse_reverse] at this
      exact begins.trans (List.dropLast_prefix _)

end InDoubt.FileSystem

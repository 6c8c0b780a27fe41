import InDoubt.Proofs.FileSystem.Reachable

/-!
What the operations of a log leave alone in a tree. They make directories and new files where
nothing stands, write to some inodes and remove some files, and do nothing else: all other files
stay where they are with what they hold (`Alters`). A path that leads to a file which has not been
removed therefore still leads to it (`HomeAt.kept`). Even where files are removed at will, an inode
that is at no place never is at one again (`Onward.lost`).
-/

namespace InDoubt.FileSystem

variable {fs tree made other : FileSystem} {gone gone' : Place → Prop}
  {written written' : Nat → Prop} {place : Place} {inode : Nat} {path bytes : Bytes}

/-- From one tree to another, files come to stand only where they stood or with new inodes. -/
structure Onward (fs tree : FileSystem) : Prop where
  numbered : fs.contents.length ≤ tree.contents.length
  old : ∀ {place inode}, tree.node? place = some (.file inode) →
    fs.node? place = some (.file inode) ∨ fs.contents.length ≤ inode

namespace Onward

theorem refl (fs : FileSystem) : Onward fs fs := ⟨Nat.le_refl _, .inl⟩

theorem trans (h : Onward fs tree) (k : Onward tree other) : Onward fs other where
  numbered := Nat.le_trans h.numbered k.numbered
  old stands := by
    rcases k.old stands with earlier | new
    · exact h.old earlier
    · exact .inr (Nat.le_trans h.numbered new)

theorem remove (fs : FileSystem) (place : Place) : Onward fs (fs.remove place) where
  numbered := Nat.le_refl _
  old stands := by
    rw [node?_remove] at stands
    split at stands
    · cases stands
    · exact .inl stands

theorem unlink (e : fs.unlink path = .ok tree) : Onward fs tree := by
  obtain ⟨place, -, -, -, -, -, rfl⟩ := unlink_eq_ok_iff.mp e
  exact remove fs place

/-- An inode that is at no place never is at one again. -/
theorem lost (h : Onward fs tree) (lt : inode < fs.contents.length)
    (nowhere : ∀ place, fs.node? place ≠ some (.file inode)) :
    inode < tree.contents.length ∧ ∀ place, tree.node? place ≠ some (.file inode) := by
  refine ⟨Nat.lt_of_lt_of_le lt h.numbered, fun place stands => ?_⟩
  rcases h.old stands with earlier | new
  · exact nowhere place earlier
  · exact Nat.not_lt.mpr new lt

end Onward

/-- From one tree to another, at most files at some places are gone and some inodes are written. -/
structure Alters (fs tree : FileSystem) (gone : Place → Prop) (written : Nat → Prop) : Prop
    extends Onward fs tree where
  ways : KeepsWays fs tree
  file : ∀ {place inode}, fs.node? place = some (.file inode) → ¬gone place →
    tree.node? place = some (.file inode)
  content : ∀ {inode}, inode < fs.contents.length → ¬written inode →
    tree.content inode = fs.content inode

namespace Alters

theorem of_eq (entries : tree.entries = fs.entries) (contents : tree.contents = fs.contents) :
    Alters fs tree gone written where
  ways := .of_node? (node?_congr entries)
  file stands _ := (node?_congr entries _).trans stands
  old stands := .inl ((node?_congr entries _).symm.trans stands)
  numbered := Nat.le_of_eq (congrArg List.length contents.symm)
  content _ _ := congrArg (List.getD · _ _) contents

theorem refl (fs : FileSystem) : Alters fs fs gone written := .of_eq rfl rfl

theorem mono (h : Alters fs tree gone written) (places : ∀ {place}, gone place → gone' place)
    (inodes : ∀ {inode}, written inode → written' inode) : Alters fs tree gone' written' :=
  { h with
    file := fun stands stays => h.file stands fun g => stays (places g)
    content := fun lt still => h.content lt fun wr => still (inodes wr) }

theorem trans (h : Alters fs tree gone written) (k : Alters tree other gone written) :
    Alters fs other gone written where
  toOnward := h.toOnward.trans k.toOnward
  ways := h.ways.trans k.ways
  file stands stays := k.file (h.file stands stays) stays
  content lt still :=
    (k.content (Nat.lt_of_lt_of_le lt h.numbered) still).trans (h.content lt still)

theorem setContent (inode : Nat) (bytes : Bytes) (writes : written inode) :
    Alters fs (fs.setContent inode bytes) gone written where
  ways := .of_node? fun _ => rfl
  file stands _ := stands
  old := .inl
  numbered := by simp [FileSystem.setContent]
  content _ still := content_setContent_of_ne fun e => still (e ▸ writes)

theorem putDirectory (free : fs.node? place = none) :
    Alters fs (fs.put place .directory) gone written where
  ways := .put (by simp [free]) (by simp)
  file {other inode} stands _ := by
    rw [node?_put, if_neg (ne_root_of_node? stands (by simp)), if_neg, stands]
    rintro rfl
    rw [free] at stands
    cases stands
  old {other inode} stands := by
    rw [node?_put] at stands
    split at stands
    · cases stands
    · split at stands
      · cases stands
      · exact .inl stands
  numbered := Nat.le_refl _
  content _ _ := rfl

theorem putNewFile (free : fs.node? place = none) :
    Alters fs (fs.putNewFile place bytes) gone written where
  ways := by
    have put : KeepsWays fs (fs.put place (.file fs.contents.length)) :=
      .put (by simp [free]) (by simp)
    exact put.trans (.of_node? fun _ => node?_putNewFile)
  file {other inode} stands _ := by
    rw [node?_putNewFile, node?_put, if_neg (ne_root_of_node? stands (by simp)), if_neg, stands]
    rintro rfl
    rw [free] at stands
    cases stands
  old {other inode} stands := by
    rw [node?_putNewFile, node?_put] at stands
    split at stands
    · cases stands
    · split at stands
      · cases stands
        exact .inr (Nat.le_refl _)
      · exact .inl stands
  numbered := by simp [FileSystem.putNewFile]
  content lt _ := content_putNewFile lt

theorem remove (stands : fs.node? place = some (.file inode)) (goes : gone place) :
    Alters fs (fs.remove place) gone written where
  toOnward := .remove fs place
  ways := .remove stands
  file {other i} stands stays := by
    rw [node?_remove, if_neg, stands]
    rintro ⟨rfl, -⟩
    exact stays goes
  content _ _ := rfl

theorem makeDirectories (fs : FileSystem) (path : Bytes) :
    Alters fs (fs.makeDirectories path).2 gone written := by
  refine makeDirectories_induction (I := fun tree => Alters fs tree gone written) ?_ (.refl fs)
  intro tree made names _ h e
  obtain ⟨place, -, free, rfl⟩ := makeDirectory_eq_ok_iff.mp e
  exact h.trans (.putDirectory free)

theorem createNew (e : fs.createNew path = .ok (inode, made)) : Alters fs made gone written := by
  obtain ⟨place, -, free, -, rfl⟩ := createNew_eq_ok_iff.mp e
  exact .putNewFile free

end Alters

/-! Files at the ends of paths. -/

/-- The path names an entry at a place, and that is a file. -/
structure HomeAt (fs : FileSystem) (path : Bytes) (place : Place) (inode : Nat) : Prop where
  plain : endsInSlash path = false
  located : fs.locateEntry path = .ok place
  file : fs.node? place = some (.file inode)

theorem locateEntry_kept (ways : KeepsWays fs tree) (h : fs.locateEntry path = .ok place) :
    tree.locateEntry path = .ok place := by
  rw [locateEntry_eq_ok_iff] at h ⊢
  exact ⟨h.1, h.2.kept ways⟩

namespace HomeAt

theorem kept (h : HomeAt fs path place inode) (alters : Alters fs tree gone written)
    (stays : ¬gone place) : HomeAt tree path place inode :=
  ⟨h.plain, locateEntry_kept alters.ways h.located, alters.file h.file stays⟩

theorem congr (h : HomeAt fs path place inode) (entries : tree.entries = fs.entries) :
    HomeAt tree path place inode :=
  ⟨h.plain, locateEntry_kept (.of_node? (node?_congr entries)) h.located,
    (node?_congr entries _).trans h.file⟩

theorem inodeAt (h : HomeAt fs path place inode) : fs.inodeAt path = .ok inode := by
  obtain ⟨checked, leads⟩ := locateEntry_eq_ok_iff.mp h.located
  refine inodeAt_eq_ok_iff.mpr ⟨place, locate_eq_ok_iff.mpr ⟨checked, ?_⟩, h.file⟩
  rw [namesToDirectory_of_not h.plain]
  exact leads.follow (by simp [h.file])

theorem unlink (h : HomeAt fs path place inode) : fs.unlink path = .ok (fs.remove place) :=
  unlink_eq_ok_iff.mpr ⟨place, _, h.located, h.file, by simp, h.plain, rfl⟩

/-- A file that has been created is at the end of its path, which does not end in a slash. -/
theorem of_createNew (e : fs.createNew path = .ok (inode, made))
    (plain : endsInSlash path = false) :
    ∃ place, fs.node? place = none ∧ HomeAt made path place inode ∧ made.content inode = [] := by
  have alters : Alters fs made (fun _ => False) fun _ => False := .createNew e
  obtain ⟨place, located, free, rfl, rfl⟩ := createNew_eq_ok_iff.mp e
  refine ⟨place, free, ⟨plain, locateEntry_kept alters.ways located, ?_⟩, content_putNewFile_new⟩
  rw [node?_putNewFile, node?_put, if_neg (ne_root_of_node? free (by simp)), if_pos rfl]

/-- What the path names is its last name in some directory. -/
theorem last_name {dir id : String} (h : HomeAt fs (Utf8.encode (joinPath dir id)) place inode)
    (proper : Proper (Utf8.encode id)) (plain : slash ∉ Utf8.encode id) :
    place.head? = some (Utf8.encode id) := by
  have leads := (locateEntry_eq_ok_iff.mp h.located).2
  have ends : (names (Utf8.encode (joinPath dir id))).getLast? = some (Utf8.encode id) := by
    simp [names_joinPath dir plain proper.1]
  obtain ⟨above, rfl⟩ := (leads.at_last proper ends).2 rfl
  rfl

end HomeAt

end InDoubt.FileSystem

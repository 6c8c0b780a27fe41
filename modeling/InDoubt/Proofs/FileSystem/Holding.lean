import InDoubt.Proofs.FileSystem.Listing
import InDoubt.Proofs.FileSystem.Making
import InDoubt.Proofs.Records
import InDoubt.Proofs.Sorting

/-!
Directories of registry files. A directory that has been made is what its path leads to. What it
holds is told by the records under each identifier (`Holding`): its files, and no others, are at the
ends of their paths and hold these records. Creating, appending to and removing a file under an
identifier change the records under that identifier only.
-/

namespace InDoubt.FileSystem

variable {fs tree made : FileSystem} {place top : Place} {inode : Nat} {path : List Bytes}
  {dir id : String} {gone : Place → Prop} {written : Nat → Prop}

/-! Making the directory. -/

/-- A directory that has been made is where its path leads. -/
theorem Opens.of_makeDirectories (nonempty : Utf8.encode dir ≠ [])
    (e : fs.makeDirectories (Utf8.encode dir) = (.ok (), tree)) :
    checkPath (Utf8.encode dir) = .ok () ∧ ∃ top, tree.Opens dir top := by
  unfold makeDirectories at e
  rw [if_neg nonempty] at e
  split at e
  · cases e
  · rename_i checked
    obtain ⟨top, leads, directory⟩ := isDirectory_iff.mp (isDirectory_of_makeDirectoriesBelow e)
    exact ⟨checked, top, leads, directory⟩

theorem length_contents_makeDirectories (fs : FileSystem) (path : Bytes) :
    (fs.makeDirectories path).2.contents.length = fs.contents.length := by
  refine makeDirectories_induction (I := fun tree => tree.contents.length = fs.contents.length)
    ?_ rfl
  intro tree made names _ h e
  obtain ⟨place, -, -, rfl⟩ := makeDirectory_eq_ok_iff.mp e
  exact h

/-! Listing the directory. -/

/-- No two entries below a place have the same name. -/
theorem nodup_children (sound : fs.Sound) : ((fs.children top).map Prod.fst).Nodup := by
  have distinct := sound.distinct
  rw [List.nodup_iff_pairwise_ne, List.pairwise_map] at distinct
  rw [List.nodup_iff_pairwise_ne, List.pairwise_map]
  unfold children
  rw [List.pairwise_filterMap]
  refine distinct.imp ?_
  intro (place, node) (other, node') apart child found child' found' e
  simp only at found found' apart
  split at found
  · split at found'
    · simp only [Option.ite_none_right_eq_some, Option.some.injEq] at found found'
      obtain ⟨rfl, rfl⟩ := found
      obtain ⟨rfl, rfl⟩ := found'
      rename_i there there'
      cases there
      cases there'
      exact apart (congrArg (· :: _) e)
    · cases found'
  · cases found

/-- The registry files of a directory are listed once each, in increasing order. -/
theorem increasing_registryFiles (sound : fs.Sound) {ids : List String}
    (h : fs.registryFiles dir = .ok ids) : ids.Pairwise (· ≤ ·) ∧ ids.Nodup := by
  unfold registryFiles at h
  split at h
  · rename_i entries e
    cases h
    obtain ⟨top, -, -, rfl⟩ := list_eq_ok_iff.mp e
    refine ⟨?_, (sort_perm _ _).nodup_iff.mpr ?_⟩
    · have sorted := pairwise_sort_names id ((fs.children top).filterMap registryFileName?)
      rwa [List.map_id] at sorted
    · have distinct : ((fs.children top).map Prod.fst).Nodup := nodup_children sound
      rw [List.nodup_iff_pairwise_ne, List.pairwise_map] at distinct
      rw [List.nodup_iff_pairwise_ne, List.pairwise_filterMap]
      refine distinct.imp ?_
      intro (name, node) (name', node') apart id found id' found' e
      subst e
      rw [registryFileName?_eq_some_iff] at found found'
      exact apart (found.1.symm.trans found'.1)
  · cases h
    exact ⟨.nil, .nil⟩
  · cases h

/-- A path that leads to a directory is listed with the names of the files there. -/
theorem Opens.registryFiles (sound : fs.Sound) (h : fs.Opens dir top)
    (checked : checkPath (Utf8.encode dir) = .ok ()) :
    ∃ ids, fs.registryFiles dir = .ok ids ∧
      ∀ id, id ∈ ids ↔ ∃ inode, fs.node? (Utf8.encode id :: top) = some (.file inode) := by
  have listed : fs.list (Utf8.encode dir) = .ok (fs.children top) :=
    list_eq_ok_iff.mpr ⟨top, h.locate checked, h.directory, rfl⟩
  have found : fs.registryFiles dir =
      .ok (sort (fun a b => a ≤ b) ((fs.children top).filterMap registryFileName?)) := by
    unfold FileSystem.registryFiles
    rw [listed]
  refine ⟨_, found, ?_⟩
  obtain ⟨-, missing⟩ | ⟨top', located, -, ids_iff⟩ := mem_registryFiles_iff sound found
  · rw [listed] at missing
    cases missing
  · rw [h.locate checked] at located
    cases located
    exact ids_iff

/-! What a directory holds. -/

/-- The bytes of a file with records. -/
def recordBytes (ls : List Locator) : Bytes := Utf8.encode (Record.contentOf ls)

@[simp] theorem recordBytes_nil : recordBytes [] = [] := rfl

theorem recordBytes_append (ls more : List Locator) :
    recordBytes (ls ++ more) = recordBytes ls ++ recordBytes more := by
  simp [recordBytes, Record.contentOf_append]

theorem recordBytes_singleton (l : Locator) : recordBytes [l] = Utf8.encode (Record.encode l) := by
  simp [recordBytes, Record.contentOf]

/-- Records that were written to a file are read. -/
theorem readRecords_of_content {path : String} {ls : List Locator}
    (reached : fs.inodeAt (Utf8.encode path) = .ok inode)
    (content : fs.content inode = recordBytes ls) (parsed : ∀ l ∈ ls, l.Parsed) :
    fs.readRecords path = .ok (ls.map Locator.reread) := by
  refine readRecords_eq_ok_iff.mpr ⟨inode, Record.contentOf ls, reached, ?_, ?_⟩
  · rw [content]
    exact Utf8.decode?_encode _
  · exact Record.parse_contentOf parsed

/-- Different identifiers are different names. -/
theorem eq_of_place_eq {other : String} (h : Utf8.encode id :: top = Utf8.encode other :: top) :
    id = other :=
  Utf8.encode_injective (List.cons.inj h).1

/-- The files of a directory are at the ends of their paths and hold the records under their names;
wherever there are records there is a file. -/
structure Holding (fs : FileSystem) (dir : String) (top : Place) (records : String → List Locator) :
    Prop where
  opens : fs.Opens dir top
  checked : checkPath (Utf8.encode dir) = .ok ()
  file : ∀ {id inode}, fs.node? (Utf8.encode id :: top) = some (.file inode) →
    HomeAt fs (Utf8.encode (joinPath dir id)) (Utf8.encode id :: top) inode ∧
      fs.content inode = recordBytes (records id)
  kept : ∀ {id}, records id ≠ [] →
    ∃ inode, fs.node? (Utf8.encode id :: top) = some (.file inode)

namespace Holding

variable {records records' : String → List Locator} {l : Locator}

/-- What does not touch the records leaves them. -/
theorem alter (h : Holding fs dir top records) (alters : Alters fs tree gone fun _ => False)
    (sound : tree.Sound) (size : tree.contents.length = fs.contents.length)
    (spares : ∀ {id}, records id ≠ [] → ¬gone (Utf8.encode id :: top)) :
    Holding tree dir top records := by
  have earlier {place : Place} {inode : Nat} (stands : tree.node? place = some (.file inode)) :
      fs.node? place = some (.file inode) := by
    refine (alters.old stands).resolve_right ?_
    intro new
    have lt := sound.lt stands
    omega
  refine ⟨h.opens.kept alters.ways, h.checked, ?_, ?_⟩
  · intro id inode stands
    obtain ⟨home, content⟩ := h.file (earlier stands)
    have lt : inode < fs.contents.length := size ▸ sound.lt stands
    refine ⟨⟨home.plain, locateEntry_kept alters.ways home.located, stands⟩, ?_⟩
    rw [alters.content lt not_false, content]
  · intro id filled
    obtain ⟨inode, stands⟩ := h.kept filled
    exact ⟨inode, alters.file stands (spares filled)⟩

theorem congr (h : Holding fs dir top records) (entries : tree.entries = fs.entries)
    (contents : tree.contents = fs.contents) : Holding tree dir top records where
  opens := h.opens.kept (.of_node? (node?_congr entries))
  checked := h.checked
  file stands := by
    obtain ⟨home, content⟩ := h.file ((node?_congr entries _).symm.trans stands)
    refine ⟨home.congr entries, ?_⟩
    rw [← content]
    exact congrArg (List.getD · _ _) contents
  kept filled := by
    obtain ⟨inode, stands⟩ := h.kept filled
    exact ⟨inode, (node?_congr entries _).trans stands⟩

/-- A new file is empty, and nothing was recorded under its name. -/
theorem create (h : Holding fs dir top records) (held : Holdable id) (sound : fs.Sound)
    (e : fs.createNew (Utf8.encode (joinPath dir id)) = .ok (inode, made)) :
    Holding made dir top records ∧ records id = [] := by
  obtain ⟨place, located, free, rfl, rfl⟩ := createNew_eq_ok_iff.mp e
  obtain ⟨-, -, rfl⟩ := (h.opens.locateEntry_iff held).mp located
  have alters : Alters fs (fs.putNewFile (Utf8.encode id :: top) []) (fun _ => False)
      fun _ => False := .putNewFile free
  have nothing : records id = [] := by
    by_contra filled
    obtain ⟨inode, stands⟩ := h.kept filled
    rw [free] at stands
    cases stands
  refine ⟨⟨h.opens.kept alters.ways, h.checked, ?_, ?_⟩, nothing⟩
  · intro other inode stands
    have there := stands
    rw [node?_putNewFile, node?_put, if_neg (List.cons_ne_nil _ _)] at there
    split at there
    · rename_i same
      obtain rfl : other = id := eq_of_place_eq same
      cases there
      refine ⟨⟨endsInSlash_joinPath dir held.2 held.1.1, ?_, stands⟩, ?_⟩
      · exact locateEntry_kept alters.ways located
      · rw [content_putNewFile_new, nothing]
        rfl
    · obtain ⟨home, content⟩ := h.file there
      refine ⟨⟨home.plain, locateEntry_kept alters.ways home.located, stands⟩, ?_⟩
      rw [alters.content (sound.lt there) not_false, content]
  · intro other filled
    obtain ⟨inode, stands⟩ := h.kept filled
    exact ⟨inode, alters.file stands not_false⟩

/-- A record is written at the end of a file. -/
theorem append (h : Holding fs dir top records) (sound : fs.Sound)
    (stands : fs.node? (Utf8.encode id :: top) = some (.file inode))
    (self : records' id = records id ++ [l]) (others : ∀ {other}, other ≠ id →
      records' other = records other) :
    Holding (fs.appendTo inode (Utf8.encode (Record.encode l))) dir top records' := by
  refine ⟨⟨h.opens.leads.kept (.of_node? fun _ => rfl), h.opens.directory⟩, h.checked, ?_, ?_⟩
  · intro other i there
    have there : fs.node? (Utf8.encode other :: top) = some (.file i) := there
    obtain ⟨home, content⟩ := h.file there
    refine ⟨home.congr rfl, ?_⟩
    by_cases same : other = id
    · subst same
      obtain rfl : i = inode := by
        rw [stands] at there
        cases there
        rfl
      rw [content_appendTo_self (sound.lt stands), content, self]
      simp [recordBytes, Record.contentOf_concat]
    · have apart : i ≠ inode := by
        rintro rfl
        exact same (eq_of_place_eq (sound.eq_of_file there stands))
      rw [content_appendTo_of_ne apart, content, others same]
  · intro other filled
    by_cases same : other = id
    · exact same ▸ ⟨inode, stands⟩
    · exact h.kept (others same ▸ filled)

/-- A file is removed with its records. -/
theorem remove (h : Holding fs dir top records) (sound : fs.Sound)
    (stands : fs.node? (Utf8.encode id :: top) = some (.file inode)) (self : records' id = [])
    (others : ∀ {other}, other ≠ id → records' other = records other) :
    Holding (fs.remove (Utf8.encode id :: top)) dir top records' := by
  have alters : Alters fs (fs.remove (Utf8.encode id :: top)) (· = Utf8.encode id :: top)
      fun _ => False := .remove stands rfl
  refine ⟨h.opens.kept alters.ways, h.checked, ?_, ?_⟩
  · intro other i there
    have before := there
    rw [node?_remove] at before
    split at before
    · cases before
    · rename_i apart
      obtain ⟨home, content⟩ := h.file before
      have ne : other ≠ id := by
        rintro rfl
        exact apart ⟨rfl, List.cons_ne_nil _ _⟩
      refine ⟨⟨home.plain, locateEntry_kept alters.ways home.located, there⟩, ?_⟩
      rw [alters.content (sound.lt before) not_false, content, others ne]
  · intro other filled
    have ne : other ≠ id := by
      rintro rfl
      exact filled self
    obtain ⟨i, there⟩ := h.kept (others ne ▸ filled)
    exact ⟨i, alters.file there fun same => ne (eq_of_place_eq same)⟩

/-- What a file holds is read. -/
theorem readRecords (h : Holding fs dir top records)
    (faithful : ∀ l ∈ records id, l.Faithful)
    (stands : fs.node? (Utf8.encode id :: top) = some (.file inode)) :
    fs.readRecords (joinPath dir id) = .ok (records id) := by
  obtain ⟨home, content⟩ := h.file stands
  rw [readRecords_of_content home.inodeAt content fun l mem => (faithful l mem).parsed,
    Record.map_reread faithful]

end Holding

end InDoubt.FileSystem

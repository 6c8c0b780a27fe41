import InDoubt.Proofs.FileSystem.Making

/-!
All that making a directory does to a tree, whether it succeeds or fails on the way: what was there
is still there, and in front of it stand new directories, each at the end of a part of the path
(`paves_makeDirectories`).
-/

namespace InDoubt.FileSystem

variable {fs tree other made : FileSystem} {bytes : Bytes} {place : Place} {path : List Bytes}

/-- The place is on the way to a directory: some names that its path begins with lead there. Dots on
the path do not count as names. -/
def OnWay (fs : FileSystem) (bytes : Bytes) (place : Place) : Prop :=
  ∃ front, front <+: (names bytes).filter (· ≠ dot) ∧ Leads fs .follow maxLinks [] front place

/-- From one tree to another, directories have been made on the way to one where nothing stood, and
nothing else has been done. -/
structure Paves (bytes : Bytes) (fs tree : FileSystem) : Prop where
  entries : ∃ places : List Place, tree.entries = places.map (·, .directory) ++ fs.entries ∧
    places.Nodup ∧ ∀ place ∈ places, fs.node? place = none ∧ tree.OnWay bytes place
  contents : tree.contents = fs.contents
  locked : tree.locked = fs.locked

theorem OnWay.kept (h : fs.OnWay bytes place) (ways : KeepsWays fs tree) :
    tree.OnWay bytes place := by
  obtain ⟨front, begins, leads⟩ := h
  exact ⟨front, begins, leads.kept ways⟩

/-- A directory where a part of the path leads is on the way. -/
theorem Partway.onWay (h : Partway bytes path) (leads : Leads fs .follow maxLinks [] path place)
    (dir : fs.node? place = some .directory) : fs.OnWay bytes place := by
  rcases h with rfl | begins
  · exact ⟨_, List.prefix_refl _, leads.undot dir (.filter _)⟩
  · exact ⟨path, begins, leads⟩

/-- Where nothing stands, putting an entry displaces none. -/
theorem entries_put_of_free {node : Node} (free : fs.node? place = none) :
    (fs.put place node).entries = (place, node) :: fs.entries := by
  have inside : place ≠ [] := ne_root_of_node? free (by simp)
  rw [node?_of_ne inside, List.lookup_eq_none_iff] at free
  have others : fs.entries.filter (·.1 ≠ place) = fs.entries :=
    List.filter_eq_self.mpr fun entry mem => decide_eq_true (bne_iff_ne.mp (free entry mem)).symm
  rw [put, remove, others]

theorem node?_of_entries {places : List Place}
    (e : tree.entries = places.map (·, .directory) ++ fs.entries) :
    tree.node? place = if place ∈ places then some .directory else fs.node? place := by
  by_cases root : place = []
  · rw [root, node?_root, node?_root, ite_self]
  · rw [node?_of_ne root, node?_of_ne root, e]
    clear e
    induction places with
    | nil => simp
    | cons first rest ih =>
        rw [List.map_cons, List.cons_append, lookup_cons_eq, ih]
        by_cases here : place = first <;> simp [here]

namespace Paves

theorem refl (bytes : Bytes) (fs : FileSystem) : Paves bytes fs fs :=
  ⟨⟨[], rfl, List.nodup_nil, nofun⟩, rfl, rfl⟩

theorem node? {node : Node} (h : Paves bytes fs tree) (stands : fs.node? place = some node) :
    tree.node? place = some node := by
  obtain ⟨places, e, -, new⟩ := h.entries
  rw [node?_of_entries e, if_neg, stands]
  intro mem
  rw [(new place mem).1] at stands
  cases stands

theorem ways (h : Paves bytes fs tree) : KeepsWays fs tree := by
  obtain ⟨places, e, -, new⟩ := h.entries
  refine ⟨h.node?, ⟨h.node?, fun stands => ?_⟩⟩
  rw [node?_of_entries e] at stands
  split at stands
  · cases stands
  · exact stands

theorem free (h : Paves bytes fs tree) (free : tree.node? place = none) :
    fs.node? place = none := by
  cases stands : fs.node? place with
  | none => rfl
  | some node => exact (h.node? stands).symm.trans free

/-- Making one more directory where nothing stands. -/
theorem put (h : Paves bytes fs tree) (free : tree.node? place = none)
    (onWay : (tree.put place .directory).OnWay bytes place) :
    Paves bytes fs (tree.put place .directory) := by
  have ways : KeepsWays tree (tree.put place .directory) := .put (by simp [free]) (by simp)
  obtain ⟨places, e, distinct, new⟩ := h.entries
  have first : place ∉ places := by
    intro mem
    rw [node?_of_entries e, if_pos mem] at free
    cases free
  refine ⟨⟨place :: places, ?_, List.nodup_cons.mpr ⟨first, distinct⟩, ?_⟩, h.contents, h.locked⟩
  · rw [entries_put_of_free free, e]
    rfl
  · intro other mem
    rcases List.mem_cons.mp mem with rfl | mem
    · exact ⟨h.free free, onWay⟩
    · exact ⟨(new other mem).1, (new other mem).2.kept ways⟩

theorem makeDirectory (h : Paves bytes fs tree) (partway : Partway bytes path)
    (e : tree.makeDirectory path = .ok made) : Paves bytes fs made := by
  obtain ⟨place, leads, free, rfl⟩ := makeDirectory_eq_ok_iff.mp e
  have inside : place ≠ [] := ne_root_of_node? free (by simp)
  have there : (tree.put place .directory).node? place = some .directory := by
    rw [node?_put, if_neg inside, if_pos rfl]
  have ways : KeepsWays tree (tree.put place .directory) := .put (by simp [free]) (by simp)
  have follows := (leads.kept ways).follow (by simp [there])
  exact h.put free (partway.onWay follows there)

end Paves

/-- Making a directory makes at most directories on the way to it. -/
theorem paves_makeDirectories (fs : FileSystem) (bytes : Bytes) :
    Paves bytes fs (fs.makeDirectories bytes).2 :=
  makeDirectories_induction (I := Paves bytes fs) (fun partway h => h.makeDirectory partway)
    (.refl bytes fs)

end InDoubt.FileSystem

import InDoubt.FileSystem.Outside
import Mathlib.Data.List.GetD
import Mathlib.Tactic.Common

/-!
What stands at a place, and what an inode holds, after an entry has been put or removed or a content
written. The root always is a directory, whatever the entries say.
-/

namespace InDoubt.FileSystem

variable {fs : FileSystem} {place other : Place} {node : Node} {inode i : Nat} {bytes : Bytes}

@[simp] theorem node?_root (fs : FileSystem) : fs.node? [] = some .directory := rfl

theorem node?_congr {tree : FileSystem} (h : tree.entries = fs.entries) (place : Place) :
    tree.node? place = fs.node? place := by
  simp only [node?, h]

theorem node?_of_ne (h : place ≠ []) : fs.node? place = fs.entries.lookup place :=
  if_neg h

theorem mem_entries_of_node? (h : place ≠ []) (stands : fs.node? place = some node) :
    (place, node) ∈ fs.entries := by
  rw [node?_of_ne h, List.lookup_eq_some_iff] at stands
  obtain ⟨before, after, e, -⟩ := stands
  simp [e]

theorem lookup_cons_eq (entries : List (Place × Node)) (place other : Place) (node : Node) :
    ((place, node) :: entries).lookup other =
      if other = place then some node else entries.lookup other := by
  by_cases h : other = place
  · simp [h]
  · simp [List.lookup_cons, h, beq_eq_false_iff_ne.mpr h]

theorem lookup_filter_ne (entries : List (Place × Node)) (place other : Place) :
    (entries.filter (·.1 ≠ place)).lookup other =
      if other = place then none else entries.lookup other := by
  induction entries with
  | nil => simp
  | cons entry rest ih =>
      obtain ⟨p, node⟩ := entry
      rw [List.filter_cons, lookup_cons_eq]
      by_cases h : p = place
      · subst h
        by_cases h' : other = p
        · simpa [h'] using ih
        · simpa [h'] using ih
      · have : decide (p ≠ place) = true := decide_eq_true h
        simp only [this, if_true, lookup_cons_eq, ih]
        by_cases h' : other = p
        · simp [h', h]
        · simp [h']

theorem node?_remove : (fs.remove place).node? other =
    if other = place ∧ other ≠ [] then none else fs.node? other := by
  by_cases root : other = []
  · simp [root]
  · rw [node?_of_ne root, node?_of_ne root, remove, lookup_filter_ne]
    simp [root]

theorem node?_put : (fs.put place node).node? other =
    if other = [] then some .directory
    else if other = place then some node else fs.node? other := by
  by_cases root : other = []
  · simp [root]
  · rw [node?_of_ne root, put, lookup_cons_eq, ← node?_of_ne root, node?_remove, if_neg root]
    by_cases here : other = place
    · rw [if_pos here, if_pos here]
    · simp [here]

theorem node?_putNewFile : (fs.putNewFile place bytes).node? other =
    (fs.put place (.file fs.contents.length)).node? other := rfl

@[simp] theorem node?_setContent : (fs.setContent inode bytes).node? place = fs.node? place := rfl

@[simp] theorem node?_appendTo : (fs.appendTo inode bytes).node? place = fs.node? place := rfl

@[simp] theorem node?_lock : (fs.lock inode).node? place = fs.node? place := rfl

@[simp] theorem node?_unlock (inodes : List Nat) :
    (fs.unlock inodes).node? place = fs.node? place :=
  rfl

theorem unlock_nil : fs.unlock [] = fs := by
  have : fs.locked.filter (· ∉ ([] : List Nat)) = fs.locked := List.filter_eq_self.mpr (by simp)
  rw [unlock, this]

/-! Contents. -/

@[simp] theorem content_put : (fs.put place node).content inode = fs.content inode := rfl

@[simp] theorem content_remove : (fs.remove place).content inode = fs.content inode := rfl

@[simp] theorem content_lock : (fs.lock i).content inode = fs.content inode := rfl

@[simp] theorem content_unlock (inodes : List Nat) :
    (fs.unlock inodes).content inode = fs.content inode := rfl

theorem content_putNewFile (h : inode < fs.contents.length) :
    (fs.putNewFile place bytes).content inode = fs.content inode :=
  List.getD_append _ _ _ _ h

theorem content_putNewFile_new :
    (fs.putNewFile place bytes).content fs.contents.length = bytes := by
  simp [putNewFile, content]

theorem content_setContent_self (h : inode < fs.contents.length) :
    (fs.setContent inode bytes).content inode = bytes := by
  simp [setContent, content, h]

theorem content_setContent_of_ne (h : i ≠ inode) :
    (fs.setContent inode bytes).content i = fs.content i := by
  simp [setContent, content, List.getD_eq_getElem?_getD, List.getElem?_set_ne h.symm]

theorem content_appendTo_self (h : inode < fs.contents.length) :
    (fs.appendTo inode bytes).content inode = fs.content inode ++ bytes :=
  content_setContent_self h

theorem content_appendTo_of_ne (h : i ≠ inode) :
    (fs.appendTo inode bytes).content i = fs.content i :=
  content_setContent_of_ne h

end InDoubt.FileSystem

import InDoubt.Proofs.FileSystem.Operations
import Mathlib.Data.List.Nodup

/-!
Trees that operations can produce. No two entries stand at one place, every entry stands in a
directory under a name that a path can hold, and every file has an inode of its own that has been
numbered. Whatever is done to the files, the tree stays sound (`Sound.apply`), so that the tree that
a log finds is sound, whoever has made it.
-/

namespace InDoubt.FileSystem

variable {fs tree made : FileSystem} {place other source target : Place} {node : Node}
  {inode : Nat} {name : Bytes} {path : List Bytes}

/-- Where an entry may stand: in a directory, and by a name. -/
def Seat (fs : FileSystem) (place : Place) : Prop :=
  ∃ name dir, place = name :: dir ∧ Proper name ∧ slash ∉ name ∧ fs.node? dir = some .directory

structure Sound (fs : FileSystem) : Prop where
  distinct : (fs.entries.map Prod.fst).Nodup
  seated : ∀ {place node}, (place, node) ∈ fs.entries → fs.Seat place
  allocated : ∀ {place inode}, (place, .file inode) ∈ fs.entries → inode < fs.contents.length
  single : ∀ {place other inode}, (place, .file inode) ∈ fs.entries →
    (other, .file inode) ∈ fs.entries → place = other

theorem Seat.ne_root (h : fs.Seat place) : place ≠ [] := by
  obtain ⟨name, dir, rfl, -⟩ := h
  exact List.cons_ne_nil _ _

theorem Seat.mono (h : fs.Seat place)
    (keeps : ∀ {dir}, fs.node? dir = some .directory → tree.node? dir = some .directory) :
    tree.Seat place := by
  obtain ⟨name, dir, e, proper, plain, stands⟩ := h
  exact ⟨name, dir, e, proper, plain, keeps stands⟩

theorem node?_of_mem (distinct : (fs.entries.map Prod.fst).Nodup) (inside : place ≠ [])
    (h : (place, node) ∈ fs.entries) : fs.node? place = some node := by
  rw [node?_of_ne inside, List.lookup_eq_some_iff]
  obtain ⟨before, after, e⟩ := List.append_of_mem h
  refine ⟨before, after, e, fun entry he => ?_⟩
  have apart : entry.1 ≠ place := by
    rw [e, List.map_append, List.map_cons, List.nodup_append] at distinct
    exact distinct.2.2 _ (List.mem_map_of_mem he) _ List.mem_cons_self
  simpa using Ne.symm apart

namespace Sound

theorem node? (h : fs.Sound) (mem : (place, node) ∈ fs.entries) : fs.node? place = some node :=
  node?_of_mem h.distinct (h.seated mem).ne_root mem

theorem mem_entries_iff (h : fs.Sound) :
    (place, node) ∈ fs.entries ↔ place ≠ [] ∧ fs.node? place = some node :=
  ⟨fun mem => ⟨(h.seated mem).ne_root, h.node? mem⟩, fun ⟨inside, stands⟩ =>
    mem_entries_of_node? inside stands⟩

theorem mem_of_file (h : fs.node? place = some (.file inode)) :
    (place, .file inode) ∈ fs.entries := by
  refine mem_entries_of_node? ?_ h
  rintro rfl
  cases h

theorem lt (h : fs.Sound) (stands : fs.node? place = some (.file inode)) :
    inode < fs.contents.length :=
  h.allocated (mem_of_file stands)

theorem eq_of_file (h : fs.Sound) (stands : fs.node? place = some (.file inode))
    (stands' : fs.node? other = some (.file inode)) : place = other :=
  h.single (mem_of_file stands) (mem_of_file stands')

/-- The directory above a directory is one. -/
theorem tail (h : fs.Sound) (stands : fs.node? place = some .directory) :
    fs.node? place.tail = some .directory := by
  by_cases root : place = []
  · rw [root]
    rfl
  · obtain ⟨name, dir, rfl, -, -, above⟩ := h.seated (mem_entries_of_node? root stands)
    exact above

theorem empty : FileSystem.empty.Sound :=
  ⟨List.nodup_nil, fun h => absurd h List.not_mem_nil, fun h => absurd h List.not_mem_nil,
    fun h => absurd h List.not_mem_nil⟩

/-! Writing and locking. -/

theorem congr (h : fs.Sound) (entries : tree.entries = fs.entries)
    (contents : tree.contents.length = fs.contents.length) : tree.Sound where
  distinct := entries ▸ h.distinct
  seated mem := (h.seated (entries ▸ mem)).mono fun stands => (node?_congr entries _).trans stands
  allocated mem := contents ▸ h.allocated (entries ▸ mem)
  single mem mem' := h.single (entries ▸ mem) (entries ▸ mem')

theorem setContent (h : fs.Sound) (bytes : Bytes) : (fs.setContent inode bytes).Sound :=
  h.congr rfl (by simp [FileSystem.setContent])

/-! Entering. -/

theorem keeps_directory_of_free (free : fs.node? place = none)
    (stands : fs.node? other = some .directory) :
    (fs.put place node).node? other = some .directory := by
  rw [node?_put]
  split
  · rfl
  · rw [if_neg, stands]
    rintro rfl
    rw [free] at stands
    cases stands

/-- One more entry where none stands, if its inode is new. -/
theorem enter (h : fs.Sound) (seat : fs.Seat place) (free : fs.node? place = none)
    (entries : tree.entries = (fs.put place node).entries)
    (contents : fs.contents.length ≤ tree.contents.length)
    (fresh : ∀ {inode}, node = .file inode → fs.contents.length ≤ inode ∧
      inode < tree.contents.length) : tree.Sound where
  distinct := by
    rw [entries]
    refine List.nodup_cons.mpr ⟨by simp [remove], ?_⟩
    exact h.distinct.sublist (List.filter_sublist.map _)
  seated {other node'} mem := by
    have seat' : fs.Seat other := by
      rw [entries] at mem
      rcases List.mem_cons.mp mem with e | old
      · cases e
        exact seat
      · exact h.seated (List.mem_filter.mp old).1
    refine seat'.mono fun placed => ?_
    rw [node?_congr entries]
    exact keeps_directory_of_free free placed
  allocated {other inode} mem := by
    rw [entries] at mem
    rcases List.mem_cons.mp mem with e | old
    · cases e
      exact (fresh rfl).2
    · exact Nat.lt_of_lt_of_le (h.allocated (List.mem_filter.mp old).1) contents
  single {p q inode} mem mem' := by
    rw [entries] at mem mem'
    have old {r : Place} (mem : (r, Node.file inode) ∈ (fs.remove place).entries) :
        (r, Node.file inode) ∈ fs.entries := (List.mem_filter.mp mem).1
    rcases List.mem_cons.mp mem with e | there <;> rcases List.mem_cons.mp mem' with e' | there'
    · cases e
      cases e'
      rfl
    · cases e
      exact absurd (h.allocated (old there')) (Nat.not_lt.mpr (fresh rfl).1)
    · cases e'
      exact absurd (h.allocated (old there)) (Nat.not_lt.mpr (fresh rfl).1)
    · exact h.single (old there) (old there')

theorem put (h : fs.Sound) (seat : fs.Seat place) (free : fs.node? place = none)
    (other : ∀ inode, node ≠ .file inode) : (fs.put place node).Sound :=
  h.enter seat free rfl (Nat.le_refl _) fun e => absurd e (other _)

theorem putNewFile (h : fs.Sound) (seat : fs.Seat place) (free : fs.node? place = none)
    (bytes : Bytes) : (fs.putNewFile place bytes).Sound := by
  refine h.enter seat free rfl ?_ fun e => ?_
  · simp [FileSystem.putNewFile]
  · cases e
    simp [FileSystem.putNewFile]

/-! Removing. -/

/-- Entries are removed, and with a directory all that is in it. -/
theorem filter (h : fs.Sound) (keep : Place × Node → Bool)
    (above : ∀ {name dir node}, (name :: dir, node) ∈ fs.entries → keep (name :: dir, node) = true →
      dir ≠ [] → keep (dir, .directory) = true) :
    { fs with entries := fs.entries.filter keep }.Sound where
  distinct := h.distinct.sublist (List.filter_sublist.map _)
  seated {place node} mem := by
    obtain ⟨old, kept⟩ := List.mem_filter.mp mem
    obtain ⟨name, dir, rfl, proper, plain, stands⟩ := h.seated old
    refine ⟨name, dir, rfl, proper, plain, ?_⟩
    by_cases root : dir = []
    · rw [root]
      rfl
    · refine node?_of_mem (h.distinct.sublist (List.filter_sublist.map _)) root ?_
      exact List.mem_filter.mpr ⟨mem_entries_of_node? root stands, above old kept root⟩
  allocated mem := h.allocated (List.mem_filter.mp mem).1
  single mem mem' := h.single (List.mem_filter.mp mem).1 (List.mem_filter.mp mem').1

/-- An entry is removed that has nothing below it. -/
theorem remove (h : fs.Sound) (leaf : ∀ {name node}, (name :: place, node) ∉ fs.entries) :
    (fs.remove place).Sound := by
  refine h.filter (·.1 ≠ place) fun mem _ _ => ?_
  simp only [ne_eq, decide_eq_true_eq]
  rintro rfl
  exact leaf mem

/-- Nothing is below what is no directory. -/
theorem leaf_of_node? (h : fs.Sound) (stands : fs.node? place ≠ some .directory) {name : Bytes}
    {node : Node} : (name :: place, node) ∉ fs.entries := by
  intro mem
  obtain ⟨_, _, e, -, -, above⟩ := h.seated mem
  cases e
  exact stands above

theorem leaf_of_children (childless : fs.children place = []) {name : Bytes} {node : Node} :
    (name :: place, node) ∉ fs.entries := by
  intro mem
  have : (name, node) ∈ fs.children place :=
    List.mem_filterMap.mpr ⟨_, mem, by simp⟩
  rw [childless] at this
  cases this

theorem isAtOrBelow_tail (h : isAtOrBelow other.tail place = true) :
    isAtOrBelow other place = true := by
  simp only [isAtOrBelow, List.isSuffixOf_iff_suffix] at h ⊢
  exact h.trans (List.tail_suffix other)

theorem clear (h : fs.Sound) (place : Place) : (fs.clear place).Sound := by
  refine h.filter _ fun {name dir node} mem kept root => ?_
  simp only [Bool.or_eq_true, decide_eq_true_eq, Bool.not_eq_true'] at kept ⊢
  refine .inr (Bool.eq_false_iff.mpr fun below => ?_)
  rcases kept with rfl | apart
  · simp only [isAtOrBelow, List.isSuffixOf_iff_suffix] at below
    have longer := below.length_le
    rw [List.length_cons] at longer
    omega
  · have whole : isAtOrBelow (name :: dir) place = true := isAtOrBelow_tail below
    rw [apart] at whole
    cases whole

/-! Moving. -/

/-- Where a move takes a place. -/
def moved (source target place : Place) : Place :=
  if isAtOrBelow place source then place.take (place.length - source.length) ++ target else place

theorem moved_below (x : Place) : moved source target (x ++ source) = x ++ target := by
  have : isAtOrBelow (x ++ source) source = true := by
    simp [isAtOrBelow, List.isSuffixOf_iff_suffix]
  simp [moved, this]

theorem moved_apart (h : ¬source <:+ place) : moved source target place = place := by
  simp [moved, isAtOrBelow, List.isSuffixOf_iff_suffix, h]

theorem mem_move_iff : (place, node) ∈ (fs.move source target).entries ↔
    ∃ old, (old, node) ∈ fs.entries ∧ old ≠ target ∧ place = moved source target old := by
  have each : (fs.move source target).entries =
      (fs.remove target).entries.map fun entry => (moved source target entry.1, entry.2) := by
    refine List.map_congr_left fun ⟨place, node⟩ _ => ?_
    simp only [moved]
    split <;> rfl
  rw [each]
  simp only [FileSystem.remove, List.mem_map, List.mem_filter, Prod.mk.injEq, Prod.exists,
    decide_eq_true_eq, ne_eq]
  constructor
  · rintro ⟨old, _, ⟨mem, other⟩, rfl, rfl⟩
    exact ⟨old, mem, other, rfl⟩
  · rintro ⟨old, mem, other, rfl⟩
    exact ⟨old, _, ⟨mem, other⟩, rfl, rfl⟩

/-- Nothing at all stands below a place that has no entry right below it. -/
theorem eq_of_suffix (h : fs.Sound) (leaf : ∀ {name node}, (name :: target, node) ∉ fs.entries)
    (mem : (place, node) ∈ fs.entries) (below : target <:+ place) : place = target := by
  obtain ⟨x, rfl⟩ := below
  induction x generalizing node with
  | nil => rfl
  | cons name x ih =>
      obtain ⟨_, _, e, -, -, above⟩ := h.seated mem
      obtain ⟨rfl, rfl⟩ := List.cons.inj e
      by_cases root : x ++ target = []
      · have : target = [] := (List.append_eq_nil_iff.mp root).2
        subst this
        obtain rfl : x = [] := by simpa using root
        exact absurd mem leaf
      · have := ih (mem_entries_of_node? root above)
        simp only [List.append_left_eq_self] at this
        subst this
        exact absurd mem leaf

theorem moved_injective (h : fs.Sound) (leaf : ∀ {name node}, (name :: target, node) ∉ fs.entries)
    {p q : Place} {n m : Node} (hp : (p, n) ∈ fs.entries) (hq : (q, m) ∈ fs.entries)
    (p_ne : p ≠ target) (q_ne : q ≠ target)
    (e : moved source target p = moved source target q) : p = q := by
  by_cases below : source <:+ p <;> by_cases below' : source <:+ q
  · obtain ⟨x, rfl⟩ := below
    obtain ⟨y, rfl⟩ := below'
    rw [moved_below, moved_below, List.append_cancel_right_eq] at e
    rw [e]
  · obtain ⟨x, rfl⟩ := below
    rw [moved_below, moved_apart below'] at e
    exact absurd (h.eq_of_suffix leaf hq ⟨x, e⟩) q_ne
  · obtain ⟨y, rfl⟩ := below'
    rw [moved_below, moved_apart below] at e
    exact absurd (h.eq_of_suffix leaf hp ⟨y, e.symm⟩) p_ne
  · rwa [moved_apart below, moved_apart below'] at e

section Move

variable (h : fs.Sound) (leaf : ∀ {name node}, (name :: target, node) ∉ fs.entries)
  (apart : ¬source <:+ target)
include h leaf

theorem nodup_move : ((fs.move source target).entries.map Prod.fst).Nodup := by
  have keys : ((fs.move source target).entries.map Prod.fst) =
      ((fs.remove target).entries.map Prod.fst).map (moved source target) := by
    simp only [FileSystem.move, List.map_map]
    refine List.map_congr_left fun ⟨place, node⟩ _ => ?_
    simp only [Function.comp, moved]
    split <;> rfl
  rw [keys]
  have cleared := h.distinct.sublist
    ((List.filter_sublist (p := (·.1 ≠ target)) (l := fs.entries)).map Prod.fst)
  refine cleared.map_on fun p hp q hq e => ?_
  obtain ⟨⟨p, n⟩, kept, rfl⟩ := List.mem_map.mp hp
  obtain ⟨⟨q, m⟩, kept', rfl⟩ := List.mem_map.mp hq
  obtain ⟨mem, p_ne⟩ := List.mem_filter.mp kept
  obtain ⟨mem', q_ne⟩ := List.mem_filter.mp kept'
  exact h.moved_injective leaf mem mem' (by simpa using p_ne) (by simpa using q_ne) e

include apart

/-- A directory other than the one that is replaced is where it has been moved. -/
theorem directory_moved (inside : target ≠ []) (stands : fs.node? place = some .directory)
    (other : place ≠ target) :
    (fs.move source target).node? (moved source target place) = some .directory := by
  by_cases root : place = []
  · have source_ne : source ≠ [] := by
      rintro rfl
      exact apart List.nil_suffix
    subst root
    rw [moved_apart (by simpa using source_ne)]
    rfl
  · refine node?_of_mem (h.nodup_move leaf) ?_ (mem_move_iff.mpr
      ⟨place, mem_entries_of_node? root stands, other, rfl⟩)
    by_cases below : source <:+ place
    · obtain ⟨x, rfl⟩ := below
      rw [moved_below]
      exact fun e => inside (List.append_eq_nil_iff.mp e).2
    · rwa [moved_apart below]

/-- What has been moved stands in a directory: the one of the target, one that has been moved with
it, or one that has not been moved at all. -/
theorem seat_moved (seat : fs.Seat target) (there : (place, node) ∈ fs.entries) :
    (fs.move source target).Seat (moved source target place) := by
  by_cases below : source <:+ place
  · obtain ⟨x, rfl⟩ := below
    rw [moved_below]
    cases x with
    | nil =>
        have inside := seat.ne_root
        obtain ⟨name, dir, rfl, proper, plain, placed⟩ := seat
        have above := h.directory_moved leaf apart inside placed (by simp)
        rw [moved_apart fun below => apart (below.trans (List.suffix_cons _ _))] at above
        exact ⟨name, dir, rfl, proper, plain, above⟩
    | cons first x =>
        obtain ⟨_, _, e, proper, plain, placed⟩ := h.seated there
        obtain ⟨rfl, rfl⟩ := List.cons.inj e
        have placed : fs.node? (x ++ source) = some .directory := placed
        have above := h.directory_moved leaf apart seat.ne_root placed
          fun e => apart (e ▸ List.suffix_append _ _)
        rw [moved_below] at above
        exact ⟨first, x ++ target, rfl, proper, plain, above⟩
  · rw [moved_apart below]
    obtain ⟨name, dir, rfl, proper, plain, placed⟩ := h.seated there
    have above := h.directory_moved leaf apart seat.ne_root placed (by rintro rfl; exact leaf there)
    rw [moved_apart fun lower => below (lower.trans (List.suffix_cons _ _))] at above
    exact ⟨name, dir, rfl, proper, plain, above⟩

theorem move (seat : fs.Seat target) : (fs.move source target).Sound where
  distinct := h.nodup_move leaf
  seated mem := by
    obtain ⟨old, there, -, rfl⟩ := mem_move_iff.mp mem
    exact h.seat_moved leaf apart seat there
  allocated mem := by
    obtain ⟨old, there, -, -⟩ := mem_move_iff.mp mem
    exact h.allocated there
  single mem mem' := by
    obtain ⟨old, there, -, rfl⟩ := mem_move_iff.mp mem
    obtain ⟨old', there', -, rfl⟩ := mem_move_iff.mp mem'
    rw [h.single there there']

end Move

end Sound

end InDoubt.FileSystem

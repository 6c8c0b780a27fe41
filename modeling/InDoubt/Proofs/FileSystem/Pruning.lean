import InDoubt.Proofs.FileSystem.Reading

/-!
Trees from which files without records have been taken, whatever the paths lead through. A path that
names a link is unlinked as the link, although what was read is the file that the link leads to. No
path goes on past a file, so none goes on past such a link either, and all paths name the entries
that they named before (`Prunes.locateEntry_iff`). What is read and removed later is therefore what
it was at first.
-/

namespace InDoubt

namespace FileSystem

variable {fs tree : FileSystem} {last : AtLast} {links more : Nat} {here place other : Place}
  {front rest : List Bytes} {name target : Bytes} {node : Node} {inode : Nat} {path : String}
  {looked : String → Prop}

/-! Walks that end at files. -/

/-- Past a file there is no way, for however many links. -/
theorem Leads.not_past_file (h : Leads fs .follow links here front place) (sound : fs.Sound)
    (dir : fs.node? here = some .directory) (file : fs.node? place = some (.file inode))
    (nonempty : rest ≠ []) : ¬Leads fs last more here (front ++ rest) other := by
  rw [← walk_eq_ok_iff]
  induction h generalizing more with
  | done =>
      rw [dir] at file
      cases file
  | stay void _ ih =>
      rw [List.cons_append, walk_eq_descend, descend, if_pos void, ← walk_eq_descend]
      exact ih dir file
  | up _ ih =>
      rw [List.cons_append, walk_eq_descend, descend, if_neg (by decide), if_pos rfl,
        ← walk_eq_descend]
      exact ih (sound.tail dir) file
  | enter proper _ fits found _ ih =>
      rw [List.cons_append, walk_eq_descend, descend_proper proper, found,
        if_neg (Nat.not_lt.mpr fits), ← walk_eq_descend]
      exact fun e => ih found file (guard_eq_ok_iff.mp e).2
  | stop proper _ _ =>
      rw [List.cons_append, walk_eq_descend, descend_proper proper, file, List.nil_append]
      simp [guard_eq_ok_iff, nonempty]
  | @pass _ here _ passed _ target proper _ fits found _ _ ih =>
      rw [List.cons_append, walk_eq_descend, descend_proper proper, found,
        if_neg (Nat.not_lt.mpr fits)]
      intro e
      have e := (guard_eq_ok_iff.mp e).2
      simp only [List.append_eq_nil_iff, nonempty, and_false, false_and, if_false] at e
      cases more with
      | zero => cases e
      | succ fewer =>
          refine @ih fewer (directory_startOf dir) file ?_
          rwa [List.append_assoc]

/-- Where names lead past a link that they end with is where its target leads. -/
theorem Leads.through_last (h : Leads fs .keep links here front (name :: place))
    (k : Leads fs .follow links here front other) (sound : fs.Sound)
    (dir : fs.node? here = some .directory)
    (link : fs.node? (name :: place) = some (.link target)) :
    ∃ fewer, Leads fs .follow fewer (startOf place target) (namesToDirectory target) other := by
  generalize e : name :: place = stands at h
  rw [← walk_eq_ok_iff] at k
  induction h with
  | done =>
      subst e
      rw [dir] at link
      cases link
  | stay void _ ih =>
      rw [walk_eq_descend, descend, if_pos void, ← walk_eq_descend] at k
      exact ih k dir e
  | up _ ih =>
      rw [walk_eq_descend, descend, if_neg (by decide), if_pos rfl, ← walk_eq_descend] at k
      exact ih k (sound.tail dir) e
  | enter proper _ fits found _ ih =>
      rw [walk_eq_descend, descend_proper proper, found, if_neg (by simp),
        if_neg (Nat.not_lt.mpr fits), ← walk_eq_descend] at k
      exact ih k found e
  | @stop links _ _ proper fits _ =>
      obtain ⟨rfl, rfl⟩ := List.cons.inj e
      rw [walk_eq_descend, descend_proper proper, link, if_neg (by simp),
        if_neg (Nat.not_lt.mpr fits)] at k
      simp only [List.append_nil, reduceCtorEq, and_false, if_false] at k
      cases links with
      | zero => cases k
      | succ fewer => exact ⟨fewer, walk_eq_ok_iff.mp k⟩
  | pass proper _ fits found _ _ ih =>
      rw [walk_eq_descend, descend_proper proper, found, if_neg (by simp),
        if_neg (Nat.not_lt.mpr fits)] at k
      simp only [reduceCtorEq, and_false, if_false] at k
      exact ih k (directory_startOf dir) e

/-! Files without records. -/

/-- A file is text and all its lines are blank. -/
def RecordsNothing (fs : FileSystem) (inode : Nat) : Prop :=
  ∃ content, Utf8.decode? (fs.content inode) = some content ∧
    ∀ line ∈ Text.linesOf content.toList, Record.isBlankLine line = true

theorem readRecords_eq_nil_iff : fs.readRecords path = .ok [] ↔
    ∃ inode, fs.inodeAt (Utf8.encode path) = .ok inode ∧ fs.RecordsNothing inode := by
  simp only [readRecords_eq_ok_iff, Record.parse_eq_nil_iff, RecordsNothing, exists_and_left]

/-- The path names the entry at a place, and leads to a file without records that nobody has
locked. -/
structure Waste (fs : FileSystem) (path : String) (place : Place) (inode : Nat) : Prop where
  plain : endsInSlash (Utf8.encode path) = false
  located : fs.locateEntry (Utf8.encode path) = .ok place
  reached : fs.inodeAt (Utf8.encode path) = .ok inode
  free : fs.isLocked inode = false
  blank : fs.RecordsNothing inode

namespace Waste

/-- Following the path to its end leads to the file. -/
theorem leads (h : Waste fs path place inode) :
    ∃ aim, Leads fs .follow maxLinks [] (names (Utf8.encode path)) aim ∧
      fs.node? aim = some (.file inode) := by
  obtain ⟨aim, located, file⟩ := inodeAt_eq_ok_iff.mp h.reached
  have leads := (locate_eq_ok_iff.mp located).2
  rw [namesToDirectory_of_not h.plain] at leads
  exact ⟨aim, leads, file⟩

/-- The entry is no directory. -/
theorem not_directory (h : Waste fs path place inode) : fs.node? place ≠ some .directory := by
  intro dir
  obtain ⟨aim, leads, file⟩ := h.leads
  have same := leads.unique ((locateEntry_eq_ok_iff.mp h.located).2.follow (by simp [dir]))
  rw [same, dir] at file
  cases file

/-- If the entry is a link, no names go on past it. -/
theorem not_past (h : Waste fs path (name :: here) inode) (sound : fs.Sound)
    (link : fs.node? (name :: here) = some (.link target))
    (dir : fs.node? here = some .directory) (nonempty : rest ≠ []) :
    ¬Leads fs last more (startOf here target) (namesToDirectory target ++ rest) other := by
  obtain ⟨aim, leads, file⟩ := h.leads
  obtain ⟨fewer, through⟩ :=
    (locateEntry_eq_ok_iff.mp h.located).2.through_last leads sound rfl link
  exact through.not_past_file sound (directory_startOf dir) file nonempty

end Waste

/-! Taking them away. -/

/-- At most entries have been taken from a tree, each one waste by one of the paths looked at. -/
structure Prunes (fs tree : FileSystem) (looked : String → Prop) : Prop where
  contents : tree.contents = fs.contents
  locked : tree.locked = fs.locked
  old : ∀ {place node}, tree.node? place = some node → fs.node? place = some node
  taken : ∀ {place node}, fs.node? place = some node → tree.node? place = some node ∨
    ∃ path inode, looked path ∧ Waste fs path place inode

namespace Prunes

theorem refl (fs : FileSystem) : Prunes fs fs looked := ⟨rfl, rfl, id, .inl⟩

theorem directory (h : Prunes fs tree looked) (stands : fs.node? place = some .directory) :
    tree.node? place = some .directory := by
  refine (h.taken stands).resolve_right ?_
  rintro ⟨path, inode, -, waste⟩
  exact waste.not_directory stands

/-- What is named in the smaller tree is named in the larger one, by the same walk. -/
theorem leads_of_leads (h : Prunes fs tree looked) (k : Leads tree last links here front place)
    (ends : last = .keep ∨ ∃ node, tree.node? place = some node) :
    Leads fs last links here front place := by
  induction k with
  | done => exact .done
  | stay void _ ih => exact .stay void (ih ends)
  | up _ ih => exact .up (ih ends)
  | enter proper plain fits found _ ih => exact .enter proper plain fits (h.old found) (ih ends)
  | @stop _ here name proper fits found =>
      refine .stop proper fits fun node stands => ⟨?_, fun target link => ?_⟩
      · rintro rfl
        exact (found _ (h.directory stands)).1 rfl
      · rcases ends with keeps | ⟨there, stands'⟩
        · exact keeps
        · have same := Option.some.inj (stands.symm.trans (h.old stands'))
          exact (found _ stands').2 target (same ▸ link)
  | pass proper plain fits found through _ ih =>
      exact .pass proper plain fits (h.old found) through (ih ends)

/-- What is named in the larger tree is named in the smaller one, where it may be missing. -/
theorem leads (h : Prunes fs tree looked) (k : Leads fs .keep links here front place)
    (sound : fs.Sound) (dir : fs.node? here = some .directory) :
    Leads tree .keep links here front place := by
  induction k with
  | done => exact .done
  | stay void _ ih => exact .stay void (ih dir)
  | up _ ih => exact .up (ih (sound.tail dir))
  | enter proper plain fits found _ ih =>
      exact .enter proper plain fits (h.directory found) (ih found)
  | stop proper fits found => exact .stop proper fits fun node stands => found node (h.old stands)
  | pass proper plain fits found through next ih =>
      have nonempty : _ ≠ [] := fun empty => through ⟨empty, rfl⟩
      have stays := (h.taken found).resolve_right fun ⟨path, inode, _, waste⟩ =>
        waste.not_past sound found dir nonempty next
      exact .pass proper plain fits stays through (ih (directory_startOf dir))

/-- Every path names the entry that it named before, be it there or not. -/
theorem locateEntry_iff (h : Prunes fs tree looked) (sound : fs.Sound) {path : Bytes} :
    tree.locateEntry path = .ok place ↔ fs.locateEntry path = .ok place := by
  simp only [locateEntry_eq_ok_iff]
  exact and_congr_right fun _ => ⟨fun k => h.leads_of_leads k (.inl rfl),
    fun k => h.leads k sound rfl⟩

theorem inodeAt (h : Prunes fs tree looked) {path : Bytes}
    (reached : tree.inodeAt path = .ok inode) : fs.inodeAt path = .ok inode := by
  obtain ⟨aim, located, file⟩ := inodeAt_eq_ok_iff.mp reached
  obtain ⟨checked, leads⟩ := locate_eq_ok_iff.mp located
  refine inodeAt_eq_ok_iff.mpr ⟨aim, locate_eq_ok_iff.mpr ⟨checked, ?_⟩, h.old file⟩
  exact h.leads_of_leads leads (.inr ⟨_, file⟩)

theorem recordsNothing (h : Prunes fs tree looked) :
    tree.RecordsNothing inode ↔ fs.RecordsNothing inode := by
  simp only [RecordsNothing, content, h.contents]

/-- What is waste by a path is so before. -/
theorem waste (h : Prunes fs tree looked) (sound : fs.Sound)
    (waste : Waste tree path place inode) : Waste fs path place inode where
  plain := waste.plain
  located := (h.locateEntry_iff sound).mp waste.located
  reached := h.inodeAt waste.reached
  free := by
    have same : fs.isLocked inode = tree.isLocked inode := by rw [isLocked, isLocked, h.locked]
    exact same.trans waste.free
  blank := h.recordsNothing.mp waste.blank

/-- One more piece of waste is taken. -/
theorem remove (h : Prunes fs tree looked) (sound : fs.Sound) (looks : looked path)
    (waste : Waste tree path place inode) : Prunes fs (tree.remove place) looked where
  contents := h.contents
  locked := h.locked
  old stands := by
    rw [node?_remove] at stands
    split at stands
    · cases stands
    · exact h.old stands
  taken {other node} stands := by
    rw [node?_remove]
    split
    · rename_i same
      obtain ⟨rfl, -⟩ := same
      exact .inr ⟨path, inode, looks, h.waste sound waste⟩
    · exact h.taken stands

/-- A file that has been read without records is taken by the path at which it was read. -/
theorem unlinkUnlocked (h : Prunes fs tree looked) (sound : fs.Sound) (looks : looked path)
    (read : tree.readRecords path = .ok []) : Prunes fs (tree.unlinkUnlocked path) looked := by
  obtain ⟨inode, reached, blank⟩ := readRecords_eq_nil_iff.mp read
  simp only [FileSystem.unlinkUnlocked, reached]
  split
  · exact h
  · rename_i free
    split
    · rename_i e
      obtain ⟨place, node, located, -, -, plain, rfl⟩ := unlink_eq_ok_iff.mp e
      exact h.remove sound looks ⟨plain, located, reached, eq_false_of_ne_true free, blank⟩
    · exact h

theorem mono (h : Prunes fs tree looked) {looked' : String → Prop}
    (more : ∀ {path}, looked path → looked' path) : Prunes fs tree looked' :=
  { h with
    taken := fun stands => (h.taken stands).imp_right fun ⟨path, inode, looks, waste⟩ =>
      ⟨path, inode, more looks, waste⟩ }

end Prunes

/-! Reading what is left. -/

/-- Whether the entry that a path names is a link. -/
def isLink (fs : FileSystem) (path : Bytes) : Bool :=
  match (fs.locateEntry path).toOption.bind fs.node? with
  | some (.link _) => true
  | _ => false

/-- These names in a directory name no links. -/
def Unlinked (fs : FileSystem) (dir : String) (ids : List String) : Prop :=
  ∀ id ∈ ids, fs.isLink (Utf8.encode (joinPath dir id)) = false

instance (fs : FileSystem) (dir : String) (ids : List String) : Decidable (fs.Unlinked dir ids) :=
  inferInstanceAs (Decidable (∀ id ∈ ids, _))

theorem Unlinked.plain {dir id : String} {ids : List String} (h : fs.Unlinked dir ids)
    (mem : id ∈ ids) (located : fs.locateEntry (Utf8.encode (joinPath dir id)) = .ok place)
    (target : Bytes) : fs.node? place ≠ some (.link target) := by
  intro link
  have linked := h id mem
  simp [isLink, located, Except.toOption, link] at linked

/-- Where the path of a name leads depends on what stands there, in whatever tree in which the path
of the directory leads to it. -/
theorem Opens.inodeAt_congr {dir id : String} {top : Place} (h : fs.Opens dir top)
    (k : tree.Opens dir top) (held : Holdable id)
    (same : tree.node? (Utf8.encode id :: top) = fs.node? (Utf8.encode id :: top))
    (plain : fs.Unlinked dir [id]) :
    tree.inodeAt (Utf8.encode (joinPath dir id)) = fs.inodeAt (Utf8.encode (joinPath dir id)) := by
  have noSlash := endsInSlash_joinPath dir held.2 held.1.1
  unfold FileSystem.inodeAt FileSystem.locate
  rw [namesToDirectory_of_not noSlash]
  cases checked : checkPath (Utf8.encode (joinPath dir id)) with
  | error e => rfl
  | ok =>
      simp only [bind, Except.bind]
      by_cases long : maxName < (Utf8.encode id).length
      · rw [h.walk_of_long held (by simp) long, k.walk_of_long held (by simp) long]
      · have fits := Nat.le_of_not_lt long
        have plain : ∀ target, fs.node? (Utf8.encode id :: top) ≠ some (.link target) :=
          plain.plain List.mem_cons_self ((h.locateEntry_iff held).mpr ⟨checked, fits, rfl⟩)
        rw [walk_eq_ok_iff.mpr (h.leads_to held (by simp) fits fun target e =>
            absurd e (plain target)),
          walk_eq_ok_iff.mpr (k.leads_to held (by simp) fits fun target e =>
            absurd (same.symm.trans e) (plain target))]
        simp only [same]

theorem inodeAt_congr (same : ∀ place, tree.node? place = fs.node? place) (path : Bytes) :
    tree.inodeAt path = fs.inodeAt path := by
  simp only [inodeAt, locate, walk_congr same, same]

namespace Prunes

/-- If no name named a link, the ways are all there. -/
theorem keepsWays (h : Prunes fs tree looked)
    (plain : ∀ path place inode target, looked path → Waste fs path place inode →
      fs.node? place ≠ some (.link target)) : KeepsWays fs tree where
  directory := h.directory
  link {place target} := by
    refine ⟨fun stands => (h.taken stands).resolve_right ?_, h.old⟩
    rintro ⟨path, inode, looks, waste⟩
    exact plain path place inode target looks waste stands

/-- What is waste by no path stands where it stood. -/
theorem node?_eq (h : Prunes fs tree looked)
    (spared : ∀ path inode, looked path → ¬Waste fs path place inode) :
    tree.node? place = fs.node? place := by
  cases placed : fs.node? place with
  | some node =>
      refine (h.taken placed).resolve_right ?_
      rintro ⟨path, inode, looks, waste⟩
      exact spared path inode looks waste
  | none =>
      cases placed' : tree.node? place with
      | none => rfl
      | some node => exact absurd (placed.symm.trans (h.old placed')) (by simp)

/-- What one name is read as is the same while others are taken. -/
theorem readRecords {dir id : String} {others : List String}
    (h : Prunes fs tree fun path => ∃ other ∈ others, path = joinPath dir other) (sound : fs.Sound)
    (held : ∀ other ∈ id :: others, Holdable other) (plain : fs.Unlinked dir (id :: others))
    (apart : id ∉ others) :
    tree.readRecords (joinPath dir id) = fs.readRecords (joinPath dir id) := by
  have first := held id List.mem_cons_self
  have later {other : String} (mem : other ∈ others) := held other (List.mem_cons_of_mem _ mem)
  have reached : tree.inodeAt (Utf8.encode (joinPath dir id)) =
      fs.inodeAt (Utf8.encode (joinPath dir id)) := by
    by_cases opens : ∃ top, fs.Opens dir top
    · obtain ⟨top, opens⟩ := opens
      have ways : KeepsWays fs tree := by
        refine h.keepsWays ?_
        rintro _ place inode target ⟨other, mem, rfl⟩ waste
        exact plain.plain (List.mem_cons_of_mem _ mem) waste.located target
      have same : tree.node? (Utf8.encode id :: top) = fs.node? (Utf8.encode id :: top) := by
        refine h.node?_eq ?_
        rintro _ inode ⟨other, mem, rfl⟩ waste
        have place := ((opens.locateEntry_iff (later mem)).mp waste.located).2.2
        exact apart (eq_of_place_eq place ▸ mem)
      exact opens.inodeAt_congr (opens.kept ways) first same fun other mem =>
        plain other (List.mem_singleton.mp mem ▸ List.mem_cons_self)
    · -- Without the directory no name in it names anything that could be taken.
      refine inodeAt_congr (fun place => h.node?_eq ?_) _
      rintro _ inode ⟨other, mem, rfl⟩ waste
      exact opens (Opens.of_locateEntry sound (later mem) waste.located).2
  exact readRecords_congr reached fun {inode} _ => by rw [content, content, h.contents]

end Prunes

end FileSystem

end InDoubt

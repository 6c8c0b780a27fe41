import InDoubt.Proofs.Culling
import InDoubt.Proofs.Spelling

/-!
The file of a registry tells its transaction. A name reads back as the transaction that it is the
name of, so that no two transactions have one name, and no entry of any directory is the file of two
of them (`Xid.Faithful`). A registry keeps the name for as long as there is one, and a scan takes
the names of registries from the files that it recovers: whoever asks a registry for its transaction
is told the one that the file was created for (`World.Recognises`).
-/

namespace InDoubt

open FileSystem

/-- Paths that end in names which a directory can hold are equal only if the names are. -/
theorem eq_of_joinPath_eq {dir dir' id id' : String} (held : Holdable id) (held' : Holdable id')
    (same : joinPath dir id = joinPath dir' id') : id = id' := by
  have last : names (Utf8.encode dir) ++ [Utf8.encode id] =
      names (Utf8.encode dir') ++ [Utf8.encode id'] := by
    rw [← names_joinPath dir held.2 held.1.1, ← names_joinPath dir' held'.2 held'.1.1, same]
  exact Utf8.encode_injective (List.append_singleton_inj.mp last).2

namespace Xid

variable {x y : Xid} {formatId : Int32} {gtrid bqual : Bytes}

theorem make_eq_ok_iff : make formatId gtrid bqual = .ok x ↔
    x.formatId = formatId ∧ x.gtrid = gtrid ∧ x.bqual = bqual := by
  unfold make
  constructor
  · intro made
    split at made
    · split at made
      · cases made
        exact ⟨rfl, rfl, rfl⟩
      · cases made
    · cases made
  · rintro ⟨rfl, rfl, rfl⟩
    rw [dif_pos x.gtrid_le, dif_pos x.bqual_le]

/-- The name of a transaction stands for it and for no other. -/
structure Faithful (x : Xid) : Prop where
  back : parse x.name = .ok x
  distinct : ∀ y : Xid, x.name = y.name ↔
    x.formatId = y.formatId ∧ x.gtrid = y.gtrid ∧ x.bqual = y.bqual
  /-- Files of two transactions are never one entry, in whatever directories they are. -/
  apart : ∀ {fs : FileSystem} {dir dir' : String} {place : Place} {y : Xid},
    fs.locateEntry (Utf8.encode (joinPath dir x.name)) = .ok place →
    fs.locateEntry (Utf8.encode (joinPath dir' y.name)) = .ok place → x = y

theorem faithful (x : Xid) : Faithful x where
  back := x.parse_name
  distinct y := by
    constructor
    · intro same
      cases name_injective same
      exact ⟨rfl, rfl, rfl⟩
    · rintro ⟨format, global, branch⟩
      have equal : x = y := by
        cases x
        cases y
        cases format
        cases global
        cases branch
        rfl
      rw [equal]
  apart located located' := by
    have last := World.head?_of_locateEntry (holdable_name _) located
    have last' := World.head?_of_locateEntry (holdable_name _) located'
    exact name_injective (Utf8.encode_injective (Option.some.inj (last.symm.trans last')))

end Xid

namespace World

variable {v w : World} {p q : ProcessRef} {r : RegistryRef} {dir : String} {x : Xid}
  {ids : List String}

/-- A registry is that of a transaction, whatever is done from now on. -/
structure Identifies (x : Xid) (w : World) (r : RegistryRef) : Prop where
  there : r.index < w.registries.length
  ever : ∀ later, ((after later w).registry r).id = x.name ∧
    ((after later w).registry r).xid? = some x

theorem Identifies.of_id (there : r.index < w.registries.length)
    (named : (w.registry r).id = x.name) : Identifies x w r := by
  refine ⟨there, fun later => ?_⟩
  have named' : ((after later w).registry r).id = x.name :=
    ((extends_after w later).id there).trans named
  refine ⟨named', ?_⟩
  rw [Registry.xid?, named', x.parse_name]
  rfl

/-- What has been recovered bears the names of files. -/
theorem named_recoverAll (mem : r ∈ (recoverAll p dir ids w).1.recovered) :
    let v := (recoverAll p dir ids w).2
    r.index < v.registries.length ∧ (v.registry r).isLive = false ∧
      (v.registry r).id ∈ ids ∧ (v.registry r).path = joinPath dir (v.registry r).id := by
  induction ids generalizing w with
  | nil => cases mem
  | cons id rest ih =>
      have more {u : World} (mem : r ∈ (recoverAll p dir rest u).1.recovered) :
          let v := (recoverAll p dir rest u).2
          r.index < v.registries.length ∧ (v.registry r).isLive = false ∧
            (v.registry r).id ∈ id :: rest ∧
            (v.registry r).path = joinPath dir (v.registry r).id := by
        obtain ⟨lt, recovered, listed, placed⟩ := ih mem
        exact ⟨lt, recovered, List.mem_cons_of_mem id listed, placed⟩
      simp only [recoverAll] at mem ⊢
      split at mem
      · rename_i owned
        rw [if_pos owned]
        exact more mem
      · rename_i free
        rw [if_neg free]
        obtain ⟨outcome, files, other, -, e⟩ | ⟨l, ls, -, e⟩ := recover_cases w p dir id
        · rw [e] at mem ⊢
          have later : r ∈ (recoverAll p dir rest { w with files }).1.recovered := by
            cases outcome with
            | nothing => exact mem
            | failed f => exact mem
            | recovered r' => exact absurd rfl (other r')
          exact more later
        · rw [e] at mem ⊢
          rcases List.mem_cons.mp mem with rfl | later
          · have entered := registries_adopt w p id (joinPath dir id) (l :: ls)
            have new := registry_append_new entered
            have lt : w.registries.length <
                (w.adopt p id (joinPath dir id) (l :: ls)).2.registries.length := by
              rw [entered, List.length_append]
              exact Nat.lt_succ_self _
            have kept := extends_recoverAll (w.adopt p id (joinPath dir id) (l :: ls)).2 p dir rest
            refine ⟨Nat.lt_of_lt_of_le lt kept.registries, ?_, ?_, ?_⟩
            · rw [kept.isLive lt, new]
              rfl
            · rw [kept.id lt, new]
              exact List.mem_cons_self
            · rw [kept.path lt, kept.id lt, new]
          · exact more later

/-- Registries are of the transaction that their files are named after, be they live or not. -/
structure Recognises (w : World) (x : Xid) : Prop where
  created : ∀ {p dir r v}, w.createIn p dir x = (.ok r, v) →
    (v.registry r).path = joinPath dir x.name ∧ Identifies x v r
  /-- What a scan recovers is named after a file that it has listed. -/
  recovered : ∀ {q during o v}, w.scan q during = (.ok o, v) → ∀ r ∈ o.recovered,
    (v.registry r).isLive = false ∧
      (∃ names, w.files.registryFiles (w.process q).dir = .ok names ∧ (v.registry r).id ∈ names) ∧
      (v.registry r).path = joinPath (w.process q).dir (v.registry r).id ∧
      ((v.registry r).id = x.name → Identifies x v r)
  /-- Any registry with a path to that name is the transaction's. -/
  placed : ∀ {r dir}, r.index < w.registries.length → (w.registry r).path = joinPath dir x.name →
    Identifies x w r

theorem recognises (orderly : Orderly w) (x : Xid) : Recognises w x where
  created {p dir r v} made := by
    obtain ⟨_, _, -, e⟩ | ⟨_, inode, tree, -, -, -, e⟩ := createIn_cases w p dir x
    · cases made.symm.trans e
    · cases made.symm.trans e
      have new := registry_append_new (w := w)
        (v := w.enter p (tree.lock inode) x.name (joinPath dir x.name) inode) rfl
      refine ⟨congrArg Registry.path new, .of_id ?_ (congrArg Registry.id new)⟩
      simp [enter]
  recovered {q during o v} scanned r mem := by
    simp only [scan] at scanned
    split at scanned
    · cases scanned
    · rename_i names listed
      cases scanned
      obtain ⟨lt, recovered, named, placed⟩ := named_recoverAll mem
      exact ⟨recovered, ⟨names, listed, named⟩, placed, .of_id lt⟩
  placed {r dir} there path := by
    obtain ⟨dir', path', held⟩ := orderly.registered there
    exact .of_id there (eq_of_joinPath_eq held x.holdable_name (path'.symm.trans path))

/-- The identifiers that are made are those within the limits. Each is what its name reads as,
shares the name and the file with no other, and is that of the registries which are created for it
or recovered from a file of that name, in any world and from then on. -/
theorem name_faithful (formatId : Int32) (gtrid bqual : Bytes) (changes : List FileStep)
    (past : List Step) :
    ((∃ x, Xid.make formatId gtrid bqual = .ok x) ↔ gtrid.length ≤ 64 ∧ bqual.length ≤ 64) ∧
      ∀ x, Xid.make formatId gtrid bqual = .ok x →
        (x.formatId = formatId ∧ x.gtrid = gtrid ∧ x.bqual = bqual) ∧ x.Faithful ∧
          Recognises (after past (ofFiles (FileSystem.empty.applyAll changes))) x := by
  refine ⟨⟨?_, ?_⟩, ?_⟩
  · rintro ⟨x, made⟩
    obtain ⟨-, rfl, rfl⟩ := Xid.make_eq_ok_iff.mp made
    exact ⟨x.gtrid_le, x.bqual_le⟩
  · rintro ⟨short, short'⟩
    exact ⟨⟨formatId, gtrid, bqual, short, short'⟩, Xid.make_eq_ok_iff.mpr ⟨rfl, rfl, rfl⟩⟩
  · intro x made
    have orderly := (Orderly.ofFiles changes).after past
    exact ⟨Xid.make_eq_ok_iff.mp made, x.faithful, recognises orderly x⟩

/-- A transaction with a negative format identifier has had a registry in a process that crashed.
The registry that the next process recovers is the transaction's. -/
theorem name_faithful_negative :
    let x : Xid := ⟨-2, [0xA1, 0xB2], [0xC3], by decide, by decide⟩
    let past : List Step := [.openLog {} "n", .create ⟨0⟩ x, .record ⟨0⟩ .sample, .crash ⟨0⟩,
      .openLog {} "n", .scan ⟨1⟩ []]
    let w := after past (ofFiles (FileSystem.empty.applyAll []))
    Xid.make (-2) [0xA1, 0xB2] [0xC3] = .ok x ∧ x.name = "FFFFFFFE02A1B2C3" ∧ x.Faithful ∧
      (w.registry ⟨1⟩).isLive = false ∧ Identifies x w ⟨1⟩ := by
  intro x past w
  have made : Xid.make (-2) [0xA1, 0xB2] [0xC3] = .ok x := by decide
  obtain ⟨-, faithful, recognises⟩ := (name_faithful (-2) [0xA1, 0xB2] [0xC3] [] past).2 x made
  have there : (⟨1⟩ : RegistryRef).index < w.registries.length := by decide +kernel
  have path : (w.registry ⟨1⟩).path = joinPath "./xa-recovery" x.name := by decide +kernel
  exact ⟨made, by decide +kernel, faithful, by decide +kernel, recognises.placed there path⟩

end World

end InDoubt

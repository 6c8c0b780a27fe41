import InDoubt.Proofs.Growth
import InDoubt.Proofs.Sifting

/-!
What a scan makes of one file. If the directory of the log has a file under a name (`Lists`) with
records in it, the scan recovers them under that name, whatever other files it meets, unless the
process owns the name: then it finds nothing there (`finds_scan`). Whether the file is locked is not
asked.
-/

namespace InDoubt

namespace FileSystem

/-- A directory has a file under a name: it is listed there, and its path leads to it. -/
structure Lists (fs : FileSystem) (dir name : String) (inode : Nat) : Prop where
  listed : ∃ ids, fs.registryFiles dir = .ok ids ∧ name ∈ ids
  reached : fs.inodeAt (Utf8.encode (joinPath dir name)) = .ok inode

end FileSystem

namespace World

open FileSystem

variable {v w : World} {q : ProcessRef} {dir id name node : String} {inode : Nat}
  {ids : List String} {ls : List Locator} {records : String → List Locator} {o : ScanReport}

/-- The locations of branches, of those whose registries have an identifier. -/
def locationsUnder (w : World) (id : String) (bs : List BranchRef) : List Locator :=
  ((bs.map w.branch).filter fun b => (w.registry b.registry).id = id).map Branch.location

/-- The branches and their registries exist. -/
def Known (w : World) (bs : List BranchRef) : Prop :=
  ∀ b ∈ bs, b.index < w.branches.length ∧ (w.branch b).registry.index < w.registries.length

/-- What a process has recovered under an identifier has these locations, which are in doubt now. -/
structure Finds (q : ProcessRef) (id : String) (ls : List Locator) (w : World) (o : ScanReport)
    (v : World) : Prop where
  extended : Extends w v
  inDoubt : ∃ found, (v.process q).inDoubt = (w.process q).inDoubt ++ found ∧ v.Known found ∧
    v.locationsUnder id found = ls
  entered : ∀ r ∈ o.recovered, r.index < v.registries.length
  recovered : (∃ r ∈ o.recovered, (v.registry r).id = id) ↔ ls ≠ []

/-- If files are recovered under their names, no two under the same one, the branches under a name
are those of its records. -/
theorem locations_recoveredBranches {first : Nat} (once : ids.Nodup)
    (named : ∀ {i} (lt : i < ids.length), (v.registry ⟨first + i⟩).id = ids[i]) :
    ((recoveredBranches records node ids first).filter
        fun b => (v.registry b.registry).id = name).map Branch.location =
      if name ∈ ids then records name else [] := by
  have placed {b : Branch} (mem : b ∈ recoveredBranches records node ids first) :
      ∃ i, ∃ lt : i < ids.length, b.registry = ⟨first + i⟩ ∧
        (v.registry b.registry).id = ids[i] := by
    obtain ⟨ge, lt⟩ := bounds_of_mem_recoveredBranches mem
    have e : b.registry = ⟨first + (b.registry.index - first)⟩ := by
      rw [Nat.add_sub_cancel' ge]
    exact ⟨_, by omega, e, (congrArg (fun r => (v.registry r).id) e).trans (named (by omega))⟩
  by_cases listed : name ∈ ids
  · obtain ⟨i, lt, rfl⟩ := List.getElem_of_mem listed
    have same : (recoveredBranches records node ids first).filter
        (fun b => (v.registry b.registry).id = ids[i]) =
          (recoveredBranches records node ids first).filter
            fun b => b.registry = ⟨first + i⟩ := by
      refine List.filter_congr fun b mem => ?_
      obtain ⟨j, lt', e, id⟩ := placed mem
      rw [id, e]
      simp [once.getElem_inj_iff]
    rw [same, filter_recoveredBranches lt first, List.map_map, if_pos listed]
    exact List.map_id _
  · rw [if_neg listed, List.filter_eq_nil_iff.mpr]
    · rfl
    · intro b mem same
      obtain ⟨j, lt', -, id⟩ := placed mem
      exact listed (of_decide_eq_true same ▸ id ▸ List.getElem_mem lt')

/-- What has been recovered under one name, where no name is listed twice. -/
theorem Recovers.finds (h : Recovers q dir records ids w o v) (extended : Extends w v)
    (once : ids.Nodup) (name : String) :
    Finds q name (if name ∈ ids then records name else []) w o v where
  extended := extended
  inDoubt := by
    have branches := map_branch_refs h.branches
    have named {i : Nat} (lt : i < (recorded records ids).length) :
        (v.registry ⟨w.registries.length + i⟩).id = (recorded records ids)[i] := by
      simp [registry, h.registries, lt, recoveredRegistry]
    refine ⟨_, h.inDoubt, fun b mem => ⟨?_, ?_⟩, ?_⟩
    · obtain ⟨i, lt, rfl⟩ := List.mem_map.mp mem
      rw [h.branches, List.length_append]
      exact Nat.add_lt_add_left (List.mem_range.mp lt) _
    · have entered := List.mem_map_of_mem (f := v.branch) mem
      rw [branches] at entered
      rw [h.registries, List.length_append, List.length_map]
      exact (bounds_of_mem_recoveredBranches entered).2
    · rw [locationsUnder, branches]
      refine (locations_recoveredBranches (once.filter _) named).trans ?_
      by_cases filled : records name = [] <;> simp [filled]
  entered r mem := by
    rw [h.recovered] at mem
    obtain ⟨i, lt, rfl⟩ := List.mem_map.mp mem
    rw [h.registries, List.length_append, List.length_map]
    exact Nat.add_lt_add_left (List.mem_range.mp lt) _
  recovered := by
    constructor
    · rintro ⟨r, hr, named⟩
      obtain ⟨id, mem, filled, e⟩ := h.mem_iff.mp ⟨r, hr, rfl⟩
      rw [e] at named
      obtain rfl : id = name := named
      rwa [if_pos mem]
    · intro nonempty
      have mem : name ∈ ids := by
        by_contra out
        exact nonempty (if_neg out)
      rw [if_pos mem] at nonempty
      obtain ⟨r, hr, e⟩ := h.mem_iff.mpr ⟨name, mem, nonempty, rfl⟩
      exact ⟨r, hr, congrArg Registry.id e⟩

/-- A scan finds the records of a file that its log has under a name, unless it owns that name. -/
theorem finds_scan (sound : w.files.Sound) (running : q.index < w.processes.length)
    (lists : w.files.Lists (w.process q).dir name inode)
    (content : w.files.content inode = recordBytes ls) (parsed : ∀ l ∈ ls, l.Parsed) :
    ∃ o v, w.scan q [] = (.ok o, v) ∧
      Finds q name (if name ∈ (w.process q).openIds then [] else ls.map Locator.reread) w o v := by
  obtain ⟨⟨ids, listed, mem⟩, reached⟩ := lists
  obtain ⟨top, o, v, scanned, -, sifts⟩ := sifts_scan sound running listed
  have once : (w.unowned q ids).Nodup := (increasing_registryFiles sound listed).2.filter _
  have extended : Extends w v := by
    have extended := extends_scan w q []
    rwa [scanned] at extended
  have read : w.files.readRecords (joinPath (w.process q).dir name) =
      .ok (ls.map Locator.reread) := readRecords_of_content reached content parsed
  have records : w.files.recordsAt (w.process q).dir name = ls.map Locator.reread := by
    simp only [recordsAt, read]
  have looked : name ∈ w.unowned q ids ↔ name ∉ (w.process q).openIds := by
    simp [unowned, mem]
  have finds := sifts.recovers.finds extended once name
  simp only [looked, records, ite_not] at finds
  exact ⟨o, v, scanned, finds.extended, finds.inDoubt, finds.entered, finds.recovered⟩

end World

end InDoubt

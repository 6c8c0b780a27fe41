import InDoubt.Proofs.Discovery

/-!
What the first scan of a log makes of one file, by what is read there (`Gleans`): a file with
records is recovered once, with all of them in doubt; one without goes unless it is locked; one that
cannot be read or parsed is one failure and stays. Other files of the directory make no difference.
-/

namespace InDoubt.World

open FileSystem

variable {w v : World} {q : ProcessRef} {fs : FileSystem} {dir id : String} {ids : List String}
  {inode : Nat} {top : Place} {o : ScanReport}

/-- The records that have been read. -/
def recordsOf : Except Failure (List Locator) → List Locator
  | .ok ls => ls
  | .error _ => []

/-- Why none have. -/
def faultsOf : Except Failure (List Locator) → List Failure
  | .ok _ => []
  | .error f => [f]

/-- What has become of a file under a name that a process has scanned for the first time, by what
was read there. -/
structure Gleans (q : ProcessRef) (dir id : String) (inode : Nat)
    (read : Except Failure (List Locator)) (w : World) (o : ScanReport) (v : World) : Prop where
  /-- The handles are those of the records, in their order. -/
  locations : v.locationsUnder id (v.process q).inDoubt = recordsOf read
  recovered : (o.recovered.map v.registry).filter (·.id = id) =
    if recordsOf read = [] then [] else [recoveredRegistry q dir id (recordsOf read)]
  failures : o.failures.filter (·.path? = some (joinPath dir id)) = faultsOf read
  claimed : id ∈ (v.process q).openIds ↔ recordsOf read ≠ []
  /-- A file without records goes, unless it is locked. -/
  reached : v.files.inodeAt (Utf8.encode (joinPath dir id)) =
    if read = .ok [] ∧ w.files.isLocked inode = false then .error .notFound else .ok inode
  content : v.files.content inode = w.files.content inode

theorem filter_eq_singleton (once : ids.Nodup) (mem : id ∈ ids) :
    ids.filter (· = id) = [id] := by
  rw [List.filter_eq, List.count_eq_one_of_mem once mem]
  rfl

/-- One registry is recovered under a name that has records. -/
theorem Recovers.filter_registry {records : String → List Locator}
    (h : Recovers q dir records ids w o v) (once : ids.Nodup) (mem : id ∈ ids) :
    (o.recovered.map v.registry).filter (·.id = id) =
      if records id = [] then [] else [recoveredRegistry q dir id (records id)] := by
  have own : ((recorded records ids).map fun id => recoveredRegistry q dir id (records id)).filter
        (·.id = id) = ((recorded records ids).filter (· = id)).map
          fun id => recoveredRegistry q dir id (records id) :=
    List.filter_map
  rw [h.map_registry, own]
  by_cases blank : records id = []
  · have nowhere : (recorded records ids).filter (· = id) = [] := by
      refine List.filter_eq_nil_iff.mpr fun other filled same => ?_
      obtain rfl := of_decide_eq_true same
      exact of_decide_eq_true (List.mem_filter.mp filled).2 blank
    rw [nowhere, if_pos blank]
    rfl
  · have filled : id ∈ recorded records ids :=
      List.mem_filter.mpr ⟨mem, decide_eq_true blank⟩
    have once' : (recorded records ids).Nodup := once.filter _
    rw [filter_eq_singleton once' filled, if_neg blank]
    rfl

/-- One failure is reported of a name that cannot be read. -/
theorem filter_faults (once : ids.Nodup) (mem : id ∈ ids) :
    (ids.filterMap (fs.faultAt? dir)).filter (·.path? = some (joinPath dir id)) =
      (fs.faultAt? dir id).toList := by
  have own : ids.filterMap (fun other =>
        (fs.faultAt? dir other).filter (·.path? = some (joinPath dir id))) =
      (ids.filter (· = id)).filterMap (fs.faultAt? dir) := by
    rw [List.filterMap_filter]
    refine List.filterMap_congr fun other _ => ?_
    cases fault : fs.faultAt? dir other with
    | none => simp
    | some f =>
        have path := readRecords_eq_error (faultAt?_eq_some_iff.mp fault)
        by_cases same : other = id
        · simp [same, path]
        · have apart : joinPath dir other ≠ joinPath dir id := fun e => same (joinPath_injective e)
          simp [same, path, apart]
  rw [List.filter_filterMap, own, filter_eq_singleton once mem]
  cases fault : fs.faultAt? dir id <;> simp [fault]

theorem isLitter_eq_true_iff (reached : fs.inodeAt (Utf8.encode (joinPath dir id)) = .ok inode) :
    fs.isLitter dir id = true ↔
      fs.readRecords (joinPath dir id) = .ok [] ∧ fs.isLocked inode = false := by
  unfold isLitter
  rw [reached]
  cases fs.readRecords (joinPath dir id) with
  | error f => simp
  | ok ls => cases ls <;> simp

/-- The first scan of a process makes of a file that it does not own what it reads there. -/
theorem gleans_scan (sound : w.files.Sound) (running : q.index < w.processes.length)
    (fresh : (w.process q).inDoubt = []) (free : id ∉ (w.process q).openIds)
    (lists : w.files.Lists (w.process q).dir id inode) :
    ∃ o v, w.scan q [] = (.ok o, v) ∧
      Gleans q (w.process q).dir id inode
        (w.files.readRecords (joinPath (w.process q).dir id)) w o v := by
  obtain ⟨⟨ids, listed, mem⟩, reached⟩ := lists
  obtain ⟨top, o, v, scanned, rfl | stocks, sifts⟩ := sifts_scan sound running listed
  · cases mem
  have once : (w.unowned q ids).Nodup := (increasing_registryFiles sound listed).2.filter _
  have looked : id ∈ w.unowned q ids := List.mem_filter.mpr ⟨mem, decide_eq_true free⟩
  have extended : Extends w v := by
    have extended := extends_scan w q []
    rwa [scanned] at extended
  have shelves : w.files.Shelves (w.process q).dir top (w.unowned q ids) :=
    stocks.mono fun mem => (List.mem_filter.mp mem).1
  have records : w.files.recordsAt (w.process q).dir id =
      recordsOf (w.files.readRecords (joinPath (w.process q).dir id)) := rfl
  refine ⟨o, v, scanned, ?_, ?_, ?_, ?_, ?_, ?_⟩
  · obtain ⟨found, inDoubt, -, locations⟩ := (sifts.recovers.finds extended once id).inDoubt
    rw [inDoubt, fresh, List.nil_append, locations, if_pos looked, records]
  · have one := sifts.recovers.filter_registry once looked
    rw [records] at one
    exact one
  · rw [sifts.failures, filter_faults once looked]
    unfold faultAt?
    cases w.files.readRecords (joinPath (w.process q).dir id) <;> rfl
  · rw [sifts.openIds, or_iff_right free, and_iff_right looked, records]
  · have filed := shelves.filed_litter
    have gone_iff : Utf8.encode id :: top ∈
          placesIn top ((w.unowned q ids).filter (w.files.isLitter (w.process q).dir)) ↔
        w.files.readRecords (joinPath (w.process q).dir id) = .ok [] ∧
          w.files.isLocked inode = false := by
      rw [mem_placesIn_iff, List.mem_filter, and_iff_right looked, isLitter_eq_true_iff reached]
    rw [sifts.files]
    split
    · rename_i litter
      obtain ⟨held, _, stands⟩ := shelves.file looked
      have home := shelves.opens.homeAt_of_readRecords held stands litter.1
      refine inodeAt_of_vacant (locateEntry_kept filed.keepsWays home.located) home.plain ?_
      rw [node?_discard, if_pos ⟨gone_iff.mpr litter, List.cons_ne_nil _ _⟩]
    · rename_i stays
      rw [shelves.inodeAt_discard filed looked fun gone => stays (gone_iff.mp gone), reached]
  · rw [sifts.files]
    rfl

/-- The same of a process that has just been started. -/
theorem gleans_openLog (config : Config) (node : String) (sound : w.files.Sound)
    (lists : w.files.Lists config.dir id inode) :
    ∃ o v, (w.openLog config node).2.scan (w.openLog config node).1 [] = (.ok o, v) ∧
      Gleans (w.openLog config node).1 config.dir id inode
        (w.files.readRecords (joinPath config.dir id)) (w.openLog config node).2 o v := by
  have opened := process_openLog config node w
  have running : (w.openLog config node).1.index < (w.openLog config node).2.processes.length := by
    simp [openLog]
  have sound' : (w.openLog config node).2.files.Sound := sound
  have fresh : ((w.openLog config node).2.process (w.openLog config node).1).inDoubt = [] := by
    rw [opened]
  have free : id ∉ ((w.openLog config node).2.process (w.openLog config node).1).openIds := by
    rw [opened]
    exact OpenSet.not_mem_empty id
  have gleans := gleans_scan sound' running fresh free (by rw [opened]; exact lists)
  rw [opened] at gleans
  exact gleans

end InDoubt.World

import InDoubt.Proofs.FileSystem.Reading
import InDoubt.Proofs.Ownership
import InDoubt.Proofs.Recovering

/-!
What an undisturbed scan makes of a directory, whatever its files hold. The files that the process
does not own are sifted (`Sifts`): those with records are recovered, those that cannot be read or
parsed are failures, those without records are discarded unless they are locked, each in the order
of the listing. What becomes of a file depends on the tree that the scan has found, since discarding
one file changes the reading of no other.
-/

namespace InDoubt

namespace FileSystem

variable {fs : FileSystem} {dir id : String} {top : Place} {ids : List String} {inode : Nat}
  {done : List Place}

/-- The records that a file of a directory gives. -/
def recordsAt (fs : FileSystem) (dir id : String) : List Locator :=
  match fs.readRecords (joinPath dir id) with
  | .ok ls => ls
  | .error _ => []

/-- Why a file of a directory cannot be read. -/
def faultAt? (fs : FileSystem) (dir id : String) : Option Failure :=
  match fs.readRecords (joinPath dir id) with
  | .ok _ => none
  | .error f => some f

/-- A file of a directory that has no records and that nobody holds. -/
def isLitter (fs : FileSystem) (dir id : String) : Bool :=
  match fs.readRecords (joinPath dir id), fs.inodeAt (Utf8.encode (joinPath dir id)) with
  | .ok [], .ok inode => !fs.isLocked inode
  | _, _ => false

theorem recordsAt_eq_iff {ls : List Locator} (nonempty : ls ≠ []) :
    fs.recordsAt dir id = ls ↔ fs.readRecords (joinPath dir id) = .ok ls := by
  unfold recordsAt
  cases fs.readRecords (joinPath dir id) with
  | ok ls => simp
  | error f => simp [Ne.symm nonempty]

theorem faultAt?_eq_some_iff {f : Failure} :
    fs.faultAt? dir id = some f ↔ fs.readRecords (joinPath dir id) = .error f := by
  unfold faultAt?
  cases fs.readRecords (joinPath dir id) <;> simp

/-- A directory has files under these names. -/
structure Shelves (fs : FileSystem) (dir : String) (top : Place) (ids : List String) : Prop where
  opens : fs.Opens dir top
  file : ∀ {id}, id ∈ ids → Holdable id ∧
    ∃ inode, fs.node? (Utf8.encode id :: top) = some (.file inode)

/-- A directory can be listed, and has files under these names and no others. -/
structure Stocks (fs : FileSystem) (dir : String) (top : Place) (ids : List String) : Prop
    extends Shelves fs dir top ids where
  checked : checkPath (Utf8.encode dir) = .ok ()
  whole : ∀ {id inode}, fs.node? (Utf8.encode id :: top) = some (.file inode) → id ∈ ids

/-- The places of these names in a directory. -/
def placesIn (top : Place) (ids : List String) : List Place :=
  ids.map fun id => Utf8.encode id :: top

theorem mem_placesIn_iff : Utf8.encode id :: top ∈ placesIn top ids ↔ id ∈ ids := by
  simp only [placesIn, List.mem_map]
  constructor
  · rintro ⟨other, mem, same⟩
    exact eq_of_place_eq same ▸ mem
  · exact fun mem => ⟨id, mem, rfl⟩

/-- Litter has no records, and can be read. -/
theorem recordsAt_of_isLitter (h : fs.isLitter dir id = true) :
    fs.recordsAt dir id = [] ∧ fs.faultAt? dir id = none := by
  unfold isLitter at h
  split at h
  · rename_i blank _
    simp only [recordsAt, faultAt?, blank, and_self]
  · cases h

theorem faultAt?_of_recordsAt (h : fs.recordsAt dir id ≠ []) : fs.faultAt? dir id = none := by
  unfold recordsAt at h
  unfold faultAt?
  cases read : fs.readRecords (joinPath dir id) with
  | ok ls => rfl
  | error f => exact absurd (by rw [read]) h

/-- A file without records is not among those that have any. -/
theorem mem_filled_cons_iff (blank : fs.recordsAt dir id = []) {other : String} :
    other ∈ id :: ids ∧ fs.recordsAt dir other ≠ [] ↔
      other ∈ ids ∧ fs.recordsAt dir other ≠ [] := by
  rw [List.mem_cons, or_and_right]
  refine or_iff_right ?_
  rintro ⟨rfl, filled⟩
  exact filled blank

/-- What is listed is what the directory has, unless it is missing. -/
theorem stocks_of_registryFiles (sound : fs.Sound) (listed : fs.registryFiles dir = .ok ids) :
    ids = [] ∨ ∃ top, fs.Stocks dir top ids := by
  obtain ⟨missing, -⟩ | ⟨top, located, directory, ids_iff⟩ := mem_registryFiles_iff sound listed
  · exact .inl missing
  · refine .inr ⟨top, ⟨.of_locate located directory, fun {id} mem => ?_⟩,
      (locate_eq_ok_iff.mp located).1, fun stands => (ids_iff _).mpr ⟨_, stands⟩⟩
    obtain ⟨inode, stands⟩ := (ids_iff id).mp mem
    exact ⟨sound.holdable stands, inode, stands⟩

namespace Shelves

theorem mono (h : fs.Shelves dir top ids) {fewer : List String}
    (sub : ∀ {id}, id ∈ fewer → id ∈ ids) : fs.Shelves dir top fewer :=
  ⟨h.opens, fun mem => h.file (sub mem)⟩

/-- A file is reached as it was found while others are discarded. -/
theorem inodeAt_discard (h : fs.Shelves dir top ids) (filed : fs.Filed done) (mem : id ∈ ids)
    (stays : Utf8.encode id :: top ∉ done) :
    (fs.discard done).inodeAt (Utf8.encode (joinPath dir id)) =
      fs.inodeAt (Utf8.encode (joinPath dir id)) := by
  obtain ⟨held, inode, stands⟩ := h.file mem
  rw [h.opens.inodeAt_eq held stands, (h.opens.kept filed.keepsWays).inodeAt_eq held]
  exact (node?_discard_of_not_mem stays).trans stands

/-- It is read as it was found. -/
theorem readRecords_discard (h : fs.Shelves dir top ids) (filed : fs.Filed done) (mem : id ∈ ids)
    (stays : Utf8.encode id :: top ∉ done) :
    (fs.discard done).readRecords (joinPath dir id) = fs.readRecords (joinPath dir id) :=
  readRecords_congr (h.inodeAt_discard filed mem stays) fun _ => rfl

theorem recordsAt_discard (h : fs.Shelves dir top ids) (filed : fs.Filed done) (mem : id ∈ ids)
    (stays : Utf8.encode id :: top ∉ done) :
    (fs.discard done).recordsAt dir id = fs.recordsAt dir id := by
  simp only [recordsAt, h.readRecords_discard filed mem stays]

theorem faultAt?_discard (h : fs.Shelves dir top ids) (filed : fs.Filed done) (mem : id ∈ ids)
    (stays : Utf8.encode id :: top ∉ done) :
    (fs.discard done).faultAt? dir id = fs.faultAt? dir id := by
  simp only [faultAt?, h.readRecords_discard filed mem stays]

theorem isLitter_discard (h : fs.Shelves dir top ids) (filed : fs.Filed done) (mem : id ∈ ids)
    (stays : Utf8.encode id :: top ∉ done) :
    (fs.discard done).isLitter dir id = fs.isLitter dir id := by
  simp only [isLitter, h.readRecords_discard filed mem stays, h.inodeAt_discard filed mem stays]
  rfl

/-- A file without records is discarded if it is litter. -/
theorem unlinkUnlocked_discard (h : fs.Shelves dir top ids) (filed : fs.Filed done)
    (mem : id ∈ ids) (stays : Utf8.encode id :: top ∉ done)
    (blank : fs.readRecords (joinPath dir id) = .ok []) :
    (fs.discard done).unlinkUnlocked (joinPath dir id) =
      if fs.isLitter dir id then fs.discard ((Utf8.encode id :: top) :: done)
      else fs.discard done := by
  obtain ⟨held, inode, stands⟩ := h.file mem
  have opens := h.opens.kept filed.keepsWays
  have home := opens.homeAt_of_readRecords held ((node?_discard_of_not_mem stays).trans stands)
    ((h.readRecords_discard filed mem stays).trans blank)
  have reached := (h.opens.homeAt_of_readRecords held stands blank).inodeAt
  have litter : fs.isLitter dir id = !fs.isLocked inode := by simp only [isLitter, blank, reached]
  have locked : (fs.discard done).isLocked inode = fs.isLocked inode := rfl
  rw [home.unlinkUnlocked, litter, locked, discard_cons]
  cases fs.isLocked inode <;> rfl

/-- Litter is a file in the directory. -/
theorem filed_litter (h : fs.Shelves dir top ids) :
    fs.Filed (placesIn top (ids.filter (fs.isLitter dir))) := by
  intro place mem
  obtain ⟨id, litter, rfl⟩ := List.mem_map.mp mem
  exact (h.file (List.mem_filter.mp litter).1).2

end Shelves

end FileSystem

namespace World

open FileSystem

variable {v w : World} {q : ProcessRef} {fs : FileSystem} {dir id : String} {top : Place}
  {ids names : List String} {o : ScanReport} {done : List Place}

/-! The recovery of one file. -/

theorem recover_of_error {f : Failure} (fault : w.files.readRecords (joinPath dir id) = .error f)
    (found : ∀ path, f ≠ .readFailed path (.system .notFound)) :
    w.recover q dir id = (.failed f, w) := by
  simp only [recover, fault]

theorem recover_of_empty (blank : w.files.readRecords (joinPath dir id) = .ok []) :
    w.recover q dir id =
      (.nothing, { w with files := w.files.unlinkUnlocked (joinPath dir id) }) := by
  simp only [recover, blank]

theorem recover_of_records {ls : List Locator} (nonempty : ls ≠ [])
    (read : w.files.readRecords (joinPath dir id) = .ok ls) :
    w.recover q dir id =
      (.recovered ⟨w.registries.length⟩, (w.adopt q id (joinPath dir id) ls).2) := by
  cases ls with
  | nil => exact absurd rfl nonempty
  | cons l ls =>
      simp only [recover, read]
      rfl

/-- The recovery of one file claims no other identifier. -/
theorem mem_openIds_recover {other : String} (running : q.index < w.processes.length)
    (apart : other ≠ id) :
    other ∈ ((w.recover q dir id).2.process q).openIds ↔ other ∈ (w.process q).openIds := by
  obtain ⟨_, _, -, -, e⟩ | ⟨_, _, -, e⟩ := recover_cases w q dir id <;> rw [e]
  · rfl
  · rw [mem_openIds_adopt running]
    simp [apart]

theorem length_processes_recover (w : World) (q : ProcessRef) (dir id : String) :
    (w.recover q dir id).2.processes.length = w.processes.length := by
  obtain ⟨_, _, -, -, e⟩ | ⟨_, _, -, e⟩ := recover_cases w q dir id <;> rw [e]
  simp [processes_adopt]

/-- What is owned once one file with records has been recovered, and others are. -/
theorem mem_openIds_adopt_or (running : q.index < w.processes.length)
    (filled : fs.recordsAt dir id ≠ []) {path other : String} {ls : List Locator} :
    other ∈ ((w.adopt q id path ls).2.process q).openIds ∨
        other ∈ ids ∧ fs.recordsAt dir other ≠ [] ↔
      other ∈ (w.process q).openIds ∨ other ∈ id :: ids ∧ fs.recordsAt dir other ≠ [] := by
  rw [mem_openIds_adopt running, List.mem_cons]
  constructor
  · rintro ((old | ⟨-, rfl⟩) | later)
    · exact .inl old
    · exact .inr ⟨.inl rfl, filled⟩
    · exact .inr ⟨.inr later.1, later.2⟩
  · rintro (old | ⟨rfl | later, filled'⟩)
    · exact .inl (.inl old)
    · exact .inl (.inr ⟨rfl, rfl⟩)
    · exact .inr ⟨later, filled'⟩

/-- The names that follow are as free as before. -/
theorem not_mem_openIds_adopt (running : q.index < w.processes.length) (fresh : id ∉ ids)
    (free : ∀ other ∈ ids, other ∉ (w.process q).openIds) (path : String) (ls : List Locator) :
    ∀ other ∈ ids, other ∉ ((w.adopt q id path ls).2.process q).openIds := by
  intro other mem
  rw [mem_openIds_adopt running, not_or]
  exact ⟨free other mem, fun same => fresh (same.2 ▸ mem)⟩

/-! The recovery of all files. -/

/-- The names among these that a process does not own. -/
def unowned (w : World) (q : ProcessRef) (names : List String) : List String :=
  names.filter (· ∉ (w.process q).openIds)

theorem recoverAll_of_unowned (free : id ∉ (w.process q).openIds) :
    recoverAll q dir (id :: ids) w =
      ((w.recover q dir id).1.addTo (recoverAll q dir ids (w.recover q dir id).2).1,
        (recoverAll q dir ids (w.recover q dir id).2).2) := by
  simp only [recoverAll, if_neg free]

/-- A scan looks at the names only that its process does not own when it starts. -/
theorem recoverAll_unowned (running : q.index < w.processes.length) (once : names.Nodup) :
    recoverAll q dir names w = recoverAll q dir (w.unowned q names) w := by
  induction names generalizing w with
  | nil => rfl
  | cons id rest ih =>
      obtain ⟨fresh, once⟩ := List.nodup_cons.mp once
      by_cases owned : id ∈ (w.process q).openIds
      · have skipped : w.unowned q (id :: rest) = w.unowned q rest := by simp [unowned, owned]
        rw [skipped, recoverAll, if_pos owned, ih running once]
      · have looked : w.unowned q (id :: rest) = id :: w.unowned q rest := by
          simp [unowned, owned]
        have same : (w.recover q dir id).2.unowned q rest = w.unowned q rest := by
          refine List.filter_congr fun other mem => ?_
          have apart : other ≠ id := by
            rintro rfl
            exact fresh mem
          simp only [mem_openIds_recover running apart]
        have running' : q.index < (w.recover q dir id).2.processes.length := by
          rwa [length_processes_recover]
        rw [looked, recoverAll_of_unowned owned, recoverAll_of_unowned owned, ih running' once,
          same]

/-- What a scan makes of files that its process does not own: what it recovers, in which order it
fails, what it owns then and what it leaves of the tree. -/
structure Sifts (q : ProcessRef) (fs : FileSystem) (dir : String) (top : Place)
    (ids : List String) (w : World) (o : ScanReport) (v : World) : Prop where
  recovers : Recovers q dir (fs.recordsAt dir) ids w ⟨o.recovered, []⟩ v
  failures : o.failures = ids.filterMap (fs.faultAt? dir)
  openIds : ∀ id, id ∈ (v.process q).openIds ↔
    id ∈ (w.process q).openIds ∨ id ∈ ids ∧ fs.recordsAt dir id ≠ []
  files : v.files = w.files.discard (placesIn top (ids.filter (fs.isLitter dir)))

namespace Sifts

theorem nil : Sifts q fs dir top [] w ⟨[], []⟩ w := by
  refine ⟨.nil, rfl, by simp, ?_⟩
  simp [placesIn]

/-- One file cannot be read. -/
theorem fail {f : Failure} (fault : fs.readRecords (joinPath dir id) = .error f)
    (h : Sifts q fs dir top ids w o v) :
    Sifts q fs dir top (id :: ids) w ((Recovery.failed f).addTo o) v := by
  have records : fs.recordsAt dir id = [] := by simp only [recordsAt, fault]
  have fault' : fs.faultAt? dir id = some f := by simp only [faultAt?, fault]
  have kept : fs.isLitter dir id = false := by simp only [isLitter, fault]
  refine ⟨.skip records h.recovers, ?_, fun other => ?_, ?_⟩
  · simp [Recovery.addTo, fault', h.failures]
  · rw [h.openIds, mem_filled_cons_iff records]
  · rw [h.files, List.filter_cons_of_neg (by simp [kept])]

/-- One file without records stays, or is discarded. -/
theorem pass {files : FileSystem} (blank : fs.readRecords (joinPath dir id) = .ok [])
    (left : files =
      if fs.isLitter dir id then w.files.discard [Utf8.encode id :: top] else w.files)
    (h : Sifts q fs dir top ids { w with files } o v) :
    Sifts q fs dir top (id :: ids) w (Recovery.nothing.addTo o) v := by
  have records : fs.recordsAt dir id = [] := by simp only [recordsAt, blank]
  have well : fs.faultAt? dir id = none := by simp only [faultAt?, blank]
  refine ⟨.skip records h.recovers, ?_, fun other => ?_, ?_⟩
  · simp [Recovery.addTo, well, h.failures]
  · rw [h.openIds, mem_filled_cons_iff records]
    rfl
  · rw [h.files, left]
    split
    · rename_i litter
      rw [List.filter_cons_of_pos litter, ← discard_append]
      rfl
    · rename_i kept
      rw [List.filter_cons_of_neg kept]

/-- One file with records is recovered. -/
theorem adopt (running : q.index < w.processes.length) {ls : List Locator} (nonempty : ls ≠ [])
    (read : fs.readRecords (joinPath dir id) = .ok ls)
    (h : Sifts q fs dir top ids (w.adopt q id (joinPath dir id) ls).2 o v) :
    Sifts q fs dir top (id :: ids) w
      ((Recovery.recovered ⟨w.registries.length⟩).addTo o) v := by
  have records : fs.recordsAt dir id = ls := by simp only [recordsAt, read]
  have well : fs.faultAt? dir id = none := by simp only [faultAt?, read]
  have kept : fs.isLitter dir id = false := by
    cases ls with
    | nil => exact absurd rfl nonempty
    | cons l ls => simp only [isLitter, read]
  refine ⟨.adopt running (records ▸ nonempty) (records.symm ▸ h.recovers), ?_, fun other => ?_, ?_⟩
  · simp [Recovery.addTo, well, h.failures]
  · rw [h.openIds, mem_openIds_adopt_or running (records ▸ nonempty)]
  · rw [h.files, List.filter_cons_of_neg (by simp [kept])]
    rfl

end Sifts

/-- The files of a directory are sifted one after another. Those discarded so far change the reading
of none that follows. -/
theorem sifts_recoverAll (shelves : fs.Shelves dir top ids)
    (running : q.index < w.processes.length) (once : ids.Nodup)
    (free : ∀ id ∈ ids, id ∉ (w.process q).openIds) (filed : fs.Filed done)
    (files : w.files = fs.discard done) (stay : ∀ id ∈ ids, Utf8.encode id :: top ∉ done) :
    Sifts q fs dir top ids w (recoverAll q dir ids w).1 (recoverAll q dir ids w).2 := by
  induction ids generalizing w done with
  | nil => exact .nil
  | cons id rest ih =>
      obtain ⟨fresh, once⟩ := List.nodup_cons.mp once
      have first := List.mem_cons_self (a := id) (l := rest)
      have read := shelves.readRecords_discard filed first (stay id first)
      have shelves' := shelves.mono fun {_} mem => List.mem_cons_of_mem id mem
      have free' : ∀ id ∈ rest, id ∉ (w.process q).openIds := fun other mem =>
        free other (List.mem_cons_of_mem _ mem)
      have stay' : ∀ id ∈ rest, Utf8.encode id :: top ∉ done := fun other mem =>
        stay other (List.mem_cons_of_mem _ mem)
      rw [← files] at read
      rw [recoverAll_of_unowned (free id first)]
      obtain ⟨f, fault⟩ | ⟨ls, held⟩ : (∃ f, fs.readRecords (joinPath dir id) = .error f) ∨
          ∃ ls, fs.readRecords (joinPath dir id) = .ok ls := by
        cases fs.readRecords (joinPath dir id) with
        | error f => exact .inl ⟨f, rfl⟩
        | ok ls => exact .inr ⟨ls, rfl⟩
      · obtain ⟨holdable, inode, stands⟩ := shelves.file first
        have found (path : String) : f ≠ .readFailed path (.system .notFound) := by
          rintro rfl
          exact shelves.opens.readRecords_ne_notFound holdable stands path fault
        rw [recover_of_error (read.trans fault) found]
        exact .fail fault (ih shelves' running once free' filed files stay')
      · by_cases nonempty : ls = []
        · subst nonempty
          rw [recover_of_empty (read.trans held)]
          have left := shelves.unlinkUnlocked_discard filed first (stay id first) held
          rw [← files] at left
          by_cases litter : fs.isLitter dir id = true
          · rw [if_pos litter] at left
            refine .pass held ?_ (ih shelves' running once free' ?_ left ?_)
            · rw [left, if_pos litter, files, discard_cons, discard_cons, discard_nil]
            · intro place mem
              rcases List.mem_cons.mp mem with rfl | earlier
              · exact (shelves.file first).2
              · exact filed place earlier
            · intro other mem gone
              rcases List.mem_cons.mp gone with same | earlier
              · exact fresh (eq_of_place_eq same ▸ mem)
              · exact stay' other mem earlier
          · rw [if_neg litter] at left
            refine .pass held ?_ (ih shelves' running once free' filed (left.trans files) stay')
            rw [left, if_neg litter]
        · rw [recover_of_records nonempty (read.trans held)]
          have running' : q.index < (w.adopt q id (joinPath dir id) ls).2.processes.length := by
            simpa [processes_adopt] using running
          have free'' := not_mem_openIds_adopt running fresh free' (joinPath dir id) ls
          exact .adopt running nonempty held (ih shelves' running' once free'' filed files stay')

/-- If files hold records under their names, those that have any are recovered and none fails. -/
theorem recovers_recoverAll {records : String → List Locator}
    (running : q.index < w.processes.length) (sound : w.files.Sound)
    (holding : w.files.Holding dir top records)
    (faithful : ∀ id, ∀ l ∈ records id, l.Faithful) (once : ids.Nodup)
    (free : ∀ id ∈ ids, id ∉ (w.process q).openIds)
    (there : ∀ id ∈ ids, ∃ inode, w.files.node? (Utf8.encode id :: top) = some (.file inode)) :
    Recovers q dir records ids w (recoverAll q dir ids w).1 (recoverAll q dir ids w).2 := by
  have read (id : String) (mem : id ∈ ids) :
      w.files.readRecords (joinPath dir id) = .ok (records id) := by
    obtain ⟨inode, stands⟩ := there id mem
    exact holding.readRecords (faithful id) stands
  have shelves : w.files.Shelves dir top ids := by
    refine ⟨holding.opens, fun {id} mem => ?_⟩
    obtain ⟨inode, stands⟩ := there id mem
    exact ⟨sound.holdable stands, inode, stands⟩
  have filed : w.files.Filed [] := nofun
  have sifts := sifts_recoverAll shelves running once free filed discard_nil.symm
    fun _ _ => List.not_mem_nil
  have sound' : (recoverAll q dir ids w).1.failures = [] := by
    rw [sifts.failures]
    refine List.filterMap_eq_nil_iff.mpr fun id mem => ?_
    simp only [faultAt?, read id mem]
  have recovers : Recovers q dir records ids w ⟨(recoverAll q dir ids w).1.recovered, []⟩
      (recoverAll q dir ids w).2 := by
    refine sifts.recovers.congr fun id mem => ?_
    simp only [recordsAt, read id mem]
  exact ⟨sound', recovers.recovered, recovers.registries, recovers.branches, recovers.inDoubt⟩

/-- A scan fails if the directory cannot be listed. -/
theorem scan_of_unlisted {f : Failure} {during : List FileStep}
    (unlisted : w.files.registryFiles (w.process q).dir = .error f) :
    w.scan q during = (.error f, w) := by
  simp only [World.scan, unlisted]

/-- A scan is the recovery of what it lists, in the tree that others have left by then. -/
theorem scan_eq_recoverAll (listed : w.files.registryFiles (w.process q).dir = .ok names)
    (during : List FileStep) :
    let met : World := { w with files := w.files.applyAll during }
    w.scan q during = (.ok (recoverAll q (w.process q).dir names met).1,
      (recoverAll q (w.process q).dir names met).2) := by
  simp only [World.scan, listed]

/-- A scan that nobody disturbs is the recovery of what it lists. -/
theorem scan_of_listed (listed : w.files.registryFiles (w.process q).dir = .ok names) :
    w.scan q [] = (.ok (recoverAll q (w.process q).dir names w).1,
      (recoverAll q (w.process q).dir names w).2) :=
  scan_eq_recoverAll listed []

/-- A scan sifts the files that it lists and does not own. -/
theorem sifts_scan (sound : w.files.Sound) (running : q.index < w.processes.length)
    (listed : w.files.registryFiles (w.process q).dir = .ok names) :
    ∃ top o v, w.scan q [] = (.ok o, v) ∧
      (names = [] ∨ w.files.Stocks (w.process q).dir top names) ∧
      Sifts q w.files (w.process q).dir top (w.unowned q names) w o v := by
  have once := (increasing_registryFiles sound listed).2
  have whole := scan_of_listed listed
  have sub {id : String} (mem : id ∈ w.unowned q names) : id ∈ names := (List.mem_filter.mp mem).1
  obtain rfl | ⟨top, stocks⟩ := stocks_of_registryFiles sound listed
  · exact ⟨[], _, _, whole, .inl rfl, .nil⟩
  · refine ⟨top, _, _, whole, .inr stocks, ?_⟩
    rw [recoverAll_unowned running once]
    have filed : w.files.Filed [] := nofun
    refine sifts_recoverAll (stocks.mono sub) running (once.filter _) ?_ filed discard_nil.symm ?_
    · intro id mem
      exact of_decide_eq_true (List.mem_filter.mp mem).2
    · exact fun _ _ => List.not_mem_nil

/-- A new log owns nothing, so that its first scan sifts all files. -/
theorem sifts_openLog (config : Config) (node : String) (sound : w.files.Sound)
    (listed : w.files.registryFiles config.dir = .ok names) :
    ∃ top o v, (w.openLog config node).2.scan (w.openLog config node).1 [] = (.ok o, v) ∧
      Sifts (w.openLog config node).1 w.files config.dir top names (w.openLog config node).2 o
        v := by
  have opened := process_openLog config node w
  have sound' : (w.openLog config node).2.files.Sound := sound
  have running : (w.openLog config node).1.index < (w.openLog config node).2.processes.length := by
    simp [openLog]
  have listed' : (w.openLog config node).2.files.registryFiles
      ((w.openLog config node).2.process (w.openLog config node).1).dir = .ok names := by
    rw [opened]
    exact listed
  have all : (w.openLog config node).2.unowned (w.openLog config node).1 names = names := by
    refine List.filter_eq_self.mpr fun id _ => ?_
    rw [opened]
    exact decide_eq_true (OpenSet.not_mem_empty id)
  obtain ⟨top, o, v, scanned, -, sifts⟩ := sifts_scan sound' running listed'
  rw [all, opened] at sifts
  exact ⟨top, o, v, scanned, sifts⟩

end World

end InDoubt

import InDoubt.Proofs.Orderly
import InDoubt.Proofs.Sifting

/-!
Scanning again. After one scan, a file of the directory belongs to a registry of the process, or
cannot be read, or is empty and locked. The next scan passes over the first, fails over the second
as before and leaves the third (`recoverAll_of_quiet`). It lists what the first has left, and so
fails over the same files in the same order (`scan_scan`). However often a log is scanned or swept
without anything else happening, only the first time changes anything.
-/

namespace InDoubt

namespace FileSystem.Stocks

variable {fs : FileSystem} {dir : String} {top : Place} {ids gone : List String}

/-- What is left after some files have been discarded is listed in its order. -/
theorem registryFiles_discard (h : fs.Stocks dir top ids) (sound : fs.Sound)
    (listed : fs.registryFiles dir = .ok ids) (filed : fs.Filed (placesIn top gone)) :
    (fs.discard (placesIn top gone)).registryFiles dir = .ok (ids.filter (· ∉ gone)) := by
  have sound' := filed.sound sound
  have opens' := h.opens.kept filed.keepsWays
  obtain ⟨left, listed', left_iff⟩ := opens'.registryFiles sound' h.checked
  obtain ⟨increasing, once⟩ := increasing_registryFiles sound listed
  obtain ⟨increasing', once'⟩ := increasing_registryFiles sound' listed'
  rw [listed']
  refine congrArg Except.ok ?_
  refine eq_of_increasing increasing' (increasing.filter _) once' (once.filter _) fun id => ?_
  simp only [left_iff, List.mem_filter, node?_discard, mem_placesIn_iff, decide_eq_true_eq]
  by_cases out : id ∈ gone
  · simp [out]
  · simp only [out, false_and, if_false, not_false_eq_true, and_true]
    exact ⟨fun ⟨_, stands⟩ => h.whole stands, fun mem => (h.file mem).2⟩

theorem shelves_discard (h : fs.Stocks dir top ids) (filed : fs.Filed (placesIn top gone)) :
    (fs.discard (placesIn top gone)).Shelves dir top (ids.filter (· ∉ gone)) := by
  refine ⟨h.opens.kept filed.keepsWays, fun {id} mem => ?_⟩
  obtain ⟨mem, stays⟩ := List.mem_filter.mp mem
  obtain ⟨held, inode, stands⟩ := h.file mem
  refine ⟨held, inode, (node?_discard_of_not_mem ?_).trans stands⟩
  exact mem_placesIn_iff.not.mpr (of_decide_eq_true stays)

end FileSystem.Stocks

namespace World

open FileSystem

variable {v w : World} {p q : ProcessRef} {dir id : String} {top : Place}
  {ids names : List String} {o : ScanReport} {report : Except Failure ScanReport} {s : Step}
  {more : List Step}

/-- A file without records that is not litter is left as it is. -/
theorem recover_of_quiet (shelves : w.files.Shelves dir top ids) (mem : id ∈ ids)
    (blank : w.files.recordsAt dir id = []) (kept : w.files.isLitter dir id = false) :
    w.recover q dir id =
      (match w.files.faultAt? dir id with | some f => .failed f | none => .nothing, w) := by
  obtain ⟨held, inode, stands⟩ := shelves.file mem
  cases read : w.files.readRecords (joinPath dir id) with
  | error f =>
      have found (path : String) : f ≠ .readFailed path (.system .notFound) := by
        rintro rfl
        exact shelves.opens.readRecords_ne_notFound held stands path read
      simp only [recover_of_error read found, faultAt?, read]
  | ok ls =>
      simp only [recordsAt, read] at blank
      subst blank
      have home := shelves.opens.homeAt_of_readRecords held stands read
      simp only [isLitter, read, home.inodeAt, Bool.not_eq_false'] at kept
      simp only [recover_of_empty read, home.unlinkUnlocked, kept, if_true, faultAt?, read]

/-- Files that are neither recovered nor discarded are at most failures. -/
theorem recoverAll_of_quiet (shelves : w.files.Shelves dir top ids)
    (free : ∀ id ∈ ids, id ∉ (w.process q).openIds)
    (quiet : ∀ id ∈ ids, w.files.recordsAt dir id = [] ∧ w.files.isLitter dir id = false) :
    recoverAll q dir ids w = (⟨[], ids.filterMap (w.files.faultAt? dir)⟩, w) := by
  induction ids with
  | nil => rfl
  | cons id rest ih =>
      have first := List.mem_cons_self (a := id) (l := rest)
      have others {other : String} (mem : other ∈ rest) := List.mem_cons_of_mem id mem
      have later := ih (shelves.mono others) (fun other mem => free other (others mem))
        (fun other mem => quiet other (others mem))
      rw [recoverAll_of_unowned (free id first),
        recover_of_quiet shelves first (quiet id first).1 (quiet id first).2, later]
      cases fault : w.files.faultAt? dir id <;> simp [Recovery.addTo, fault]

/-- A process that has not been started finds nothing anywhere. -/
theorem registryFiles_of_le (out : w.processes.length ≤ q.index) :
    w.files.registryFiles (w.process q).dir = .ok [] := by
  rw [process_of_le out]
  rfl

theorem scan_of_nothing (listed : w.files.registryFiles (w.process q).dir = .ok []) :
    w.scan q [] = (.ok ⟨[], []⟩, w) :=
  scan_of_listed listed

/-- The names whose files a scan discards. -/
def discarded (w : World) (q : ProcessRef) (dir : String) (names : List String) : List String :=
  (w.unowned q names).filter (w.files.isLitter dir)

/-- The names whose files a scan leaves. -/
def spared (w : World) (q : ProcessRef) (dir : String) (names : List String) : List String :=
  names.filter (· ∉ w.discarded q dir names)

namespace Sifts

variable {f : Failure}

/-- A file that a scan has left and not claimed is one that it neither recovers nor discards. -/
theorem quiet (h : Sifts q w.files dir top (w.unowned q names) w o v)
    (mem : id ∈ v.unowned q (w.spared q dir names)) :
    id ∈ w.spared q dir names ∧ w.files.recordsAt dir id = [] ∧
      w.files.isLitter dir id = false := by
  obtain ⟨left, free⟩ := List.mem_filter.mp mem
  obtain ⟨listed, stays⟩ := List.mem_filter.mp left
  have free := of_decide_eq_true free
  rw [h.openIds, not_or] at free
  have looked : id ∈ w.unowned q names := List.mem_filter.mpr ⟨listed, decide_eq_true free.1⟩
  refine ⟨left, ?_, ?_⟩
  · by_contra filled
    exact free.2 ⟨looked, filled⟩
  · by_contra litter
    refine of_decide_eq_true stays (List.mem_filter.mpr ⟨looked, ?_⟩)
    exact Bool.not_eq_false _ ▸ litter

/-- A file that a scan fails over stays and is not claimed. -/
theorem failing (h : Sifts q w.files dir top (w.unowned q names) w o v)
    (fault : w.files.faultAt? dir id = some f) (free : id ∉ (w.process q).openIds) :
    id ∉ w.discarded q dir names ∧ id ∉ (v.process q).openIds := by
  constructor
  · intro gone
    have well := (recordsAt_of_isLitter (List.mem_filter.mp gone).2).2
    rw [well] at fault
    cases fault
  · rw [h.openIds]
    rintro (owned | ⟨-, filled⟩)
    · exact free owned
    · rw [faultAt?_of_recordsAt filled] at fault
      cases fault

/-- Among what a scan has left and not claimed are all its failures. -/
theorem faults (h : Sifts q w.files dir top (w.unowned q names) w o v) :
    (v.unowned q (w.spared q dir names)).filterMap (w.files.faultAt? dir) = o.failures := by
  rw [h.failures]
  unfold spared
  simp only [unowned, List.filterMap_filter, decide_eq_true_eq]
  refine List.filterMap_congr fun id mem => ?_
  cases fault : w.files.faultAt? dir id with
  | none => simp
  | some f =>
      by_cases owned : id ∈ (w.process q).openIds
      · simp [owned, (h.openIds id).mpr (.inl owned)]
      · obtain ⟨stays, free⟩ := h.failing fault owned
        simp [stays, free, owned]

end Sifts

/-- The second of two scans in a row fails as the first did, and does nothing else. -/
theorem scan_of_scanned (sound : w.files.Sound) (running : q.index < w.processes.length)
    (listed : w.files.registryFiles (w.process q).dir = .ok names)
    (stocks : w.files.Stocks (w.process q).dir top names) (scanned : w.scan q [] = (.ok o, v))
    (sifts : Sifts q w.files (w.process q).dir top (w.unowned q names) w o v) :
    v.scan q [] = (.ok ⟨[], o.failures⟩, v) := by
  have there : (v.process q).dir = (w.process q).dir := by
    have settled := settled_scan w q []
    rw [scanned] at settled
    exact congrArg (·.1) (settled.station q)
  have running' : q.index < v.processes.length := by
    have extended := extends_scan w q []
    rw [scanned] at extended
    exact Nat.lt_of_lt_of_le running extended.processes
  have looked {id : String} (mem : id ∈ w.unowned q names) : id ∈ names :=
    (List.mem_filter.mp mem).1
  have filed : w.files.Filed (placesIn top (w.discarded q (w.process q).dir names)) :=
    (stocks.mono looked).filed_litter
  have files : v.files = w.files.discard (placesIn top (w.discarded q (w.process q).dir names)) :=
    sifts.files
  have listed' : v.files.registryFiles (v.process q).dir =
      .ok (w.spared q (w.process q).dir names) := by
    rw [there, files]
    exact stocks.registryFiles_discard sound listed filed
  have shelves : v.files.Shelves (w.process q).dir top (w.spared q (w.process q).dir names) := by
    rw [files]
    exact stocks.shelves_discard filed
  -- The files that are left are read as they were by the first scan.
  have stays {id : String} (mem : id ∈ w.spared q (w.process q).dir names) :
      id ∈ names ∧
        Utf8.encode id :: top ∉ placesIn top (w.discarded q (w.process q).dir names) := by
    obtain ⟨mem, out⟩ := List.mem_filter.mp mem
    exact ⟨mem, mem_placesIn_iff.not.mpr (of_decide_eq_true out)⟩
  have left {id : String} (mem : id ∈ v.unowned q (w.spared q (w.process q).dir names)) :
      id ∈ w.spared q (w.process q).dir names := (List.mem_filter.mp mem).1
  have again : recoverAll q (w.process q).dir (w.spared q (w.process q).dir names) v =
      (⟨[], o.failures⟩, v) := by
    have once : (w.spared q (w.process q).dir names).Nodup :=
      (increasing_registryFiles sound listed).2.filter _
    rw [recoverAll_unowned running' once, recoverAll_of_quiet (shelves.mono left), ← sifts.faults]
    · refine congrArg (fun fs => (ScanReport.mk [] fs, v)) (List.filterMap_congr fun id mem => ?_)
      obtain ⟨mem, out⟩ := stays (left mem)
      rw [files, stocks.faultAt?_discard filed mem out]
    · exact fun id mem => of_decide_eq_true (List.mem_filter.mp mem).2
    · intro id mem
      obtain ⟨spared, blank, kept⟩ := sifts.quiet mem
      obtain ⟨mem, out⟩ := stays spared
      rw [files, stocks.recordsAt_discard filed mem out, stocks.isLitter_discard filed mem out]
      exact ⟨blank, kept⟩
  rw [scan_of_listed listed', there, again]

/-- Two scans in a row do what one does, and the second one finds nothing but the failures. -/
theorem scan_scan (sound : w.files.Sound) (q : ProcessRef) :
    (w.scan q []).2.scan q [] =
      ((w.scan q []).1.map fun o => ⟨[], o.failures⟩, (w.scan q []).2) := by
  cases listed : w.files.registryFiles (w.process q).dir with
  | error f => simp only [scan_of_unlisted listed, Except.map]
  | ok names =>
      by_cases running : q.index < w.processes.length
      · obtain ⟨top, o, v, scanned, rfl | stocks, sifts⟩ := sifts_scan sound running listed
        · simp only [scan_of_nothing listed, Except.map]
        · simp only [scanned, Except.map]
          exact scan_of_scanned sound running listed stocks scanned sifts
      · have nothing := registryFiles_of_le (Nat.le_of_not_lt running)
        simp only [scan_of_nothing nothing, Except.map]

/-! Runs of scans and sweeps. -/

/-- A scan or a sweep of a log during which nothing else happens. -/
def Looks (p : ProcessRef) (s : Step) : Prop := s = .scan p [] ∨ s = .sweep p []

instance (p : ProcessRef) (s : Step) : Decidable (Looks p s) :=
  inferInstanceAs (Decidable (_ ∨ _))

/-- What a scan or a sweep answers: the outcome of the scan, or the branches in doubt after it. -/
def lookAnswer (report : Except Failure ScanReport) (found : List BranchRef) : Step → Answer
  | .sweep _ _ => .branches found
  | _ => .of .scanned report

theorem step_of_looks (looks : Looks p s) (scanned : w.scan p [] = (report, v)) :
    w.step s = (lookAnswer report (v.process p).inDoubt s, v) := by
  obtain rfl | rfl := looks
  · simp only [step, scanned, lookAnswer]
    rfl
  · simp only [step, sweep, scanned, lookAnswer]
    rfl

/-- A world that a scan leaves as it is stays so, and gives the same answers. -/
theorem run_of_looks (looks : ∀ s ∈ more, Looks p s) (still : v.scan p [] = (report, v)) :
    run more v = (more.map (lookAnswer report (v.process p).inDoubt), v) := by
  induction more with
  | nil => rfl
  | cons s rest ih =>
      have now := step_of_looks (looks s List.mem_cons_self) still
      have later := ih fun s mem => looks s (List.mem_cons_of_mem _ mem)
      simp only [run, now, later, List.map_cons]

/-- Whatever has happened before, any number of scans and sweeps of a log in a row leave the world
as the first one does. Those after the first recover nothing, fail over the same files in the same
order and answer with the same branches in doubt, also if the directory is missing or cannot be
listed. -/
theorem scans_idempotent (changes : List FileStep) (past : List Step) {first : Step}
    (looks : ∀ s ∈ first :: more, Looks p s) :
    let w := after past (ofFiles (FileSystem.empty.applyAll changes))
    let report := (w.scan p []).1
    let v := (w.scan p []).2
    let found := (v.process p).inDoubt
    run (first :: more) w = (lookAnswer report found first ::
      more.map (lookAnswer (report.map fun o => ⟨[], o.failures⟩) found), v) := by
  intro w report v found
  have sound : w.files.Sound := ((Orderly.ofFiles changes).after past).sound
  have now : w.step first = (lookAnswer report found first, v) :=
    step_of_looks (looks first List.mem_cons_self) rfl
  have later := run_of_looks (fun s mem => looks s (List.mem_cons_of_mem _ mem)) (scan_scan sound p)
  simp only [run, now]
  exact congrArg (fun last => (lookAnswer report found first :: last.1, last.2)) later

/-- Two logs on one directory. The first has created a registry and recorded nothing in it, and
others have left a file with a record, a file of blank lines, one that is not text and one with a
line that is no record. -/
def littered : List Step :=
  let leave (name : String) (bytes : Bytes) : Step :=
    .outside (.write (Utf8.encode (joinPath "./xa-recovery" name)) bytes)
  [.openLog {} "n", .create ⟨0⟩ .sample, .openLog {} "m",
    leave "a" (Utf8.encode (Record.encode .sample)), leave "b" (Utf8.encode " \n\n"),
    leave "c" [0xFF], leave "d" (Utf8.encode "xa:/r\nno record\n")]

theorem scans_idempotent_littered :
    let w := after littered (ofFiles (FileSystem.empty.applyAll []))
    let v := (w.scan ⟨1⟩ []).2
    let unread := Failure.readFailed "./xa-recovery/c" .notUtf8
    let bad := Failure.malformedRecord "./xa-recovery/d" ⟨"no record", .missingScheme⟩
    run [.scan ⟨1⟩ [], .sweep ⟨1⟩ [], .scan ⟨1⟩ []] w =
      ([.scanned ⟨[⟨1⟩], [unread, bad]⟩, .branches [⟨0⟩], .scanned ⟨[], [unread, bad]⟩], v) := by
  have looks : ∀ s ∈ [Step.scan ⟨1⟩ [], .sweep ⟨1⟩ [], .scan ⟨1⟩ []], Looks ⟨1⟩ s := by decide
  refine (scans_idempotent [] littered looks).trans ?_
  decide +kernel

end World

end InDoubt

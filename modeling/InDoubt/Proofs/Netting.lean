import InDoubt.Proofs.Culling

/-!
What a scan adds up to. Each name that the process does not own contributes by what its file is read
as when the scan comes to it (`Contributes`), and that is what it would be read as before the first
file is recovered: files are taken under other names only. So the contributions are put together in
the order of the names, whatever became of the others, and nothing else is changed.
-/

namespace InDoubt

namespace FileSystem

variable {fs : FileSystem} {dir id : String} {path : String} {place : Place} {inode : Nat}

/-- What a file at a path contributes to a scan: a failure or none, and its records. -/
inductive Contributes (fs : FileSystem) (path : String) : Option Failure → List Locator → Prop
  /-- A file that has vanished is passed over. -/
  | missing (read : fs.read (Utf8.encode path) = .error .notFound) : Contributes fs path none []
  | unreadable {e : SystemError} (read : fs.read (Utf8.encode path) = .error e)
      (there : e ≠ .notFound) : Contributes fs path (some (.readFailed path (.system e))) []
  | raw {bytes : Bytes} (read : fs.read (Utf8.encode path) = .ok bytes)
      (undecoded : Utf8.decode? bytes = none) :
      Contributes fs path (some (.readFailed path .notUtf8)) []
  /-- A line is no record, and all before it are blank or records. -/
  | malformed {content : String} {before rest : List (List Char)} {line : List Char}
      {cause : Locator.ParseError} (read : fs.read (Utf8.encode path) = .ok (Utf8.encode content))
      (lines : Text.linesOf content.toList = before ++ line :: rest)
      (well : ∀ l ∈ before, Record.isBlankLine l = true ∨ ∃ l', Locator.parseChars l = .ok l')
      (filled : Record.isBlankLine line = false) (bad : Locator.parseChars line = .error cause) :
      Contributes fs path (some (.malformedRecord path ⟨String.ofList line, cause⟩)) []
  /-- Each line that is not blank is a record, if there are any. -/
  | records {content : String} {ls : List Locator}
      (read : fs.read (Utf8.encode path) = .ok (Utf8.encode content))
      (each : List.Forall₂ (fun line l => Locator.parseChars line = .ok l)
        ((Text.linesOf content.toList).filter (!Record.isBlankLine ·)) ls) :
      Contributes fs path none ls

/-- Why a file of a directory is lost to a scan. One that is missing is not. -/
def lossAt? (fs : FileSystem) (dir id : String) : Option Failure :=
  match fs.readRecords (joinPath dir id) with
  | .error (.readFailed _ (.system .notFound)) => none
  | .error f => some f
  | .ok _ => none

theorem contributes (fs : FileSystem) (dir id : String) :
    Contributes fs (joinPath dir id) (fs.lossAt? dir id) (fs.recordsAt dir id) := by
  unfold lossAt? recordsAt readRecords
  cases read : fs.read (Utf8.encode (joinPath dir id)) with
  | error e =>
      by_cases missing : e = .notFound
      · subst missing
        exact .missing read
      · cases e <;> first | exact absurd rfl missing | exact .unreadable read missing
  | ok bytes =>
      cases decoded : Utf8.decode? bytes with
      | none =>
          simp only [decoded]
          exact .raw read decoded
      | some content =>
          obtain rfl := Utf8.decode?_eq_some_iff.mp decoded
          simp only [decoded]
          cases parsed : Record.parse content with
          | error bad =>
              obtain ⟨before, line, rest, cause, lines, well, filled, failed, rfl⟩ :=
                Record.first_of_parse_eq_error parsed
              exact .malformed read lines well filled failed
          | ok ls => exact .records read (Record.forall₂_of_parse_eq_ok parsed)

/-- What is listed of a directory: its regular files whose names are text, in the order of their
bytes, in whatever order the system gives the entries. -/
structure Enumerates (fs : FileSystem) (dir : String) (names : List String) : Prop where
  increasing : names.Pairwise fun a b => Utf8.encode a < Utf8.encode b
  regular : (fs.list (Utf8.encode dir) = .error .notFound ∧ names = []) ∨
    ∃ entries, fs.list (Utf8.encode dir) = .ok entries ∧
      (∀ id, id ∈ names ↔ ∃ inode, (Utf8.encode id, .file inode) ∈ entries) ∧
      ∀ listing : List (Bytes × Node), listing.Perm entries →
        sort (fun a b => a ≤ b) (listing.filterMap registryFileName?) = names

theorem enumerates_registryFiles (sound : fs.Sound) {names : List String}
    (listed : fs.registryFiles dir = .ok names) : Enumerates fs dir names := by
  obtain ⟨increasing, once⟩ := increasing_registryFiles sound listed
  refine ⟨pairwise_encode_lt increasing once, ?_⟩
  unfold registryFiles at listed
  split at listed
  · rename_i entries e
    cases listed
    refine .inr ⟨entries, e, fun id => ?_, fun listing perm => ?_⟩
    · simp only [mem_sort, List.mem_filterMap, Prod.exists, registryFileName?_eq_some_iff]
      constructor
      · rintro ⟨_, _, mem, rfl, inode, rfl⟩
        exact ⟨inode, mem⟩
      · rintro ⟨inode, mem⟩
        exact ⟨_, _, mem, rfl, inode, rfl⟩
    · have names := perm.filterMap registryFileName?
      have sorted := (sort_perm (fun a b => decide (a ≤ b)) _).trans
        (names.trans (sort_perm (fun a b => decide (a ≤ b)) _).symm)
      have increasing' := pairwise_sort_names id (listing.filterMap registryFileName?)
      rw [List.map_id] at increasing'
      exact eq_of_increasing increasing' increasing (sorted.nodup_iff.mpr once) once
        fun _ => sorted.mem_iff
  · rename_i e
    cases listed
    exact .inl ⟨e, rfl⟩
  · cases listed

/-- What is named and is no link is the file that the path leads to. -/
theorem Waste.file (h : Waste fs path place inode)
    (plain : ∀ target, fs.node? place ≠ some (.link target)) :
    fs.node? place = some (.file inode) := by
  obtain ⟨aim, leads, file⟩ := h.leads
  have same := leads.unique ((locateEntry_eq_ok_iff.mp h.located).2.follow plain)
  exact same ▸ file

end FileSystem

namespace World

open FileSystem

variable {v w : World} {q : ProcessRef} {fs : FileSystem} {dir id : String}
  {ids names : List String} {o : ScanReport} {records : String → List Locator}

/-! Putting contributions together. -/

/-- What a scan makes of the names that it looks at: what it recovers, what it fails over and what
its process owns then. -/
structure Collects (q : ProcessRef) (fs : FileSystem) (dir : String) (ids : List String) (w : World)
    (o : ScanReport) (v : World) : Prop where
  recovers : Recovers q dir (fs.recordsAt dir) ids w ⟨o.recovered, []⟩ v
  failures : o.failures = ids.filterMap (fs.lossAt? dir)
  openIds : ∀ id, id ∈ (v.process q).openIds ↔
    id ∈ (w.process q).openIds ∨ id ∈ ids ∧ fs.recordsAt dir id ≠ []

namespace Collects

theorem nil : Collects q fs dir [] w ⟨[], []⟩ w := ⟨.nil, rfl, by simp⟩

/-- One name gives no records, but possibly a failure. -/
theorem pass {files : FileSystem} (blank : fs.recordsAt dir id = [])
    (h : Collects q fs dir ids { w with files } o v) :
    Collects q fs dir (id :: ids) w
      (((fs.lossAt? dir id).elim Recovery.nothing .failed).addTo o) v := by
  have skipped := h.recovers.skip blank
  refine ⟨?_, ?_, fun other => ?_⟩
  · cases fs.lossAt? dir id <;> exact skipped
  · rw [List.filterMap_cons]
    cases fs.lossAt? dir id <;> simp [Recovery.addTo, h.failures]
  · rw [h.openIds, mem_filled_cons_iff blank]
    rfl

/-- One name gives records. -/
theorem adopt (running : q.index < w.processes.length) {ls : List Locator} (nonempty : ls ≠ [])
    (read : fs.readRecords (joinPath dir id) = .ok ls)
    (h : Collects q fs dir ids (w.adopt q id (joinPath dir id) ls).2 o v) :
    Collects q fs dir (id :: ids) w
      ((Recovery.recovered ⟨w.registries.length⟩).addTo o) v := by
  have records : fs.recordsAt dir id = ls := by simp only [recordsAt, read]
  have well : fs.lossAt? dir id = none := by simp only [lossAt?, read]
  refine ⟨.adopt running (records ▸ nonempty) (records.symm ▸ h.recovers), ?_, fun other => ?_⟩
  · simp [Recovery.addTo, well, h.failures]
  · rw [h.openIds, mem_openIds_adopt_or running (records ▸ nonempty)]

end Collects

/-- A name that gives no records leaves everything but the files as it was. -/
theorem recover_of_recordless (blank : w.files.recordsAt dir id = []) :
    w.recover q dir id = ((w.files.lossAt? dir id).elim Recovery.nothing .failed,
      { w with files := (w.recover q dir id).2.files }) := by
  cases read : w.files.readRecords (joinPath dir id) with
  | ok ls =>
      obtain rfl : ls = [] := by simpa only [recordsAt, read] using blank
      simp only [recover_of_empty read, lossAt?, read]
      rfl
  | error f =>
      by_cases missing : ∃ path, f = .readFailed path (.system .notFound)
      · obtain ⟨path, rfl⟩ := missing
        simp only [recover, lossAt?, read]
        rfl
      · have found (path : String) : f ≠ .readFailed path (.system .notFound) := fun e =>
          missing ⟨path, e⟩
        have loss : w.files.lossAt? dir id = some f := by
          unfold lossAt?
          split
          · rename_i e
            exact absurd (Except.error.inj (read.symm.trans e)) (found _)
          · rename_i e
            exact congrArg some (Except.error.inj (e.symm.trans read))
          · rename_i e
            cases read.symm.trans e
        rw [recover_of_error read found, loss]
        rfl

/-- What one name is read as is not changed by the names before it. -/
theorem collects_recoverAll {done : List String} (sound : fs.Sound)
    (running : q.index < w.processes.length) (held : ∀ id ∈ ids ++ done, Holdable id)
    (plain : fs.Unlinked dir (ids ++ done)) (once : (ids ++ done).Nodup)
    (free : ∀ id ∈ ids, id ∉ (w.process q).openIds)
    (pruned : Prunes fs w.files fun path => ∃ other ∈ done, path = joinPath dir other) :
    Collects q fs dir ids w (recoverAll q dir ids w).1 (recoverAll q dir ids w).2 := by
  induction ids generalizing w done with
  | nil => exact .nil
  | cons id rest ih =>
      obtain ⟨apart, once'⟩ := List.nodup_cons.mp once
      have apart_done : id ∉ done := fun mem => apart (List.mem_append_right _ mem)
      have among {other : String} (mem : other ∈ rest ++ id :: done) : other ∈ id :: rest ++ done :=
        List.perm_middle.mem_iff.mp mem
      have now {other : String} (mem : other ∈ id :: done) : other ∈ id :: rest ++ done :=
        among (List.mem_append_right _ mem)
      have read : w.files.readRecords (joinPath dir id) = fs.readRecords (joinPath dir id) :=
        pruned.readRecords sound (fun other mem => held other (now mem))
          (fun other mem => plain other (now mem)) apart_done
      have pruned' : Prunes fs (w.recover q dir id).2.files fun path =>
          ∃ other ∈ id :: done, path = joinPath dir other :=
        prunes_recover (pruned.mono fun ⟨other, mem, e⟩ => ⟨other, List.mem_cons_of_mem _ mem, e⟩)
          sound ⟨id, List.mem_cons_self, rfl⟩
      have later {v : World} (running : q.index < v.processes.length)
          (free : ∀ id ∈ rest, id ∉ (v.process q).openIds)
          (pruned : Prunes fs v.files fun path =>
            ∃ other ∈ id :: done, path = joinPath dir other) :=
        ih running (fun other mem => held other (among mem))
          (fun other mem => plain other (among mem)) (List.nodup_middle.mpr once) free pruned
      have free' : ∀ other ∈ rest, other ∉ (w.process q).openIds := fun other mem =>
        free other (List.mem_cons_of_mem _ mem)
      rw [recoverAll_of_unowned (free id List.mem_cons_self)]
      by_cases blank : fs.recordsAt dir id = []
      · have same : w.files.recordsAt dir id = fs.recordsAt dir id := by simp only [recordsAt, read]
        have same' : w.files.lossAt? dir id = fs.lossAt? dir id := by simp only [lossAt?, read]
        rw [recover_of_recordless (same.trans blank), same']
        exact .pass blank (later running free' pruned')
      · have held := (recordsAt_eq_iff blank).mp rfl
        rw [recover_of_records blank (read.trans held)] at pruned' ⊢
        have running' : q.index <
            (w.adopt q id (joinPath dir id) (fs.recordsAt dir id)).2.processes.length := by
          simpa [processes_adopt] using running
        have fresh : id ∉ rest := fun mem => apart (List.mem_append_left _ mem)
        exact .adopt running blank held
          (later running' (not_mem_openIds_adopt running fresh free' _ _) pruned')

/-- Recovery starts from the registries and branches, whatever the files are. -/
theorem Recovers.of_tree {files : FileSystem}
    (h : Recovers q dir records ids { w with files } o v) : Recovers q dir records ids w o v :=
  ⟨h.failures, h.recovered, h.registries, h.branches, h.inDoubt⟩

/-! What is counted. -/

theorem length_recoveredBranches (records : String → List Locator) (node : String)
    (ids : List String) (first : Nat) : (recoveredBranches records node ids first).length =
      ids.foldr (fun id n => (records id).length + n) 0 := by
  induction ids generalizing first with
  | nil => rfl
  | cons id rest ih => simp [recoveredBranches, ih]

/-- The branches counted by a scan are those that it has put in doubt. -/
theorem Recovers.branchesRecovered (h : Recovers q dir records ids w ⟨o.recovered, []⟩ v) :
    v.branchesRecovered o = (recoveredBranches records (w.process q).node (recorded records ids)
      w.registries.length).length := by
  have counts : v.branchesRecovered o =
      (o.recovered.map v.registry).foldr (fun g n => g.count + n) 0 := by
    rw [List.foldr_map]
    rfl
  rw [counts, h.map_registry, List.foldr_map, length_recoveredBranches]
  rfl

/-! A whole scan. -/

/-- A scan changes no other process, nothing else of its own and no registrations. -/
theorem isolated_recoverAll (running : q.index < w.processes.length) (dir : String)
    (ids : List String) :
    (∃ openIds inDoubt, (recoverAll q dir ids w).2.process q =
      { w.process q with openIds, inDoubt }) ∧
    (∀ p, p ≠ q → (recoverAll q dir ids w).2.process p = w.process p) ∧
    (recoverAll q dir ids w).2.callbacks = w.callbacks := by
  refine (recoverAll_induction (I := fun v => v.processes.length = w.processes.length ∧
    (∃ openIds inDoubt, v.process q = { w.process q with openIds, inDoubt }) ∧
    (∀ p, p ≠ q → v.process p = w.process p) ∧ v.callbacks = w.callbacks) ?_
    ⟨rfl, ⟨_, _, rfl⟩, fun _ _ => rfl, rfl⟩).2
  rintro v id - - ⟨len, ⟨openIds, inDoubt, own⟩, others, callbacks⟩
  obtain ⟨_, files, -, -, e⟩ | ⟨l, ls, -, e⟩ := recover_cases v q dir id <;> rw [e]
  · exact ⟨len, ⟨openIds, inDoubt, own⟩, others, callbacks⟩
  · refine ⟨by simp [processes_adopt, len], ?_, fun p ne => ?_, callbacks⟩
    · rw [process_adopt _ _ _ (len ▸ running), own]
      exact ⟨_, _, rfl⟩
    · rw [process_congr (w := v.updateProcess q _) (processes_adopt ..),
        process_updateProcess_of_ne ne, others p ne]

/-- The net effect of a scan that looks at some names in the tree `fs`: each contributes on its own,
what they contribute is put together in their order, and nothing else changes. -/
structure Nets (q : ProcessRef) (dir : String) (looked : List String) (w : World)
    (fs : FileSystem) (o : ScanReport) (v : World) : Prop where
  each : ∀ id ∈ looked, Contributes fs (joinPath dir id) (fs.lossAt? dir id) (fs.recordsAt dir id)
  /-- One registry and its branches in doubt for each file with records, in the order of the names
  and then of the lines. -/
  recovers : Recovers q dir (fs.recordsAt dir) looked w ⟨o.recovered, []⟩ v
  failures : o.failures = looked.filterMap (fs.lossAt? dir)
  counted : v.branches.length = w.branches.length + v.branchesRecovered o
  openIds : ∀ id, id ∈ (v.process q).openIds ↔
    id ∈ (w.process q).openIds ∨ id ∈ looked ∧ fs.recordsAt dir id ≠ []
  own : ∃ openIds inDoubt, v.process q = { w.process q with openIds, inDoubt }
  others : ∀ p, p ≠ q → v.process p = w.process p
  callbacks : v.callbacks = w.callbacks
  contents : v.files.contents = fs.contents
  locked : v.files.locked = fs.locked
  /-- What goes is what is waste under these names. -/
  entries : ∀ place,
    (v.files.node? place = none ∧ ∃ id ∈ looked, ∃ inode, Waste fs (joinPath dir id) place inode) ∨
      v.files.node? place = fs.node? place ∧
        ∀ id ∈ looked, ∀ inode, ¬Waste fs (joinPath dir id) place inode

theorem Nets.nil (files : FileSystem) :
    Nets q dir [] w files ⟨[], []⟩ { w with files } where
  each := nofun
  recovers := Recovers.nil.of_tree
  failures := rfl
  counted := rfl
  openIds := by simp [process]
  own := ⟨_, _, rfl⟩
  others _ _ := rfl
  callbacks := rfl
  contents := rfl
  locked := rfl
  entries _ := .inr ⟨rfl, nofun⟩

/-- Names are looked at in a tree that others may have changed since. -/
theorem nets_recoverAll (sound : fs.Sound) (running : q.index < w.processes.length)
    (held : ∀ id ∈ ids, Holdable id) (plain : fs.Unlinked dir ids) (once : ids.Nodup)
    (free : ∀ id ∈ ids, id ∉ (w.process q).openIds) :
    Nets q dir ids w fs (recoverAll q dir ids { w with files := fs }).1
      (recoverAll q dir ids { w with files := fs }).2 := by
  let met : World := { w with files := fs }
  have all : ids ++ [] = ids := List.append_nil ids
  have collects :
      Collects q fs dir ids met (recoverAll q dir ids met).1 (recoverAll q dir ids met).2 :=
    collects_recoverAll sound running (all.symm ▸ held) (all.symm ▸ plain) (all.symm ▸ once) free
      (.refl _)
  have pruned : Prunes fs (recoverAll q dir ids met).2.files fun path =>
      ∃ id ∈ ids, path = joinPath dir id :=
    prunes_recoverAll (w := met) (.refl _) sound running fun id mem _ => ⟨id, mem, rfl⟩
  obtain ⟨own, others, callbacks⟩ := isolated_recoverAll (w := met) running dir ids
  obtain ⟨recovers, failures, openIds⟩ := collects
  refine ⟨fun id _ => contributes .., recovers.of_tree, failures, ?_, openIds, own, others,
    callbacks, pruned.contents, pruned.locked, fun place => ?_⟩
  · rw [recovers.branchesRecovered, recovers.branches, List.length_append]
  · by_cases waste : ∃ id ∈ ids, ∃ inode, Waste fs (joinPath dir id) place inode
    · refine .inl ⟨?_, waste⟩
      obtain ⟨id, mem, inode, waste⟩ := waste
      have file := waste.file (plain.plain mem waste.located)
      exact (traceless_recoverAll (w := met) sound running held once mem (free id mem) waste.located
        file waste.free waste.blank).gone
    · have spared : ∀ id ∈ ids, ∀ inode, ¬Waste fs (joinPath dir id) place inode :=
        fun id mem inode h => waste ⟨id, mem, inode, h⟩
      refine .inr ⟨pruned.node?_eq ?_, spared⟩
      rintro _ inode ⟨id, mem, rfl⟩
      exact spared id mem inode

/-- A scan looks at the regular files that it lists, in the order of their names, and takes from
each of those that its process does not own what it is read as once others have changed the files.
In no world has any file an influence on what is made of another. -/
theorem scan_nets (changes : List FileStep) (past : List Step) (q : ProcessRef)
    (during : List FileStep) :
    let w := after past (ofFiles (FileSystem.empty.applyAll changes))
    let dir := (w.process q).dir
    let fs := w.files.applyAll during
    (∀ f, w.files.registryFiles dir = .error f → w.scan q during = (.error f, w)) ∧
    ∀ names, w.files.registryFiles dir = .ok names →
      Enumerates w.files dir names ∧ (fs.Unlinked dir (w.unowned q names) →
        ∃ o v, w.scan q during = (.ok o, v) ∧
          w.sweep q during = ((v.process q).inDoubt, v) ∧
          Nets q dir (w.unowned q names) w fs o v) := by
  intro w dir fs
  have sound : w.files.Sound := ((Orderly.ofFiles changes).after past).sound
  refine ⟨fun f unlisted => scan_of_unlisted unlisted, fun names listed =>
    ⟨enumerates_registryFiles sound listed, fun plain => ?_⟩⟩
  let met : World := { w with files := fs }
  have scanned : w.scan q during =
      (.ok (recoverAll q dir names met).1, (recoverAll q dir names met).2) :=
    scan_eq_recoverAll listed during
  refine ⟨_, _, scanned, by simp only [sweep, scanned], ?_⟩
  by_cases running : q.index < w.processes.length
  · have once := (increasing_registryFiles sound listed).2
    have held : ∀ id ∈ w.unowned q names, Holdable id := fun id mem => by
      obtain ⟨_, _, -, held, -⟩ :=
        opens_of_mem_registryFiles sound listed (List.mem_filter.mp mem).1
      exact held
    have looked : recoverAll q dir names met = recoverAll q dir (w.unowned q names) met :=
      recoverAll_unowned running once
    rw [looked]
    exact nets_recoverAll (sound.applyAll during) running held plain (once.filter _)
      fun id mem => of_decide_eq_true (List.mem_filter.mp mem).2
  · -- A process that was never started lists nothing.
    have nothing := listed.symm.trans (registryFiles_of_le (Nat.le_of_not_lt running))
    cases nothing
    exact .nil fs

/-- While the second log of `littered` is scanned, a file gets two records and a blank line in place
of blank lines, one is replaced by a directory, and the one with the bad line vanishes. -/
def disturbances : List FileStep :=
  let path (name : String) : Bytes := Utf8.encode (joinPath "./xa-recovery" name)
  let record := Record.encode .sample
  [.write (path "b") (Utf8.encode (record ++ "\n" ++ record)), .unlink (path "c"),
    .makeDirectories (path "c"), .unlink (path "d")]

/-- The scan makes of the files what they are by then, and passes over the empty file of the first
log, which is locked. -/
theorem scan_nets_disturbed :
    let w := after littered (ofFiles (FileSystem.empty.applyAll []))
    let fs := w.files.applyAll disturbances
    let names := [Xid.sample.name, "a", "b", "c", "d"]
    ∃ v, w.scan ⟨1⟩ disturbances =
        (.ok ⟨[⟨1⟩, ⟨2⟩], [.readFailed "./xa-recovery/c" (.system .isDirectory)]⟩, v) ∧
      fs.Unlinked "./xa-recovery" (w.unowned ⟨1⟩ names) ∧ v.branches.length = 3 ∧
      Nets ⟨1⟩ "./xa-recovery" (w.unowned ⟨1⟩ names) w fs
        ⟨[⟨1⟩, ⟨2⟩], [.readFailed "./xa-recovery/c" (.system .isDirectory)]⟩ v := by
  intro w fs names
  have listed : w.files.registryFiles "./xa-recovery" = .ok names := by decide +kernel
  have dir : (w.process ⟨1⟩).dir = "./xa-recovery" := by decide +kernel
  have plain : fs.Unlinked "./xa-recovery" (w.unowned ⟨1⟩ names) := by decide +kernel
  have nets := (scan_nets [] littered ⟨1⟩ disturbances).2
  rw [dir] at nets
  obtain ⟨o, v, scanned, -, nets⟩ := (nets names listed).2 plain
  have report : (w.scan ⟨1⟩ disturbances).1 =
      .ok ⟨[⟨1⟩, ⟨2⟩], [.readFailed "./xa-recovery/c" (.system .isDirectory)]⟩ := by decide +kernel
  have made : (w.scan ⟨1⟩ disturbances).2.branches.length = 3 := by decide +kernel
  obtain rfl := Except.ok.inj ((congrArg Prod.fst scanned).symm.trans report)
  obtain rfl : (w.scan ⟨1⟩ disturbances).2 = v := congrArg Prod.snd scanned
  exact ⟨_, scanned, plain, made, nets⟩

end World

end InDoubt

import InDoubt.Proofs.Placing
import InDoubt.Proofs.Retention
import InDoubt.Proofs.Serving
import InDoubt.Proofs.Sifting

/-!
Deletions that fail. The last release of a registry closes it and drops its branch before the file
is deleted, and gives the identifier up only afterwards. If the file cannot be deleted all of that
stays done and nothing else is (`LeavesFile`): the tree, the open sets and the other registries are
as they were. The registry is spent from then on, so that no later release deletes the file and
frees the identifier (`undeleted_of_spent`). It bars the identifier for the rest of the process
(`Barred`), while a new log recovers whatever comes to be at the path.
-/

namespace InDoubt.World

open FileSystem

variable {u v w : World} {p q : ProcessRef} {r r' : RegistryRef} {b : BranchRef} {s : Step}
  {e : SystemError} {past later : List Step} {files : FileSystem} {kept : RegistryRef → Prop}

/-! The release. -/

/-- What a last release does if the file stays: the registry is closed without a branch, and the
branch is in doubt no longer. -/
structure LeavesFile (w v : World) (r : RegistryRef) (b : BranchRef) : Prop where
  entries : v.files.entries = w.files.entries
  contents : v.files.contents = w.files.contents
  locks : ∀ inode, v.files.isLocked inode = true ↔
    w.files.isLocked inode = true ∧ (w.registry r).handle? ≠ some inode
  openIds : ∀ q, (v.process q).openIds = (w.process q).openIds
  number : v.registries.length = w.registries.length
  others : ∀ {r'}, r' ≠ r → v.registry r' = w.registry r'
  count : (v.registry r).count = 0
  closed : (v.registry r).handle? = none
  dropped : (v.process (w.registry r).owner).inDoubt =
    (w.process (w.registry r).owner).inDoubt.filter (· ≠ b)
  inDoubt : ∀ {q}, q ≠ (w.registry r).owner → (v.process q).inDoubt = (w.process q).inDoubt

/-- A last release whose file cannot be unlinked, and is not missing, is a failed deletion. -/
theorem releaseFrom_of_stuck (one : (w.registry r).count = 1)
    (stuck : w.files.unlink (Utf8.encode (w.registry r).path) = .error e) (there : e ≠ .notFound)
    (b : BranchRef) :
    w.releaseFrom r b = (.error (.deleteFailed (w.registry r).path (w.label b) (.system e)),
      (w.retire r (w.files.unlock (w.registry r).handle?.toList)).settle
        (w.registry r).owner b) := by
  have still : (w.files.unlock (w.registry r).handle?.toList).unlink
      (Utf8.encode (w.registry r).path) = .error e := by
    rw [unlink_unlock, stuck]
    rfl
  rw [releaseFrom_of_eq one]
  simp only [still]

theorem leavesFile_of_stuck (one : (w.registry r).count = 1)
    (stuck : w.files.unlink (Utf8.encode (w.registry r).path) = .error e)
    (there : e ≠ .notFound) : LeavesFile w (w.releaseFrom r b).2 r b := by
  have known : r.index < w.registries.length := lt_of_count_ne_zero (by omega)
  have after := congrArg Prod.snd (releaseFrom_of_stuck one stuck there b)
  have spent : (w.releaseFrom r b).2.registry r = (w.registry r).released :=
    (registry_releaseFrom known).trans (if_pos rfl)
  refine ⟨?_, ?_, fun inode => ?_, fun q => ?_, length_registries_releaseFrom, fun {r'} apart => ?_,
    ?_, ?_, inDoubt_releaseFrom rfl, fun {q} apart => ?_⟩
  · rw [after]
    rfl
  · rw [after]
    rfl
  · rw [after]
    refine (isLocked_unlock _).trans (and_congr_right fun _ => ?_)
    rw [Option.mem_toList]
  · rw [after, openIds_settle]
    rfl
  · by_cases known' : r'.index < w.registries.length
    · rw [registry_releaseFrom known', if_neg (Ne.symm apart)]
    · have out := Nat.le_of_not_lt known'
      rw [registry_of_le out, registry_of_le (length_registries_releaseFrom.trans_le out)]
  · rw [spent, Registry.count_released, one]
  · rw [spent, Registry.handle?_released, if_pos one]
  · rw [after]
    exact congrArg Process.inDoubt (process_updateProcess_of_ne apart _)

theorem step_of_releases (out : w.releasesFrom? s = some r) (branch : releases? s = some b) :
    w.step s = w.step (.releaseFrom r b) := by
  cases s <;> cases branch <;> cases out <;> rfl

/-! Afterwards. -/

/-- A spent registry that has not been deleted never is, and nothing else is entered under its
identifier. -/
theorem undeleted_of_spent (earlier : Along (Disciplined p) past (ofFiles files))
    (h : Along (Disciplined p) later (after past (ofFiles files)))
    (undeleted : Undeleted p past (ofFiles files) r)
    (spent : ((after past (ofFiles files)).registry r).Spent) :
    Undeleted p (past ++ later) (ofFiles files) r ∧
      ((after later (after past (ofFiles files))).registry r).Spent ∧
      ∀ {r'}, Entered (after past (ofFiles files)) (after later (after past (ofFiles files))) p r' →
        ((after later (after past (ofFiles files))).registry r').id ≠
          ((after past (ofFiles files)).registry r).id := by
  have there := undeleted.1
  refine along_induction
    (I := fun rest u => Undeleted p (past ++ rest) (ofFiles files) r ∧ (u.registry r).Spent ∧
      ∀ {r'}, Entered (after past (ofFiles files)) u p r' →
        (u.registry r').id ≠ ((after past (ofFiles files)).registry r).id) ?_ ?_ later h
  · rw [List.append_nil]
    exact ⟨undeleted, spent, fun hr => absurd hr (not_entered rfl)⟩
  · rintro rest t among allowed ⟨undeleted', spent', unentered⟩
    have whole : Along (Disciplined p) (past ++ (rest ++ [t])) (ofFiles files) :=
      along_append.mpr ⟨earlier, along_concat.mpr ⟨among, allowed⟩⟩
    have before := extends_after (w := after past (ofFiles files)) rest
    have owned := ownership_along whole
    have next (r' : RegistryRef) : Undeleted p (past ++ rest ++ [t]) (ofFiles files) r' ↔ _ :=
      undeleted_concat
    simp only [after_append, after_cons, after_nil, List.append_assoc] at owned next
    generalize after rest (after past (ofFiles files)) = u at *
    have lt : r.index < u.registries.length := Nat.lt_of_lt_of_le there before.registries
    have own : (u.registry r).owner = p := (before.owner there).trans undeleted.2.1
    have step := extends_step u t
    have unended : ¬u.Ends t r := fun ends => by
      have one := ends.2
      have released := spent'.1
      omega
    have still := (next r).mpr (.inl ⟨undeleted', fun gone => unended gone.1⟩)
    refine ⟨still, (spent_step lt own allowed).mpr (.inl spent'), fun {r'} hr => ?_⟩
    rcases (entered_trans before step).mp hr with old | new
    · rw [step.id old.2.1]
      exact unentered old
    · rw [← (before.trans step).id there]
      -- both are undeleted now, but `r` was there before
      intro same
      obtain rfl := owned.distinct ((next r').mpr (.inr new)) still same
      exact Nat.not_lt_of_le new.1 lt

/-- A new log that finds a file with records at the path of the registry. -/
theorem recovers_openLog (orderly : Orderly u) (known : r.index < u.registries.length)
    {config : Config} {place : Place} {inode : Nat} {ls : List Locator}
    (located : (u.registry r).path = joinPath config.dir (u.registry r).id)
    (home : HomeAt u.files (Utf8.encode (u.registry r).path) place inode)
    (read : u.files.readRecords (u.registry r).path = .ok ls) (nonempty : ls ≠ []) (node : String) :
    let (q, opened) := u.openLog config node
    ∃ o v, opened.scan q [] = (.ok o, v) ∧ ∃ r' ∈ o.recovered,
      v.registry r' = recoveredRegistry q config.dir (u.registry r).id ls ∧
        (v.inDoubtOf q r').map v.branch = ls.map (Branch.mk · node r') := by
  obtain ⟨-, -, held⟩ := orderly.registered known
  rw [located] at home read
  obtain ⟨⟨ids, listed, mem⟩, -⟩ :=
    home.lists orderly.sound held (encode_dir_ne_nil config)
  obtain ⟨top, o, v, scanned, sifts⟩ := sifts_openLog config node orderly.sound listed
  have records := (recordsAt_eq_iff nonempty).mpr read
  obtain ⟨r', mem', entered⟩ := sifts.recovers.mem_iff.mpr ⟨_, mem, records ▸ nonempty, rfl⟩
  rw [records] at entered
  refine ⟨o, v, scanned, r', mem', entered, ?_⟩
  have opened := process_openLog config node u
  have fresh := sifts.recovers.map_inDoubtOf (by rw [opened]) mem'
  rw [entered, opened] at fresh
  exact fresh.trans (congrArg _ records)

/-- What has become of a registry whose file could not be deleted, in a later world. -/
structure Barred (p : ProcessRef) (r : RegistryRef) (w u : World) : Prop where
  held : (w.registry r).id ∈ (u.process p).openIds
  /-- Nothing has been entered under its identifier. -/
  unentered : ∀ {r'}, Entered w u p r' → (u.registry r').id ≠ (w.registry r).id
  /-- Nor does a scan recover a file of that name, whatever stands there. -/
  unrecovered : ∀ {during : List FileStep} {report : ScanReport},
    (u.scan p during).1 = .ok report →
      ∀ r' ∈ report.recovered, ((u.scan p during).2.registry r').id ≠ (w.registry r).id
  refused : ∀ (dir : String) {xid : Xid}, xid.name = (w.registry r).id →
    u.createIn p dir xid = (.error (.createFailed (joinPath dir xid.name) .alreadyOpen), u)
  unmoved : ∀ base, u.relocate p base = (.error (.registriesOpen (u.process p).openIds.size), u)
  /-- Further releases find no branch. -/
  released : ∀ {t}, u.releasesFrom? t = some r →
    (u.step t).1 = .done ∧ (u.step t).2.files = u.files
  /-- A new log on the directory recovers a file with records that stands at the path. -/
  recoverable : ∀ {config : Config} (node : String) {place : Place} {inode : Nat}
    {ls : List Locator}, (w.registry r).path = joinPath config.dir (w.registry r).id →
      HomeAt u.files (Utf8.encode (w.registry r).path) place inode →
      u.files.readRecords (w.registry r).path = .ok ls → ls ≠ [] →
        let (q, opened) := u.openLog config node
        ∃ o v, opened.scan q [] = (.ok o, v) ∧ ∃ r' ∈ o.recovered,
          v.registry r' = recoveredRegistry q config.dir (w.registry r).id ls ∧
            (v.inDoubtOf q r').map v.branch = ls.map (Branch.mk · node r')

/-- It is barred in every later world, as long as it owns its identifier. -/
theorem Ownership.barred (owned : Ownership u p kept) (hr : kept r) (orderly : Orderly u)
    (extended : Extends w u) (there : r.index < w.registries.length)
    (spent : (u.registry r).Spent)
    (unentered : ∀ {r'}, Entered w u p r' → (u.registry r').id ≠ (w.registry r).id) :
    Barred p r w u := by
  have known := (owned.known hr).1
  have id := extended.id there
  have held : (w.registry r).id ∈ (u.process p).openIds := (owned.mem_iff _).mpr ⟨r, hr, id⟩
  refine ⟨held, unentered, fun {during report} scanned r' mem same => ?_, fun dir {xid} e => ?_,
    fun base => ?_, fun {t} out => ?_, fun {config} node => ?_⟩
  · have running : p.index < u.processes.length := by
      by_contra out
      rw [process_of_le (Nat.le_of_not_lt out)] at held
      exact OpenSet.not_mem_empty _ held
    have new := (mem_recovered_scan scanned).mp mem
    rw [← id, ← (extends_scan u p during).id known] at same
    have := (owned.scan running during).distinct (.inr new) (.inl hr) same
    subst this
    exact Nat.not_lt_of_le new.1 known
  · exact createIn_of_mem (e ▸ held)
  · exact if_pos (List.length_pos_of_mem held)
  · obtain ⟨b, same⟩ := step_eq_releaseFrom out
    have several : (u.registry r).count ≠ 1 := by
      rw [spent.1]
      exact Nat.zero_ne_one
    rw [same]
    simp only [World.step, releaseFrom_of_ne several]
    exact ⟨rfl, rfl⟩
  · rw [← extended.path there, ← id]
    exact fun stands home read nonempty =>
      recovers_openLog orderly known stands home read nonempty node

variable {changes : List FileStep}

/-- A last release whose file stands in the way of its deletion fails with the code of the resource
manager. All else has been done by then but freeing the identifier, which stays with the process
whatever is done later: nothing recovers or creates it there and the log is not moved. Further
releases are done and leave the files alone, and a new log recovers what comes to be there. -/
theorem deletion_contained
    (h : Along (Disciplined p) (past ++ s :: later) (ofFiles (FileSystem.empty.applyAll changes))) :
    let w := after past (ofFiles (FileSystem.empty.applyAll changes))
    let v := (w.step s).2
    (w.registry r).owner = p → w.Ends s r → releases? s = some b →
      w.files.unlink (Utf8.encode (w.registry r).path) = .error e → e ≠ .notFound →
        (∃ f, (w.step s).1 = .failed f ∧
          f = .deleteFailed (w.registry r).path (w.label b) (.system e) ∧
          f.code? = some .resourceManagerError) ∧
        LeavesFile w v r b ∧ Barred p r w (after later v) := by
  intro w v own ends branch stuck blocked
  obtain ⟨earlier, allowed, further⟩ := along_append.mp h
  have there := lt_of_ends ends
  have same := step_of_releases ends.1 branch
  have failed : (w.step s).1 =
      .failed (.deleteFailed (w.registry r).path (w.label b) (.system e)) := by
    rw [same]
    simp only [World.step, releaseFrom_of_stuck ends.2 stuck blocked b]
    rfl
  have leaves : LeavesFile w v r b := by
    have released := leavesFile_of_stuck (b := b) ends.2 stuck blocked
    have e : v = (w.releaseFrom r b).2 := congrArg Prod.snd same
    exact e ▸ released
  refine ⟨⟨_, failed, rfl, rfl⟩, leaves, ?_⟩
  have undeleted : Undeleted p past (ofFiles (FileSystem.empty.applyAll changes)) r := by
    by_contra gone
    have count := (spent_of_not_undeleted earlier there own gone).1
    rw [ends.2] at count
    cases count
  have still : Undeleted p (past ++ [s]) (ofFiles (FileSystem.empty.applyAll changes)) r := by
    refine undeleted_concat.mpr (.inl ⟨undeleted, fun gone => ?_⟩)
    have done := gone.2
    rw [failed] at done
    cases done
  have reached : after (past ++ [s]) (ofFiles (FileSystem.empty.applyAll changes)) = v :=
    after_append ..
  have further' : Along (Disciplined p) later
      (after (past ++ [s]) (ofFiles (FileSystem.empty.applyAll changes))) := reached ▸ further
  obtain ⟨kept, spent, unentered⟩ := undeleted_of_spent (along_concat.mpr ⟨earlier, allowed⟩)
    further' still (reached ▸ spent_of_ends ends)
  have whole : Along (Disciplined p) (past ++ [s] ++ later)
      (ofFiles (FileSystem.empty.applyAll changes)) := by
    rwa [List.append_assoc]
  have owned := ownership_along whole
  have orderly := (Orderly.ofFiles changes).after (past ++ [s] ++ later)
  have extended := extends_step w s
  rw [after_append, reached] at owned orderly
  rw [reached] at spent unentered
  refine owned.barred kept orderly (extended.trans (extends_after v later)) there spent ?_
  intro r' new
  rw [← extended.id there]
  refine unentered (((entered_trans extended (extends_after v later)).mp new).resolve_left ?_)
  exact not_entered leaves.number

/-- Where the file of the sample transaction is. -/
def samplePath : String := joinPath "./xa-recovery" Xid.sample.name

/-- The file of a registry turns into a directory before its only branch is released. -/
def obstructed : List Step :=
  [.openLog {} "n", .create ⟨0⟩ .sample, .enlist ⟨0⟩ .sample "n",
    .outside (.unlink (Utf8.encode samplePath)),
    .outside (.makeDirectories (Utf8.encode samplePath))]

/-- The directory turns into a file with a record after that. -/
def replaced : List Step :=
  [.outside (.removeTree (Utf8.encode samplePath)),
    .outside (.write (Utf8.encode samplePath) (Utf8.encode (Record.encode .sample))), .scan ⟨0⟩ []]

theorem deletion_contained_obstructed :
    let start := ofFiles (FileSystem.empty.applyAll [])
    let w := after obstructed start
    let v := (w.step (.release ⟨0⟩)).2
    let u := after replaced v
    Along (Disciplined ⟨0⟩) (obstructed ++ .release ⟨0⟩ :: replaced) start ∧
      (w.step (.release ⟨0⟩)).1 =
        .failed (.deleteFailed samplePath (w.label ⟨0⟩) (.system .isDirectory)) ∧
      LeavesFile w v ⟨0⟩ ⟨0⟩ ∧ Barred ⟨0⟩ ⟨0⟩ w u ∧
      (u.process ⟨0⟩).openIds.ids = [Xid.sample.name] ∧
      let (q, opened) := u.openLog {} "m"
      ∃ o x, opened.scan q [] = (.ok o, x) ∧ ∃ r ∈ o.recovered,
        x.registry r = recoveredRegistry q "./xa-recovery" Xid.sample.name [.sample] ∧
          (x.inDoubtOf q r).map x.branch = [⟨.sample, "m", r⟩] := by
  intro start w v u
  have allowed : Along (Disciplined ⟨0⟩) (obstructed ++ .release ⟨0⟩ :: replaced) start := by
    decide +kernel
  have located : (w.registry ⟨0⟩).path = joinPath (Config.dir {}) (w.registry ⟨0⟩).id := by
    decide +kernel
  obtain ⟨⟨_, failed, rfl, -⟩, leaves, barred⟩ := deletion_contained (r := ⟨0⟩) (b := ⟨0⟩)
    (e := .isDirectory) allowed (by decide +kernel) (by decide +kernel) rfl (by decide +kernel)
    (by decide)
  have home : HomeAt u.files (Utf8.encode (w.registry ⟨0⟩).path)
      [Utf8.encode Xid.sample.name, Utf8.encode "xa-recovery"] 1 := by
    constructor <;> decide +kernel
  have read : u.files.readRecords (w.registry ⟨0⟩).path = .ok [.sample] := by decide +kernel
  refine ⟨allowed, failed, leaves, barred, by decide +kernel, ?_⟩
  exact barred.recoverable "m" located home read (List.cons_ne_nil _ _)

end InDoubt.World

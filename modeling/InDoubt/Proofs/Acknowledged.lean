import InDoubt.Proofs.Placing
import InDoubt.Proofs.Retention
import InDoubt.Proofs.Serving
import Mathlib.Algebra.Order.BigOperators.Group.Finset

/-!
What survives a crash. Recording a branch in a registry answers well also where nothing is written,
in one that was recovered. A crash leaves in the file what was recorded in the registry that made
it, and the first scan of a new log finds just that. So all that has been acknowledged of a file is
found again exactly as long as no recovered registry of that file has recorded anything
(`acknowledged_le_iff`).
-/

namespace InDoubt.World

open FileSystem

variable {v w start : World} {p : ProcessRef} {r m : RegistryRef} {s : Step} {inode : Nat}
  {past steps : List Step} {changes : List FileStep} {l : Locator}

/-- A step of the processes alone, of which any number may run, that records locators only whose
texts are read back. -/
def Enclosed (w : World) (s : Step) : Prop :=
  (w.Admits s ∧ RecordsOnly Locator.Faithful s) ∧ Internal s

instance (w : World) (s : Step) : Decidable (Enclosed w s) := inferInstanceAs (Decidable (_ ∧ _))

/-- How often a location has been recorded with success in the registries of one file, the one that
made it and those that were recovered from it. -/
def acknowledged (inode : Nat) (l : Locator) (steps : List Step) (start : World) : Nat :=
  ∑ k ∈ (Finset.range (after steps start).registries.length).filter
      fun k => (account ⟨k⟩ steps start).home = some inode,
    (recordings ⟨k⟩ steps start).count l

theorem not_tampered (h : Along Enclosed steps start) : ¬Tampered inode steps start := by
  refine along_induction (I := fun past _ => ¬Tampered inode past start) id ?_ steps h
  intro past s _ allowed earlier
  unfold Tampered
  rw [sometime_concat, not_or]
  refine ⟨earlier, ?_⟩
  have internal := allowed.2
  cases s with
  | outside change => exact internal.elim
  | scan p during | sweep p during =>
      cases internal
      simp only [overwritten, writtenIn]
      split <;> simp
  | _ => simp [overwritten]

/-! The file of a registry is its home. -/

theorem home_concat (old : r.index < (after past start).registries.length) :
    (account r (past ++ [s]) start).home = (account r past start).home := by
  unfold account
  rw [observe_concat]
  simp only [noteFor]
  rw [if_neg fun new => Nat.not_lt.mpr new.1 old]
  split
  · rfl
  · split <;> rfl

/-- A registry that has a new file open has been created. -/
theorem inodeAt_step_of_handle? (ge : w.registries.length ≤ r.index)
    (holds : ((w.step s).2.registry r).handle? = some inode) :
    (w.step s).2.files.inodeAt (Utf8.encode ((w.step s).2.registry r).path) = .ok inode ∧
      r.index < (w.step s).2.registries.length := by
  have lt : r.index < (w.step s).2.registries.length := by
    by_contra missing
    rw [registry_of_le (Nat.le_of_not_lt missing)] at holds
    cases holds
  refine ⟨?_, lt⟩
  have missing : (w.registry r).handle? = none := by
    rw [registry_of_le ge]
    rfl
  have created {p : ProcessRef} {dir : String} {xid : Xid}
      (lt : r.index < (w.createIn p dir xid).2.registries.length)
      (holds : ((w.createIn p dir xid).2.registry r).handle? = some inode) :
      (w.createIn p dir xid).2.files.inodeAt
        (Utf8.encode ((w.createIn p dir xid).2.registry r).path) = .ok inode := by
    obtain ⟨i, new⟩ := registry_createIn_new ge lt
    obtain ⟨place, i', backed⟩ := Backing.backed_createIn ⟨ge, lt, congrArg Registry.owner new⟩
    have live : ((w.createIn p dir xid).2.registry r).isLive = true := by
      rw [new]
      rfl
    cases (backed.handle live).symm.trans holds
    exact backed.home.inodeAt
  by_cases entering : enters s = true
  · cases s with
    | create p xid | createIn p dir xid => exact created lt holds
    | scan p during | sweep p during =>
        have kept := (keepsOpen_scan (w := w) p during).handle r
        cases (missing.symm.trans kept.symm).trans holds
    | hostSweep => cases (missing.symm.trans (keepsOpen_hostSweep.handle r).symm).trans holds
    | _ => cases entering
  · rw [length_registries_step (Bool.not_eq_true _ ▸ entering)] at lt
    exact absurd lt (Nat.not_lt.mpr ge)

/-- The home of a registry is the inode that it has made. -/
theorem home_of_held (admitted : Along Admits steps (ofFiles (FileSystem.empty.applyAll changes)))
    (held : Held r inode steps (ofFiles (FileSystem.empty.applyAll changes))) :
    (account r steps (ofFiles (FileSystem.empty.applyAll changes))).home = some inode := by
  generalize initial : ofFiles (FileSystem.empty.applyAll changes) = start at admitted held
  refine (along_induction (P := Admits)
    (I := fun past w => ∀ r inode, Held r inode past start →
      (account r past start).home = some inode)
    (fun _ _ => False.elim) ?_ steps admitted) r inode held
  intro past s earlier admits h r inode held
  have authored : Authored past start (after past start) := by
    subst initial
    exact authored_along earlier
  rcases authored.held_concat.mp held with before | ⟨now, ge, -⟩
  · rw [home_concat (authored.lt before), h r inode before]
  · obtain ⟨reached, lt⟩ := inodeAt_step_of_handle? ge now
    unfold account
    rw [observe_concat, noteFor, if_pos ⟨ge, lt⟩]
    simp only [Account.opened, reached, Except.toOption]

/-! After a crash. -/

/-- What is acknowledged is what the maker of the file has recorded and what others have. -/
theorem acknowledged_le_count_iff (lt : m.index < (after steps start).registries.length)
    (home : (account m steps start).home = some inode) :
    acknowledged inode l steps start ≤ (recordings m steps start).count l ↔
      ∀ r, r.index < (after steps start).registries.length →
        (account r steps start).home = some inode → r ≠ m → l ∉ recordings r steps start := by
  have mem : m.index ∈ (Finset.range (after steps start).registries.length).filter
      fun k => (account ⟨k⟩ steps start).home = some inode :=
    Finset.mem_filter.mpr ⟨Finset.mem_range.mpr lt, home⟩
  unfold acknowledged
  rw [← Finset.add_sum_erase _ _ mem, add_le_iff_nonpos_right, Nat.le_zero,
    Finset.sum_eq_zero_iff]
  simp only [Finset.mem_erase, Finset.mem_filter, Finset.mem_range, List.count_eq_zero]
  constructor
  · intro h r lt home ne
    exact h r.index ⟨fun e => ne (by cases r; cases m; cases e; rfl), lt, home⟩
  · rintro h k ⟨ne, lt, home⟩
    exact h ⟨k⟩ lt home fun e => ne (congrArg RegistryRef.index e)

/-- Let the processes work on the files alone up to some point, at which a registry of a running
process has a file that has not been deleted. If that process crashes at once, the first scan of a
new log in the directory of the registry finds under its identifier all that was recorded in the
registry that made the file, in order, and nothing else. That is as much as was acknowledged of a
location exactly if none of the registries that were recovered from the file recorded it. -/
theorem acknowledged_le_iff (changes : List FileStep) (steps : List Step)
    (allowed : Along Enclosed steps (ofFiles (FileSystem.empty.applyAll changes)))
    (made : Held m inode steps (ofFiles (FileSystem.empty.applyAll changes)))
    (there : (after steps (ofFiles (FileSystem.empty.applyAll changes))).HasRegistry r)
    (stands : let w := after steps (ofFiles (FileSystem.empty.applyAll changes))
      w.files.inodeAt (Utf8.encode (w.registry r).path) = .ok inode)
    (config : Config) (node : String)
    (located : let w := after steps (ofFiles (FileSystem.empty.applyAll changes))
      (w.registry r).path = joinPath config.dir (w.registry r).id) :
    let start := ofFiles (FileSystem.empty.applyAll changes)
    let w := after steps start
    let fresh := after [.crash (w.registry r).owner, .openLog config node] w
    let q : ProcessRef := ⟨w.processes.length⟩
    ∃ o v, fresh.scan q [] = (.ok o, v) ∧
      v.locationsUnder (w.registry r).id (v.process q).inDoubt = recordings m steps start ∧
      ∀ l, acknowledged inode l steps start ≤
          (v.locationsUnder (w.registry r).id (v.process q).inDoubt).count l ↔
        ∀ r', r'.index < w.registries.length → (account r' steps start).home = some inode →
          r' ≠ m → l ∉ recordings r' steps start := by
  intro start w fresh q
  have admitted : Along Admits steps start := allowed.mono fun _ _ h => h.1.1
  have authored : Authored steps start w := authored_along admitted
  have orderly : Orderly w := (Orderly.ofFiles changes).after steps
  have situated : Situated w := by
    refine along_induction (I := fun _ v => Situated v)
      ⟨Sound.empty.applyAll changes, fun lt => absurd lt (Nat.not_lt_zero _)⟩ ?_ steps allowed
    exact fun past s _ allowed h => h.step allowed.1.1 allowed.2
  obtain ⟨place, home⟩ := situated.homeAt orderly there.1 stands
  -- The crash frees locks and the new log touches no file.
  have entered : fresh.processes = (w.crash (w.registry r).owner).processes ++
      [⟨config.dir, node, .empty, [], false, true⟩] := rfl
  have number : (w.crash (w.registry r).owner).processes.length = w.processes.length :=
    length_processes_step w (s := .crash (w.registry r).owner) nofun
  have new : fresh.process q = ⟨config.dir, node, .empty, [], false, true⟩ := by
    have last := process_append_new entered
    rwa [number] at last
  have running : q.index < fresh.processes.length := by
    rw [entered, List.length_append, number]
    exact Nat.lt_succ_self _
  have sound : fresh.files.Sound := orderly.sound.congr rfl rfl
  have home' : HomeAt fresh.files (Utf8.encode (joinPath config.dir (w.registry r).id)) place
      inode := by
    rw [← located]
    exact home.congr rfl
  have held : Holdable (w.registry r).id := by
    obtain ⟨_, -, held⟩ := orderly.registered there.1
    exact held
  have lists : fresh.files.Lists (fresh.process q).dir (w.registry r).id inode := by
    rw [new]
    exact home'.lists sound held (encode_dir_ne_nil config)
  have content : fresh.files.content inode = recordBytes (recordings m steps start) :=
    authored.content made (not_tampered allowed)
  have faithful : ∀ l ∈ recordings m steps start, l.Faithful :=
    of_mem_recordings (allowed.mono fun _ _ h => h.1.2) m
  obtain ⟨o, v, scanned, finds⟩ := finds_scan sound running lists content
    fun l mem => (faithful l mem).parsed
  obtain ⟨found, listed, -, locations⟩ := finds.inDoubt
  have free : (w.registry r).id ∉ (fresh.process q).openIds := by
    rw [new]
    exact OpenSet.not_mem_empty _
  have all : v.locationsUnder (w.registry r).id (v.process q).inDoubt =
      recordings m steps start := by
    rw [if_neg free, Record.map_reread faithful] at locations
    rw [listed, new, List.nil_append, locations]
  refine ⟨o, v, scanned, all, fun l => ?_⟩
  rw [all]
  exact acknowledged_le_count_iff (authored.lt made) (home_of_held admitted made)

/-- A branch is recorded, the process crashes, and the next one records another branch in the
registry that it has recovered. -/
def renewed : List Step :=
  [.openLog {} "n", .create ⟨0⟩ .sample, .enlist ⟨0⟩ .sample "n", .crash ⟨0⟩, .openLog {} "n",
    .scan ⟨1⟩ [], .enlist ⟨1⟩ { Locator.sample with scheme := "xb".toList } "n"]

/-- The second branch was recorded with success, and is not found again. -/
theorem not_found_renewed :
    let start := ofFiles (FileSystem.empty.applyAll [])
    let other : Locator := { Locator.sample with scheme := "xb".toList }
    let w := after renewed start
    let v := after [.crash ⟨1⟩, .openLog {} "n", .scan ⟨2⟩ []] w
    Along Enclosed renewed start ∧ w.HasRegistry ⟨1⟩ ∧
      ((after (renewed.take 6) start).step (.enlist ⟨1⟩ other "n")).1 = .branch ⟨2⟩ ∧
      w.files.inodeAt (Utf8.encode (w.registry ⟨1⟩).path) = .ok 0 ∧
      acknowledged 0 other renewed start = 1 ∧
      ((v.process ⟨2⟩).inDoubt.map v.branch).map Branch.location = [.sample] ∧
      other ≠ Locator.sample := by
  decide +kernel

/-- What is found is what the registry that was created had recorded. -/
theorem acknowledged_le_iff_renewed :
    let start := ofFiles (FileSystem.empty.applyAll [])
    let w := after renewed start
    let fresh := after [.crash (w.registry ⟨1⟩).owner, .openLog {} "n"] w
    Along Enclosed renewed start ∧ Held ⟨0⟩ 0 renewed start ∧ w.HasRegistry ⟨1⟩ ∧
      w.files.inodeAt (Utf8.encode (w.registry ⟨1⟩).path) = .ok 0 ∧
      (w.registry ⟨1⟩).path = joinPath (Config.dir {}) (w.registry ⟨1⟩).id ∧
      ∃ o v, fresh.scan ⟨w.processes.length⟩ [] = (.ok o, v) ∧
        v.locationsUnder (w.registry ⟨1⟩).id (v.process ⟨w.processes.length⟩).inDoubt =
          [.sample] := by
  intro start w fresh
  have allowed : Along Enclosed renewed start := by decide +kernel
  have made : Held ⟨0⟩ 0 renewed start := by decide +kernel
  have there : w.HasRegistry ⟨1⟩ := by decide +kernel
  have stands : w.files.inodeAt (Utf8.encode (w.registry ⟨1⟩).path) = .ok 0 := by decide +kernel
  have located : (w.registry ⟨1⟩).path = joinPath (Config.dir {}) (w.registry ⟨1⟩).id := by
    decide +kernel
  have recorded : recordings ⟨0⟩ renewed start = [.sample] := by decide +kernel
  obtain ⟨o, v, scanned, found, -⟩ :=
    acknowledged_le_iff [] renewed allowed made there stands {} "n" located
  rw [recorded] at found
  exact ⟨allowed, made, there, stands, located, o, v, scanned, found⟩

end InDoubt.World

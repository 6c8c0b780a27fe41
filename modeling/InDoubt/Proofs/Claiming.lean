import InDoubt.Proofs.Scanning

/-!
The order of claims. `createIn` and `recoverAll` claim an identifier when they enter a registry. A
process that does several things at a time cannot wait that long: it claims an identifier before it
looks at the files, so that nothing else it does takes the name meanwhile, and gives it back if no
registry is entered. The outcome is the same. A claim that is given back leaves no trace, whatever
has become of the files (`unclaim_claim`), so a creation (`createClaimed_eq_createIn`) and the
recovery of a directory (`recoverAllClaimed_eq_recoverAll`) may claim first, in every world.
-/

namespace InDoubt

/-- Makes a directory and in it a new file, which is locked. -/
def FileSystem.openLocked (fs : FileSystem) (dir path : String) :
    Except SystemError Nat × FileSystem :=
  match fs.makeDirectories (Utf8.encode dir) with
  | (.error e, tree) => (.error e, tree)
  | (.ok (), tree) =>
      match tree.createNew (Utf8.encode path) with
      | .error e => (.error e, tree)
      | .ok (inode, made) => (.ok inode, made.lock inode)

namespace World

variable {w : World} {p : ProcessRef} {dir id path : String} {ls : List Locator}

/-! Claims that are given back. -/

/-- A claim that was free and is given back leaves no trace, whatever becomes of the files. -/
theorem unclaim_claim (free : id ∉ (w.process p).openIds) (files : FileSystem) :
    (({ (w.claim p id).2 with files } : World).unclaim p id).2 = { w with files } := by
  have both : (({ (w.claim p id).2 with files } : World).unclaim p id).2 =
      ({ w with files } : World).updateProcess p fun proc =>
        { proc with openIds := (proc.openIds.insert id).erase id } := by
    simp only [unclaim, claim, updateProcess, List.modify_modify_eq]
    rfl
  rw [both]
  refine updateProcess_eq_self ?_
  have back : ((w.process p).openIds.insert id).erase id = (w.process p).openIds :=
    OpenSet.erase_insert free
  exact congrArg (fun openIds => { w.process p with openIds }) back

/-- An identifier that is owned can be claimed again. -/
theorem claim_of_mem (owned : id ∈ (w.process p).openIds) : (w.claim p id).2 = w := by
  refine updateProcess_eq_self ?_
  exact congrArg (fun openIds => { w.process p with openIds }) (OpenSet.insert_of_mem owned)

/-! Creation. -/

/-- Creates a registry under an identifier that is claimed first. -/
def createClaimed (w : World) (p : ProcessRef) (dir : String) (xid : Xid) :
    Except Failure RegistryRef × World :=
  let path := joinPath dir xid.name
  match w.claim p xid.name with
  | (false, claimed) => (.error (.createFailed path .alreadyOpen), claimed)
  | (true, claimed) =>
      match claimed.files.openLocked dir path with
      | (.error e, files) =>
          (.error (.createFailed path (.system e)),
            (({ claimed with files } : World).unclaim p xid.name).2)
      | (.ok inode, files) =>
          let (r, entered) := ({ claimed with files } : World).addRegistry
            ⟨p, xid.name, path, .created (some inode), 0⟩
          (.ok r, entered)

theorem createClaimed_eq_createIn (w : World) (p : ProcessRef) (dir : String) (xid : Xid) :
    w.createClaimed p dir xid = w.createIn p dir xid := by
  by_cases owned : xid.name ∈ (w.process p).openIds
  · have claimed : w.claim p xid.name = (false, w) :=
      Prod.ext (decide_eq_false (not_not.mpr owned)) (claim_of_mem owned)
    rw [createIn_of_mem owned, createClaimed, claimed]
  · have claimed : w.claim p xid.name = (true, (w.claim p xid.name).2) :=
      Prod.ext (decide_eq_true owned) rfl
    rw [createClaimed, claimed]
    simp only [FileSystem.openLocked]
    rcases made : w.files.makeDirectories (Utf8.encode dir) with ⟨_ | ⟨⟩, tree⟩
    · rw [createIn_of_failed owned (.inl made)]
      simp only [show (w.claim p xid.name).2.files = w.files from rfl, made]
      rw [unclaim_claim owned]
    · cases new : tree.createNew (Utf8.encode (joinPath dir xid.name)) with
      | error e =>
          rw [createIn_of_failed owned (.inr ⟨made, new⟩)]
          simp only [show (w.claim p xid.name).2.files = w.files from rfl, made, new]
          rw [unclaim_claim owned]
      | ok inode =>
          rw [createIn_of_made owned made new]
          simp only [show (w.claim p xid.name).2.files = w.files from rfl, made, new]
          rfl

/-! Recovery. -/

/-- Recovers one file under an identifier that has been claimed, which is given back if there is no
registry. -/
def recoverClaimed (w : World) (p : ProcessRef) (dir id : String) : Recovery × World :=
  let (outcome, after) := w.recover p dir id
  match outcome with
  | .recovered _ => (outcome, after)
  | .nothing | .failed _ => (outcome, (after.unclaim p id).2)

/-- Recovers the named files of a directory, each under an identifier that is claimed first. -/
def recoverAllClaimed (p : ProcessRef) (dir : String) : List String → World → ScanReport × World
  | [], w => (⟨[], []⟩, w)
  | id :: rest, w =>
      match w.claim p id with
      | (false, claimed) => recoverAllClaimed p dir rest claimed
      | (true, claimed) =>
          let (outcome, after) := claimed.recoverClaimed p dir id
          let (others, last) := recoverAllClaimed p dir rest after
          (outcome.addTo others, last)

/-- A registry that is adopted claims its identifier, or keeps the claim. -/
theorem adopt_claim (w : World) (p : ProcessRef) (id path : String) (ls : List Locator) :
    (w.claim p id).2.adopt p id path ls = w.adopt p id path ls := by
  have node : ((w.claim p id).2.process p).node = (w.process p).node := by
    refine part_updateProcess Process.node ?_ p
    exact fun _ => rfl
  have processes : ((w.claim p id).2.adopt p id path ls).2.processes =
      (w.adopt p id path ls).2.processes := by
    rw [processes_adopt, processes_adopt]
    simp only [claim, updateProcess, List.modify_modify_eq]
    congr 1
    funext proc
    simp [OpenSet.insert_twice]
  have branches : ((w.claim p id).2.adopt p id path ls).2.branches =
      (w.adopt p id path ls).2.branches := by
    rw [branches_adopt, branches_adopt, node]
    rfl
  have parts (v : World) : v = ⟨v.files, v.processes, v.registries, v.branches, v.callbacks⟩ := rfl
  refine Prod.ext rfl ?_
  rw [parts ((w.claim p id).2.adopt p id path ls).2, processes, branches]
  rfl

/-- What becomes of one file does not depend on the claim. -/
theorem recover_claim (w : World) (p : ProcessRef) (dir id : String) :
    (∃ outcome files, (∀ r, outcome ≠ .recovered r) ∧
      w.recover p dir id = (outcome, { w with files }) ∧
      (w.claim p id).2.recover p dir id = (outcome, { (w.claim p id).2 with files })) ∨
    ∃ r v, w.recover p dir id = (.recovered r, v) ∧
      (w.claim p id).2.recover p dir id = (.recovered r, v) := by
  have read : (w.claim p id).2.files = w.files := rfl
  simp only [recover, read]
  split
  · exact .inl ⟨.nothing, w.files, by simp, rfl, rfl⟩
  · exact .inl ⟨.failed _, w.files, by simp, rfl, rfl⟩
  · exact .inl ⟨.nothing, _, by simp, rfl, rfl⟩
  · exact .inr ⟨_, _, rfl, by rw [adopt_claim]⟩

theorem recoverClaimed_claim (free : id ∉ (w.process p).openIds) (dir : String) :
    (w.claim p id).2.recoverClaimed p dir id = w.recover p dir id := by
  obtain ⟨outcome, files, unrecovered, unclaimed, claimed⟩ | ⟨r, v, unclaimed, claimed⟩ :=
    recover_claim w p dir id
  · rw [recoverClaimed, unclaimed, claimed]
    cases outcome with
    | recovered r => exact absurd rfl (unrecovered r)
    | nothing => exact congrArg (Recovery.nothing, ·) (unclaim_claim free files)
    | failed f => exact congrArg (Recovery.failed f, ·) (unclaim_claim free files)
  · rw [recoverClaimed, unclaimed, claimed]

theorem recoverAllClaimed_eq_recoverAll (p : ProcessRef) (dir : String) (ids : List String)
    (w : World) : recoverAllClaimed p dir ids w = recoverAll p dir ids w := by
  induction ids generalizing w with
  | nil => rfl
  | cons id rest ih =>
      by_cases owned : id ∈ (w.process p).openIds
      · have claimed : w.claim p id = (false, w) :=
          Prod.ext (decide_eq_false (not_not.mpr owned)) (claim_of_mem owned)
        simp only [recoverAllClaimed, claimed, recoverAll, if_pos owned, ih]
      · have claimed : w.claim p id = (true, (w.claim p id).2) :=
          Prod.ext (decide_eq_true owned) rfl
        rw [recoverAllClaimed, claimed]
        simp only [recoverClaimed_claim owned, recoverAll, if_neg owned, ih]

end World

end InDoubt

import InDoubt.Log
import InDoubt.RegistryFile

/-!
Recovery of registries that other processes left behind. A scan lists the directory of a log and
then considers each file that its process does not own. A file with locators becomes a recovered
registry whose branches are in doubt; one without is deleted unless somebody holds its lock; one
that cannot be read or parsed is a failure, and the next scan tries it again. Others may change the
files between the listing and the first claim, and at no other point of a scan.
-/

namespace InDoubt

/-- What became of one file. -/
inductive Recovery
  | nothing
  | failed (f : Failure)
  | recovered (r : RegistryRef)

/-- What became of all files, in the order of their names. -/
structure ScanReport where
  recovered : List RegistryRef
  failures : List Failure
  deriving DecidableEq

def Recovery.addTo (o : ScanReport) : Recovery → ScanReport
  | .nothing => o
  | .failed f => { o with failures := f :: o.failures }
  | .recovered r => { o with recovered := r :: o.recovered }

namespace World

/-- Enters a recovered registry with a branch in doubt for each locator. -/
def adopt (w : World) (p : ProcessRef) (id path : String) (locators : List Locator) :
    RegistryRef × World :=
  let node := (w.process p).node
  let (r, entered) := w.addRegistry ⟨p, id, path, .recovered, locators.length⟩
  let first := entered.branches.length
  let made := { entered with
    branches := entered.branches ++ locators.map (Branch.mk · node r) }
  let handles := (List.range locators.length).map fun i => BranchRef.mk (first + i)
  (r, (made.doubt p handles).updateProcess p fun proc =>
    { proc with openIds := proc.openIds.insert id })

/-- Recovers one file of a directory. The identifier stays claimed only if there is a registry. -/
def recover (w : World) (p : ProcessRef) (dir id : String) : Recovery × World :=
  let path := joinPath dir id
  match w.files.readRecords path with
  | .error (.readFailed _ (.system .notFound)) => (.nothing, w)
  | .error f => (.failed f, w)
  | .ok [] => (.nothing, { w with files := w.files.unlinkUnlocked path })
  | .ok (l :: ls) =>
      let (r, after) := w.adopt p id path (l :: ls)
      (.recovered r, after)

/-- Recovers the named files of a directory that the process does not own. -/
def recoverAll (p : ProcessRef) (dir : String) : List String → World → ScanReport × World
  | [], w => (⟨[], []⟩, w)
  | id :: rest, w =>
      if id ∈ (w.process p).openIds then recoverAll p dir rest w
      else
        let (outcome, after) := w.recover p dir id
        let (others, last) := recoverAll p dir rest after
        (outcome.addTo others, last)

/-- One scan of a log. `during` is what happens to the files after they have been listed. -/
def scan (w : World) (p : ProcessRef) (during : List FileStep) :
    Except Failure ScanReport × World :=
  let dir := (w.process p).dir
  match w.files.registryFiles dir with
  | .error f => (.error f, w)
  | .ok ids =>
      let (outcome, after) := recoverAll p dir ids { w with files := w.files.applyAll during }
      (.ok outcome, after)

/-- The number of branches that a scan has put in doubt. -/
def branchesRecovered (w : World) (o : ScanReport) : Nat :=
  o.recovered.foldr (fun r n => (w.registry r).count + n) 0

/-- A scan whose failures nobody sees, and all branches in doubt after it. -/
def sweep (w : World) (p : ProcessRef) (during : List FileStep) : List BranchRef × World :=
  let after := (w.scan p during).2
  ((after.process p).inDoubt, after)

end World

end InDoubt

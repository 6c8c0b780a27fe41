import InDoubt.Recovery.Host

/-!
Runs. A step is one operation of a process, of the host, or of somebody else on the files; a run is
a list of steps from some world on. A step names processes, registries and branches by reference.
-/

namespace InDoubt

inductive Step
  | outside (change : FileStep)
  | openLog (config : Config) (node : String)
  | crash (p : ProcessRef)
  | relocate (p : ProcessRef) (base : String)
  | create (p : ProcessRef) (xid : Xid)
  | createIn (p : ProcessRef) (dir : String) (xid : Xid)
  | record (r : RegistryRef) (location : Locator)
  | enlist (r : RegistryRef) (location : Locator) (node : String)
  | bind (r : RegistryRef) (location : Locator) (node : String)
  | release (b : BranchRef)
  | releaseFrom (r : RegistryRef) (b : BranchRef)
  | mark (b : BranchRef)
  | doubtVia (r : RegistryRef) (b : BranchRef)
  | scan (p : ProcessRef) (during : List FileStep)
  | sweep (p : ProcessRef) (during : List FileStep)
  | register (p : ProcessRef)
  | unregister (p : ProcessRef)
  | hostSweep
  | claim (p : ProcessRef) (id : String)
  | unclaim (p : ProcessRef) (id : String)
  | doubt (p : ProcessRef) (bs : List BranchRef)
  | settle (p : ProcessRef) (b : BranchRef)
  deriving DecidableEq

/-- What a step answers. -/
inductive Answer
  | done
  | refused (e : SystemError)
  | failed (f : Failure)
  | process (p : ProcessRef)
  | registry (r : RegistryRef)
  | branch (b : BranchRef)
  | branches (bs : List BranchRef)
  | scanned (o : ScanReport)
  | truth (b : Bool)
  | number (n : Nat)
  deriving DecidableEq

/-- The answer of an operation that can fail. -/
def Answer.of {α : Type} (ofValue : α → Answer) : Except Failure α → Answer
  | .ok a => ofValue a
  | .error f => .failed f

namespace World

def step (w : World) : Step → Answer × World
  | .outside change =>
      match w.files.apply change with
      | (.ok (), files) => (.done, { w with files })
      | (.error e, files) => (.refused e, { w with files })
  | .openLog config node => (w.openLog config node).map .process id
  | .crash p => (.done, w.crash p)
  | .relocate p base => (w.relocate p base).map (.of fun () => .done) id
  | .create p xid => (w.create p xid).map (.of .registry) id
  | .createIn p dir xid => (w.createIn p dir xid).map (.of .registry) id
  | .record r location => (w.record r location).map (.of fun () => .done) id
  | .enlist r location node => (w.enlist r location node).map (.of .branch) id
  | .bind r location node => (w.bind r location node).map .branch id
  | .release b => (w.release b).map (.of fun () => .done) id
  | .releaseFrom r b => (w.releaseFrom r b).map (.of fun () => .done) id
  | .mark b => (.done, w.mark b)
  | .doubtVia r b => (.done, w.doubtVia r b)
  | .scan p during => (w.scan p during).map (.of .scanned) id
  | .sweep p during => (w.sweep p during).map .branches id
  | .register p => (.number (w.register p).callbacks.length, w.register p)
  | .unregister p => (.number (w.unregister p).callbacks.length, w.unregister p)
  | .hostSweep => w.hostSweep.map .branches id
  | .claim p i => (w.claim p i).map .truth id
  | .unclaim p i => (w.unclaim p i).map .truth id
  | .doubt p bs => (.done, w.doubt p bs)
  | .settle p b => (.number ((w.process p).inDoubt.count b), w.settle p b)

/-- The answers of a run, and the world after it. -/
def run : List Step → World → List Answer × World
  | [], w => ([], w)
  | s :: rest, w =>
      let (answer, after) := w.step s
      let (answers, last) := run rest after
      (answer :: answers, last)

end World

end InDoubt

import InDoubt.Config
import InDoubt.Failure
import InDoubt.FileSystem.Outside
import InDoubt.OpenSet

/-!
All that recovery logs work on: the files, and the processes that keep a log in them. A process owns
registries and lists branches that are in doubt. Processes, registries and branches are entered in
order and never removed, so a reference to one is a position and two branches with equal parts are
still told apart. A crashed process stays as one that runs no more.
-/

namespace InDoubt

structure ProcessRef where
  index : Nat
  deriving DecidableEq

structure RegistryRef where
  index : Nat
  deriving DecidableEq

structure BranchRef where
  index : Nat
  deriving DecidableEq

/-- Where a registry comes from. One that its process created appends to an inode while it is open,
and to none once it has been closed; one that was recovered knows its file by path only. -/
inductive Origin
  | created (handle : Option Nat)
  | recovered
  deriving DecidableEq

/-- The record of the branches that one transaction has outflowed. `count` is the number of branches
recorded and not released, and never overflows. -/
structure Registry where
  owner : ProcessRef
  id : String
  path : String
  origin : Origin
  count : Nat
  deriving DecidableEq

/-- The handle of one branch: where it lives, and which registry to tell when it is done. -/
structure Branch where
  location : Locator
  node : String
  registry : RegistryRef
  deriving DecidableEq

/-- One process with a recovery log in the directory `dir`. It owns the registries in `openIds` and
may hold a registration with the host; no step of a process that is not running is meant to
happen. -/
structure Process where
  dir : String
  node : String
  openIds : OpenSet
  inDoubt : List BranchRef
  registered : Bool
  running : Bool
  deriving DecidableEq

/-- `callbacks` are the logs that the host sweeps, once for each time they were registered. -/
structure World where
  files : FileSystem
  processes : List Process
  registries : List Registry
  branches : List Branch
  callbacks : List ProcessRef
  deriving DecidableEq

instance : Inhabited Process := ⟨⟨"", "", .empty, [], false, false⟩⟩

instance : Inhabited Registry := ⟨⟨⟨0⟩, "", "", .recovered, 0⟩⟩

instance : Inhabited Branch := ⟨⟨⟨[], none, .rooted [], none, none⟩, "", ⟨0⟩⟩⟩

namespace Registry

def isLive (g : Registry) : Bool :=
  match g.origin with
  | .created _ => true
  | .recovered => false

/-- The inode that a registry holds open. -/
def handle? (g : Registry) : Option Nat :=
  match g.origin with
  | .created handle => handle
  | .recovered => none

/-- The registry without its open file. -/
def closed (g : Registry) : Registry :=
  match g.origin with
  | .created _ => { g with origin := .created none }
  | .recovered => g

/-- The transaction of a registry, if its file is named after one. -/
def xid? (g : Registry) : Option Xid := (Xid.parse g.id).toOption

/-- How a registry is described in full. -/
def describe (g : Registry) : String :=
  "RegistryStore \x7b id: " ++ Text.quoted g.id ++ ", path: " ++ Text.quoted g.path ++
    ", live: " ++ toString g.isLive ++ ", resource_count: " ++ toString g.count ++ " \x7d"

end Registry

namespace World

/-- No files and no processes. -/
def empty : World := ⟨.empty, [], [], [], []⟩

def process (w : World) (p : ProcessRef) : Process := w.processes.getD p.index default

def registry (w : World) (r : RegistryRef) : Registry := w.registries.getD r.index default

def branch (w : World) (b : BranchRef) : Branch := w.branches.getD b.index default

def updateProcess (w : World) (p : ProcessRef) (f : Process → Process) : World :=
  { w with processes := w.processes.modify p.index f }

def updateRegistry (w : World) (r : RegistryRef) (f : Registry → Registry) : World :=
  { w with registries := w.registries.modify r.index f }

def addRegistry (w : World) (g : Registry) : RegistryRef × World :=
  (⟨w.registries.length⟩, { w with registries := w.registries ++ [g] })

def addBranch (w : World) (b : Branch) : BranchRef × World :=
  (⟨w.branches.length⟩, { w with branches := w.branches ++ [b] })

/-- How a branch is named in messages. -/
def label (w : World) (b : BranchRef) : String :=
  let branch := w.branch b
  "SubordinateResource \x7b location: " ++ branch.location.text ++ ", node: " ++ branch.node ++
    ", registry: " ++ (w.registry branch.registry).id ++ " \x7d"

/-- How a branch is described in full. -/
def describe (w : World) (b : BranchRef) : String :=
  let branch := w.branch b
  "SubordinateResource \x7b location: " ++ Text.quoted branch.location.text ++
    ", node_name: " ++ Text.quoted branch.node ++
    ", registry: " ++ Text.quoted (w.registry branch.registry).path ++ " \x7d"

end World

end InDoubt

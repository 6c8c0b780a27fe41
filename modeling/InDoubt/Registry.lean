import InDoubt.World

/-!
The operations on registries and on the branches they record. A registry is created together with
an empty, locked file of its own; every recorded branch adds a line to that file; the release of the
last branch closes and deletes the file and gives the identifier back. What a registry asks of an
open file is always done: a new file is locked at once, and a line is added and kept as a whole.
-/

namespace InDoubt.World

/-- Creates the registry of a transaction in a directory. The directory is made if it is missing;
nothing may stand at the path of the file. -/
def createIn (w : World) (p : ProcessRef) (dir : String) (xid : Xid) :
    Except Failure RegistryRef × World :=
  let path := joinPath dir xid.name
  if xid.name ∈ (w.process p).openIds then (.error (.createFailed path .alreadyOpen), w)
  else
    match w.files.makeDirectories (Utf8.encode dir) with
    | (.error e, files) => (.error (.createFailed path (.system e)), { w with files })
    | (.ok (), files) =>
        match files.createNew (Utf8.encode path) with
        | .error e => (.error (.createFailed path (.system e)), { w with files })
        | .ok (inode, made) =>
            let (r, entered) := { w with files := made.lock inode }.addRegistry
              ⟨p, xid.name, path, .created (some inode), 0⟩
            (.ok r, entered.updateProcess p fun proc =>
              { proc with openIds := proc.openIds.insert xid.name })

/-- Creates the registry of a transaction in the directory of the log. -/
def create (w : World) (p : ProcessRef) (xid : Xid) : Except Failure RegistryRef × World :=
  w.createIn p (w.process p).dir xid

/-- Records a branch. The count grows even if nothing could be written. -/
def record (w : World) (r : RegistryRef) (location : Locator) : Except Failure Unit × World :=
  let counted := w.updateRegistry r fun g => { g with count := g.count + 1 }
  match (w.registry r).origin with
  | .recovered => (.ok (), counted)
  | .created none => (.error (.appendFailed location (w.registry r).path .fileClosed), counted)
  | .created (some inode) =>
      (.ok (), { counted with
        files := w.files.appendTo inode (Utf8.encode (Record.encode location)) })

/-- A handle for a branch, without recording it. -/
def bind (w : World) (r : RegistryRef) (location : Locator) (node : String) :
    BranchRef × World :=
  w.addBranch ⟨location, node, r⟩

/-- Records a branch and answers with its handle. -/
def enlist (w : World) (r : RegistryRef) (location : Locator) (node : String) :
    Except Failure BranchRef × World :=
  match w.record r location with
  | (.error f, after) => (.error f, after)
  | (.ok (), after) =>
      let (b, made) := after.bind r location node
      (.ok b, made)

/-- Closes the file of a registry, which frees its lock. -/
def close (w : World) (r : RegistryRef) : World :=
  { w with files := w.files.unlock (w.registry r).handle?.toList }.updateRegistry r .closed

/-- Closes and deletes the file of a registry on behalf of a branch, and gives the identifier back.
A file that is already gone counts as deleted; if the deletion fails the identifier is kept. -/
def delete (w : World) (r : RegistryRef) (b : BranchRef) : Except Failure Unit × World :=
  let closed := w.close r
  let g := w.registry r
  let freed (v : World) : World := v.updateProcess g.owner fun proc =>
    { proc with openIds := proc.openIds.erase g.id }
  match closed.files.unlink (Utf8.encode g.path) with
  | .ok files => (.ok (), freed { closed with files })
  | .error .notFound => (.ok (), freed closed)
  | .error e => (.error (.deleteFailed g.path (w.label b) (.system e)), closed)

/-- Drops every mention of a branch from the in-doubt list of a process. -/
def settle (w : World) (p : ProcessRef) (b : BranchRef) : World :=
  w.updateProcess p fun proc => { proc with inDoubt := proc.inDoubt.filter (· ≠ b) }

/-- Releases a branch from a registry. The last release deletes the file; one more than were
recorded changes no count. The branch is in doubt no longer, whatever became of the deletion. -/
def releaseFrom (w : World) (r : RegistryRef) (b : BranchRef) :
    Except Failure Unit × World :=
  let g := w.registry r
  let counted := w.updateRegistry r fun g => { g with count := g.count - 1 }
  let (outcome, after) := if g.count = 1 then counted.delete r b else (.ok (), counted)
  (outcome, after.settle g.owner b)

/-- Releases a branch from its own registry. -/
def release (w : World) (b : BranchRef) : Except Failure Unit × World :=
  w.releaseFrom (w.branch b).registry b

/-- Lists branches as in doubt. -/
def doubt (w : World) (p : ProcessRef) (bs : List BranchRef) : World :=
  w.updateProcess p fun proc => { proc with inDoubt := proc.inDoubt ++ bs }

/-- Lists a branch as in doubt with the process of a registry. -/
def doubtVia (w : World) (r : RegistryRef) (b : BranchRef) : World :=
  w.doubt (w.registry r).owner [b]

/-- Lists a branch as in doubt with the process of its own registry. -/
def mark (w : World) (b : BranchRef) : World := w.doubtVia (w.branch b).registry b

end InDoubt.World

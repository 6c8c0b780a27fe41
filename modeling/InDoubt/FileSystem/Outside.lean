import InDoubt.FileSystem.Directories

/-!
Changes to the tree that are not made by a recovery log: what other programs, or an operator, do to
the files between and during its operations. A change that fails leaves the tree as it was, except
that the directories above a path are made before it is written to, and that a directory is emptied
before it is removed.
-/

namespace InDoubt

inductive FileStep
  | write (path bytes : Bytes)
  | append (path bytes : Bytes)
  | makeDirectories (path : Bytes)
  | unlink (path : Bytes)
  | removeTree (path : Bytes)
  | rename (path newPath : Bytes)
  | link (path target : Bytes)
  deriving DecidableEq

namespace FileSystem

/-- Makes the directories above a path, as far as that is possible. -/
def makeParents (fs : FileSystem) (path : Bytes) : FileSystem :=
  (fs.makeDirectories (pathAbove path)).2

/-- The outcome of an operation, and the tree before it if it failed. -/
def orBefore (fs : FileSystem) (outcome : Except SystemError FileSystem) :
    Except SystemError Unit × FileSystem :=
  match outcome with
  | .ok after => (.ok (), after)
  | .error e => (.error e, fs)

def apply (fs : FileSystem) : FileStep → Except SystemError Unit × FileSystem
  | .write path bytes =>
      let ready := fs.makeParents path
      ready.orBefore (ready.write path bytes)
  | .append path bytes => fs.orBefore (fs.append path bytes)
  | .makeDirectories path => fs.makeDirectories path
  | .unlink path => fs.orBefore (fs.unlink path)
  | .removeTree path => fs.removeTree path
  | .rename path newPath => fs.orBefore (fs.rename path newPath)
  | .link path target => fs.orBefore (fs.makeLink path target)

/-- The tree after several changes, whatever became of each. -/
def applyAll (fs : FileSystem) (steps : List FileStep) : FileSystem :=
  steps.foldl (fun tree step => (tree.apply step).2) fs

end FileSystem

end InDoubt

/-!
Where a recovery log keeps its files, and how an append is forced to disk. A directory is given as a
text. The choice of barrier has no effect on what is written.
-/

namespace InDoubt

/-- The barrier after an append: all of the file's state, or what reading it back needs. -/
inductive Barrier
  | full
  | data
  deriving DecidableEq

structure Config where
  baseDir : String := "."
  barrier : Barrier := .full
  deriving DecidableEq

/-- A directory and a relative name as one path. Nothing is normalised. -/
def joinPath (dir name : String) : String :=
  if dir = "" ∨ dir.toList.getLast? = some '/' then dir ++ name else dir ++ "/" ++ name

/-- The directory of registry files under a base directory. -/
def recoveryDir (base : String) : String := joinPath base "xa-recovery"

def Config.dir (config : Config) : String := recoveryDir config.baseDir

end InDoubt

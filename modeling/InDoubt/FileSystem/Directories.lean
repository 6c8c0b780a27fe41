import InDoubt.FileSystem.Files

/-!
Operations on directories: listing, making with all that is missing above, removing with all that is
below, and renaming, which moves files and links as well. Making and removing take several steps,
and what was done before one of them failed stays done.
-/

namespace InDoubt.FileSystem

/-- The entries of the directory that a path leads to. -/
def list (fs : FileSystem) (path : Bytes) : Except SystemError (List (Bytes × Node)) := do
  let place ← fs.locate path
  match fs.node? place with
  | some .directory => .ok (fs.children place)
  | some _ => .error .notDirectory
  | none => .error .notFound

def isDirectory (fs : FileSystem) (path : List Bytes) : Bool :=
  match walk fs .follow maxLinks [] path with
  | .ok place => fs.node? place = some .directory
  | .error _ => false

/-- Makes one directory; all above it must exist. -/
def makeDirectory (fs : FileSystem) (path : List Bytes) : Except SystemError FileSystem := do
  let place ← walk fs .keep maxLinks [] path
  match fs.node? place with
  | some _ => .error .alreadyExists
  | none => .ok (fs.put place .directory)

/-- The outcome of making a directory that may have existed before. -/
def settleDirectory (fs : FileSystem) (path : List Bytes) :
    Except SystemError Unit × FileSystem :=
  match fs.makeDirectory path with
  | .ok made => (.ok (), made)
  | .error e => if fs.isDirectory path then (.ok (), fs) else (.error e, fs)

/-- Makes a directory, and if something above it is missing first that, whose names are `above`
from the last to the first. What was made before a failure stays. -/
def makeDirectoriesBelow (fs : FileSystem) (above : List Bytes) (path : List Bytes) :
    Except SystemError Unit × FileSystem :=
  match fs.makeDirectory path, above with
  | .error .notFound, [] => fs.settleDirectory path
  | .error .notFound, _ :: higher =>
      match makeDirectoriesBelow fs higher above.reverse with
      | (.ok (), made) => made.settleDirectory path
      | (.error e, made) => (.error e, made)
  | _, _ => fs.settleDirectory path

/-- Makes a directory with all that is missing above it. The empty path asks for nothing. -/
def makeDirectories (fs : FileSystem) (path : Bytes) : Except SystemError Unit × FileSystem :=
  if path = [] then (.ok (), fs)
  else
    match checkPath path with
    | .error e => (.error e, fs)
    | .ok () =>
        makeDirectoriesBelow fs ((names path).filter (· ≠ dot)).reverse.tail (names path)

/-- Whether a place is, or is below, another. -/
def isAtOrBelow (place top : Place) : Bool := top.isSuffixOf place

/-- Removes all that is below a place. -/
def clear (fs : FileSystem) (place : Place) : FileSystem :=
  { fs with entries := fs.entries.filter fun (p, _) => p = place || !isAtOrBelow p place }

/-- Removes an empty directory. A path that ends in dots names no entry to remove. -/
def removeDirectory (fs : FileSystem) (path : Bytes) : Except SystemError FileSystem := do
  let _ ← fs.locateParent path
  match (names path).getLast? with
  | none => .error .busy
  | some name =>
      if name = dot then .error .invalidArgument
      else if name = dotDot then .error .notEmpty
      else do
        let place ← fs.locateEntry path
        match fs.node? place with
        | none => .error .notFound
        | some .directory =>
            if fs.children place = [] then .ok (fs.remove place) else .error .notEmpty
        | some _ => .error .notDirectory

/-- Empties a directory and then removes it. It may be gone by then, if the path leads to it by way
of what was below it; if it cannot be removed by its path it stays empty. -/
def removeFull (fs : FileSystem) (path : Bytes) (place : Place) :
    Except SystemError Unit × FileSystem :=
  let cleared := fs.clear place
  match cleared.removeDirectory path with
  | .ok after => (.ok (), after)
  | .error .notFound => (.ok (), cleared)
  | .error e => (.error e, cleared)

/-- Removes a directory with all below it, or a link. -/
def removeTree (fs : FileSystem) (path : Bytes) : Except SystemError Unit × FileSystem :=
  match fs.locateItself path with
  | .error e => (.error e, fs)
  | .ok place =>
      match fs.node? place with
      | none => (.error .notFound, fs)
      | some (.file _) => (.error .notDirectory, fs)
      | some (.link _) => (.ok (), fs.remove place)
      | some .directory => fs.removeFull path place

/-- Moves the entry at one place, with all below it, to another. -/
def move (fs : FileSystem) (source target : Place) : FileSystem :=
  let cleared := (fs.remove target).entries
  { fs with
    entries := cleared.map fun (p, node) =>
      if isAtOrBelow p source then (p.take (p.length - source.length) ++ target, node)
      else (p, node) }

/-- Why the entry `node` may not take the place of what stands at `target`. -/
def replaceFault (fs : FileSystem) (node : Node) (target : Place) : Option SystemError :=
  match node, fs.node? target with
  | _, none => none
  | .directory, some .directory =>
      if fs.children target = [] then none else some .notEmpty
  | .directory, some _ => some .notDirectory
  | _, some .directory => some .isDirectory
  | _, some _ => none

/-- Gives an entry another path, in place of what stands there. Both directories are found before
either name is looked up in them. -/
def rename (fs : FileSystem) (path newPath : Bytes) : Except SystemError FileSystem := do
  refuseNul path
  refuseNul newPath
  let _ ← fs.locateParent path
  let _ ← fs.locateParent newPath
  if endsInDots path || endsInDots newPath then .error .busy
  else do
    let source ← fs.locateEntry path
    match fs.node? source with
    | none => .error .notFound
    | some node => do
        let target ← fs.locateEntry newPath
        if node ≠ .directory ∧ (endsInSlash path || endsInSlash newPath) then .error .notDirectory
        else if source = target then .ok fs
        else if isAtOrBelow target source then .error .invalidArgument
        else if isAtOrBelow source target then .error .notEmpty
        else
          match fs.replaceFault node target with
          | some e => .error e
          | none => .ok (fs.move source target)

end InDoubt.FileSystem

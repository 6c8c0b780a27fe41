import InDoubt.FileSystem.Basic
import InDoubt.Text.Split

/-!
From paths to places. A path is followed name by name through directories and symbolic links; the
number of links on the way is bounded, and so are the lengths of a path and of a name. Readings of
a path differ at its last name: `locate` follows a link there and takes a final slash to ask for a
directory, `locateToCreate` follows a link but refuses a final slash, `locateItself` follows a link
only at a final slash, and `locateEntry` never does. In all of them nothing needs to stand at the
last name, only its directory must exist.
-/

namespace InDoubt.FileSystem

def slash : UInt8 := 0x2F

/-- The name of a directory itself. -/
def dot : Bytes := [0x2E]

/-- The name of the directory above. The root is above itself. -/
def dotDot : Bytes := [0x2E, 0x2E]

/-- The longest path that the system takes, in bytes. -/
def maxPath : Nat := 4095

/-- The longest name an entry may have, in bytes. -/
def maxName : Nat := 255

/-- The most links that following one path may pass. -/
def maxLinks : Nat := 40

/-- Refuses what no path can hold. -/
def refuseNul (path : Bytes) : Except SystemError Unit :=
  if path.contains 0 then .error .nulInPath else .ok ()

/-- Refuses what is no path, whatever the tree. -/
def checkPath (path : Bytes) : Except SystemError Unit := do
  refuseNul path
  if path = [] then .error .notFound
  else if maxPath < path.length then .error .nameTooLong
  else .ok ()

/-- The names on a path. -/
def names (path : Bytes) : List Bytes := (splitOn (· = slash) path).filter (· ≠ [])

def endsInSlash (path : Bytes) : Bool := path.getLast? = some slash

/-- What a final slash counts as: an empty name, a step to the directory itself. -/
def finalSlash : Bytes := []

/-- The names on a path, and one more for a final slash. -/
def namesToDirectory (path : Bytes) : List Bytes :=
  if endsInSlash path then names path ++ [finalSlash] else names path

/-- Where a relative path met in directory `here` starts. -/
def startOf (here : Place) (path : Bytes) : Place :=
  if path.head? = some slash then [] else here

/-- What becomes of a link at the last name of a path, and of a final slash there. -/
inductive AtLast
  | follow
  | keep
  | followToCreate
  deriving DecidableEq

/-- Follows names from a directory; `atLink` takes over at a link with the names that remain. -/
def descend (fs : FileSystem) (atLink : Place → List Bytes → Except SystemError Place)
    (last : AtLast) : Place → List Bytes → Except SystemError Place
  | here, [] => .ok here
  | here, name :: rest =>
      if name = finalSlash ∨ name = dot then descend fs atLink last here rest
      else if name = dotDot then descend fs atLink last here.tail rest
      else if last = .followToCreate ∧ rest = [finalSlash] then .error .isDirectory
      else if maxName < name.length then .error .nameTooLong
      else
        match fs.node? (name :: here) with
        | some .directory => descend fs atLink last (name :: here) rest
        | some (.file _) => if rest = [] then .ok (name :: here) else .error .notDirectory
        | some (.link target) =>
            if rest = [] ∧ last = .keep then .ok (name :: here)
            else atLink (startOf here target) (namesToDirectory target ++ rest)
        | none => if rest = [] then .ok (name :: here) else .error .notFound

/-- Follows names from a directory through at most `links` links. -/
def walk (fs : FileSystem) (last : AtLast) :
    Nat → Place → List Bytes → Except SystemError Place
  | 0 => descend fs (fun _ _ => .error .tooManyLinks) last
  | links + 1 => descend fs (walk fs last links) last

/-- The place that a path leads to. -/
def locate (fs : FileSystem) (path : Bytes) : Except SystemError Place := do
  checkPath path
  walk fs .follow maxLinks [] (namesToDirectory path)

/-- The place that a path leads to, for a file that may be missing there. -/
def locateToCreate (fs : FileSystem) (path : Bytes) : Except SystemError Place := do
  checkPath path
  walk fs .followToCreate maxLinks [] (namesToDirectory path)

/-- The place of what stands at a path, be it a link. -/
def locateItself (fs : FileSystem) (path : Bytes) : Except SystemError Place := do
  checkPath path
  walk fs .keep maxLinks [] (namesToDirectory path)

/-- The place of the entry that a path names. -/
def locateEntry (fs : FileSystem) (path : Bytes) : Except SystemError Place := do
  checkPath path
  walk fs .keep maxLinks [] (names path)

/-- The directory that the last name on a path is looked up in. -/
def locateParent (fs : FileSystem) (path : Bytes) : Except SystemError Place := do
  checkPath path
  walk fs .follow maxLinks [] ((names path).dropLast ++ [dot])

/-- Whether the last name on a path is that of a directory relative to itself, or missing. -/
def endsInDots (path : Bytes) : Bool :=
  match (names path).getLast? with
  | none => true
  | some name => name = dot || name = dotDot

/-- The path above a path, without its last name. Dots at the end are no names of their own. -/
def pathAbove (path : Bytes) : Bytes :=
  let isVoid (name : Bytes) : Bool := name = [] || name = dot
  let above := ((splitOn (· = slash) path).reverse.dropWhile isVoid).tail
  [slash].intercalate (above.dropWhile isVoid).reverse

end InDoubt.FileSystem

import InDoubt.FileSystem.Resolve

/-!
Operations on files by path: reading, writing, appending, creating and unlinking. Each either
answers with the tree it leaves or fails and leaves the tree as it was. A path that is followed to
its end does not end at a link, so the case of a link there never arises.
-/

namespace InDoubt.FileSystem

/-- The inode of the file that a path leads to. -/
def inodeAt (fs : FileSystem) (path : Bytes) : Except SystemError Nat := do
  let place ← fs.locate path
  match fs.node? place with
  | some (.file inode) => .ok inode
  | some .directory => .error .isDirectory
  | some (.link _) => .error .tooManyLinks
  | none => .error .notFound

def read (fs : FileSystem) (path : Bytes) : Except SystemError Bytes :=
  (fs.inodeAt path).map fs.content

/-- Replaces the content of a file, which is created if nothing stands there. -/
def write (fs : FileSystem) (path bytes : Bytes) : Except SystemError FileSystem := do
  let place ← fs.locateToCreate path
  match fs.node? place with
  | some (.file inode) => .ok (fs.setContent inode bytes)
  | some .directory => .error .isDirectory
  | some (.link _) => .error .tooManyLinks
  | none => .ok (fs.putNewFile place bytes)

def append (fs : FileSystem) (path bytes : Bytes) : Except SystemError FileSystem :=
  (fs.inodeAt path).map fun inode => fs.appendTo inode bytes

/-- Enters a new empty file where nothing stands yet, and answers with its inode as well. -/
def createNew (fs : FileSystem) (path : Bytes) : Except SystemError (Nat × FileSystem) := do
  let place ← fs.locateEntry path
  match fs.node? place with
  | some _ => .error .alreadyExists
  | none => .ok (fs.contents.length, fs.putNewFile place [])

/-- Removes the entry of a file or a link. -/
def unlink (fs : FileSystem) (path : Bytes) : Except SystemError FileSystem := do
  let place ← fs.locateEntry path
  match fs.node? place with
  | none => .error .notFound
  | some .directory => .error .isDirectory
  | some _ => if endsInSlash path then .error .notDirectory else .ok (fs.remove place)

/-- Enters a link to `target`, which need not exist. -/
def makeLink (fs : FileSystem) (path target : Bytes) : Except SystemError FileSystem := do
  refuseNul target
  refuseNul path
  checkPath target
  let place ← fs.locateEntry path
  match fs.node? place with
  | some _ => .error .alreadyExists
  | none => if endsInSlash path then .error .notFound else .ok (fs.put place (.link target))

end InDoubt.FileSystem

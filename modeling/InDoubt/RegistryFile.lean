import InDoubt.Failure
import InDoubt.FileSystem.Directories

/-!
Registry files as they are found in a directory. The registry files of a directory are the regular
files whose names are text, in increasing order of their names; links and directories are none, and
a missing directory has none. Reading a registry file gives its locators, or says why it has none to
give: it cannot be read, it is not text, or one of its lines is not a record.
-/

namespace InDoubt

/-- The name of a directory entry, if the entry is a registry file. -/
def registryFileName? : Bytes × Node → Option String
  | (name, .file _) => Utf8.decode? name
  | _ => none

namespace FileSystem

def registryFiles (fs : FileSystem) (dir : String) : Except Failure (List String) :=
  match fs.list (Utf8.encode dir) with
  | .ok entries => .ok (sort (fun a b => a ≤ b) (entries.filterMap registryFileName?))
  | .error .notFound => .ok []
  | .error e => .error (.listFailed dir (.system e))

def readRecords (fs : FileSystem) (path : String) : Except Failure (List Locator) :=
  match fs.read (Utf8.encode path) with
  | .error e => .error (.readFailed path (.system e))
  | .ok bytes =>
      match Utf8.decode? bytes with
      | none => .error (.readFailed path .notUtf8)
      | some content =>
          match Record.parse content with
          | .error bad => .error (.malformedRecord path bad)
          | .ok locators => .ok locators

/-- Deletes a leftover file, unless the file that its path leads to is locked. -/
def unlinkUnlocked (fs : FileSystem) (path : String) : FileSystem :=
  match fs.inodeAt (Utf8.encode path) with
  | .error _ => fs
  | .ok inode =>
      if fs.isLocked inode then fs
      else
        match fs.unlink (Utf8.encode path) with
        | .ok after => after
        | .error _ => fs

end FileSystem

end InDoubt

import InDoubt.FileSystem.Error
import InDoubt.Sort
import InDoubt.Text.Utf8

/-!
A tree of directories, files and symbolic links. An entry stands at a place and does not hold the
content of a file itself: the content belongs to an inode, which an open handle keeps reaching after
its entry was renamed or removed, and to which an exclusive lock belongs. Inodes are numbered in the
order of their creation and never reused. Every place is below one root, which is also the working
directory. No two entries share an inode, nobody lacks a permission, and there is room for all that
is written.
-/

namespace InDoubt

/-- Where an entry stands: its name, then the names of its directories up to the root. -/
abbrev Place := List Bytes

inductive Node
  | directory
  | file (inode : Nat)
  | link (target : Bytes)
  deriving DecidableEq

structure FileSystem where
  entries : List (Place × Node)
  contents : List Bytes
  locked : List Nat
  deriving DecidableEq, Inhabited

namespace FileSystem

/-- The tree without entries. -/
def empty : FileSystem := ⟨[], [], []⟩

/-- What stands at a place. The root is a directory without an entry of its own. -/
def node? (fs : FileSystem) (place : Place) : Option Node :=
  if place = [] then some .directory else fs.entries.lookup place

/-- The content of an inode. -/
def content (fs : FileSystem) (inode : Nat) : Bytes := fs.contents.getD inode []

def remove (fs : FileSystem) (place : Place) : FileSystem :=
  { fs with entries := fs.entries.filter (·.1 ≠ place) }

/-- Makes `node` the only entry at a place. -/
def put (fs : FileSystem) (place : Place) (node : Node) : FileSystem :=
  { fs with entries := (place, node) :: (fs.remove place).entries }

/-- Enters a new file with a content of its own. -/
def putNewFile (fs : FileSystem) (place : Place) (bytes : Bytes) : FileSystem :=
  { fs.put place (.file fs.contents.length) with contents := fs.contents ++ [bytes] }

def setContent (fs : FileSystem) (inode : Nat) (bytes : Bytes) : FileSystem :=
  { fs with contents := fs.contents.set inode bytes }

/-- Writes at the current end of an inode. -/
def appendTo (fs : FileSystem) (inode : Nat) (bytes : Bytes) : FileSystem :=
  fs.setContent inode (fs.content inode ++ bytes)

def isLocked (fs : FileSystem) (inode : Nat) : Bool := fs.locked.contains inode

def lock (fs : FileSystem) (inode : Nat) : FileSystem := { fs with locked := inode :: fs.locked }

/-- Frees the locks of some inodes. -/
def unlock (fs : FileSystem) (inodes : List Nat) : FileSystem :=
  { fs with locked := fs.locked.filter (· ∉ inodes) }

/-- The names and nodes directly below a place, in no particular order. -/
def children (fs : FileSystem) (place : Place) : List (Bytes × Node) :=
  fs.entries.filterMap fun
    | (name :: parent, node) => if parent = place then some (name, node) else none
    | ([], _) => none

/-- The path of a place from the root. -/
def pathOf (place : Place) : Bytes := [0x2F].intercalate place.reverse

/-- All paths with what stands there, sorted by the bytes of the path. -/
def tree (fs : FileSystem) : List (Bytes × Node) :=
  sort (fun a b => a.1 ≤ b.1) (fs.entries.map fun (place, node) => (pathOf place, node))

end FileSystem

end InDoubt

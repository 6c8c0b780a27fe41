import InDoubt.Proofs.FileSystem.Opening
import InDoubt.Proofs.Writers
import Mathlib.Logic.Function.Basic

/-!
Clients of one log. A client has registries and branches, and asks for new ones and for operations
on those it has. It knows them by their positions in its own lists, and so speaks in the same way
whatever other clients get in between. The requests of several clients are served one after the
other, in any order.
-/

namespace InDoubt

/-- The registries and the branches of a client, in the order in which it got them. -/
structure Client where
  registries : List RegistryRef
  branches : List BranchRef

/-- What a client may ask for. Registries `k` and branches `j` are positions in its lists. -/
inductive Request
  | create (xid : Xid)
  | record (k : Nat) (location : Locator)
  | enlist (k : Nat) (location : Locator) (node : String)
  | bind (k : Nat) (location : Locator) (node : String)
  | release (j : Nat)
  | releaseFrom (k j : Nat)
  | mark (j : Nat)
  | doubtVia (k j : Nat)
  deriving DecidableEq

/-- A request creates registries under these identifiers only. -/
def Request.Within (own : String → Prop) : Request → Prop
  | .create xid => own xid.name
  | _ => True

instance (own : String → Prop) [DecidablePred own] : (q : Request) → Decidable (q.Within own)
  | .create xid => inferInstanceAs (Decidable (own xid.name))
  | .record _ _ | .enlist _ _ _ | .bind _ _ _ | .release _ | .releaseFrom _ _ | .mark _
  | .doubtVia _ _ => .isTrue True.intro

namespace Client

/-- The step that a client asks for, if it has what the request names. -/
def step? (c : Client) (p : ProcessRef) : Request → Option Step
  | .create xid => some (.create p xid)
  | .record k l => c.registries[k]?.map (.record · l)
  | .enlist k l node => c.registries[k]?.map (.enlist · l node)
  | .bind k l node => c.registries[k]?.map (.bind · l node)
  | .release j => c.branches[j]?.map .release
  | .releaseFrom k j => c.registries[k]?.bind fun r => c.branches[j]?.map (.releaseFrom r)
  | .mark j => c.branches[j]?.map .mark
  | .doubtVia k j => c.registries[k]?.bind fun r => c.branches[j]?.map (.doubtVia r)

/-- An answer as the client takes it: what is new is the next in its list. -/
def hear (c : Client) : Answer → Answer
  | .registry _ => .registry ⟨c.registries.length⟩
  | .branch _ => .branch ⟨c.branches.length⟩
  | answer => answer

/-- The client with what an answer brings. -/
def take (c : Client) : Answer → Client
  | .registry r => { c with registries := c.registries ++ [r] }
  | .branch b => { c with branches := c.branches ++ [b] }
  | _ => c

/-- A branch of a client: where it lives, and to which registry of the client it belongs. -/
def binding (c : Client) (w : World) (b : BranchRef) : Locator × String × Nat :=
  ((w.branch b).location, (w.branch b).node, c.registries.idxOf (w.branch b).registry)

def bindings (c : Client) (w : World) : List (Locator × String × Nat) :=
  c.branches.map (c.binding w)

/-- The branches of a client that a process lists as in doubt. -/
def inDoubt (c : Client) (w : World) (p : ProcessRef) : List Nat :=
  ((w.process p).inDoubt.filter (· ∈ c.branches)).map c.branches.idxOf

/-- What a client has is there, in the directory of a process, under identifiers of its own. -/
structure Owns (c : Client) (w : World) (p : ProcessRef) (own : String → Prop) : Prop where
  registries : c.registries.Nodup
  registry : ∀ {r}, r ∈ c.registries → r.index < w.registries.length ∧ (w.registry r).owner = p ∧
    own (w.registry r).id ∧ (w.registry r).path = joinPath (w.process p).dir (w.registry r).id
  branches : c.branches.Nodup
  branch : ∀ {b}, b ∈ c.branches →
    b.index < w.branches.length ∧ (w.branch b).registry ∈ c.registries

instance (c : Client) (w : World) (p : ProcessRef) (own : String → Prop) [DecidablePred own] :
    Decidable (c.Owns w p own) :=
  decidable_of_iff (c.registries.Nodup ∧ (∀ r ∈ c.registries, r.index < w.registries.length ∧
      (w.registry r).owner = p ∧ own (w.registry r).id ∧
      (w.registry r).path = joinPath (w.process p).dir (w.registry r).id) ∧
      c.branches.Nodup ∧
      ∀ b ∈ c.branches, b.index < w.branches.length ∧ (w.branch b).registry ∈ c.registries)
    ⟨fun ⟨once, registry, once', branch⟩ => ⟨once, registry _, once', branch _⟩,
      fun h => ⟨h.registries, fun _ => h.registry, h.branches, fun _ => h.branch⟩⟩

end Client

/-- What can be told of a registry; of its open file, the content and whether it is locked. -/
structure Look where
  id : String
  path : String
  live : Bool
  count : Nat
  file : Option (Bytes × Bool)
  deriving DecidableEq

def World.look (w : World) (r : RegistryRef) : Look :=
  let g := w.registry r
  ⟨g.id, g.path, g.isLive, g.count,
    g.handle?.map fun inode => (w.files.content inode, w.files.isLocked inode)⟩

/-- What can be told of an entry. -/
inductive Sight
  | directory
  | file (bytes : Bytes) (locked : Bool)
  | link (target : Bytes)
  deriving DecidableEq

namespace FileSystem

def sight (fs : FileSystem) (place : Place) : Option Sight :=
  (fs.node? place).map fun
    | .directory => .directory
    | .file inode => .file (fs.content inode) (fs.isLocked inode)
    | .link target => .link target

/-- Some part of a tree without these entries has a directory at the end of its path. -/
def OpensWithout (fs : FileSystem) (dir : String) (gone : Place → Prop) : Prop :=
  ∃ part : FileSystem, part.entries ⊆ fs.entries ∧ (∀ entry ∈ part.entries, ¬gone entry.1) ∧
    ∃ top, part.Opens dir top

/-- One of these paths names a link, which stands there. -/
def NamesLink (fs : FileSystem) (paths : String → Prop) (place : Place) : Prop :=
  ∃ path target, paths path ∧ fs.locateEntry (Utf8.encode path) = .ok place ∧
    fs.node? place = some (.link target)

/-- The tree in which a directory has been made, as far as it can be. -/
def withDirectory (fs : FileSystem) (dir : String) : FileSystem :=
  (fs.makeDirectories (Utf8.encode dir)).2

/-- Whether a directory has been made before does not show, neither when it is made nor when a file
with one of these paths is unlinked, and once it has been made its path does not go through a link
that one of these paths names. -/
structure Steady (fs : FileSystem) (dir : String) (paths : String → Prop) : Prop where
  making : ((fs.withDirectory dir).makeDirectories (Utf8.encode dir)).1 =
    (fs.makeDirectories (Utf8.encode dir)).1
  unlinking : ∀ {path}, paths path →
    ((fs.withDirectory dir).unlink (Utf8.encode path)).map (fun _ => ()) =
      (fs.unlink (Utf8.encode path)).map fun _ => ()
  opening : (fs.makeDirectories (Utf8.encode dir)).1 = .ok () →
    (fs.withDirectory dir).OpensWithout dir ((fs.withDirectory dir).NamesLink paths)

end FileSystem

variable {ι : Type}

/-- Some clients, and the world with the log that they use. -/
structure Session (ι : Type) where
  clients : ι → Client
  world : World

/-- The requests of one client, or the answers to it. -/
def sharePart {α : Type} [DecidableEq ι] (i : ι) (all : List (ι × α)) : List α :=
  (all.filter (·.1 = i)).map Prod.snd

namespace Session

variable [DecidableEq ι]

/-- Serves one request. Nothing happens if the client does not have what it names. -/
def serve (s : Session ι) (p : ProcessRef) (i : ι) (q : Request) : Option Answer × Session ι :=
  match (s.clients i).step? p q with
  | none => (none, s)
  | some step =>
      let (answer, world) := s.world.step step
      (some ((s.clients i).hear answer),
        ⟨Function.update s.clients i ((s.clients i).take answer), world⟩)

/-- Serves the requests of several clients in the given order. -/
def serveAll (p : ProcessRef) : List (ι × Request) → Session ι →
    List (ι × Option Answer) × Session ι
  | [], s => ([], s)
  | (i, q) :: rest, s =>
      let (answer, after) := s.serve p i q
      let (answers, last) := serveAll p rest after
      ((i, answer) :: answers, last)

/-- Two sessions that have started alike are in the same state: the files, what the log owns, all
registries with their files, the branches, and which of those of each client are in doubt. -/
structure Agrees (start : Session ι) (p : ProcessRef) (s t : Session ι) : Prop where
  files : ∀ place, s.world.files.sight place = t.world.files.sight place
  openIds : ∀ id, id ∈ (s.world.process p).openIds ↔ id ∈ (t.world.process p).openIds
  registries : ∀ i, (s.clients i).registries.map s.world.look =
    (t.clients i).registries.map t.world.look
  others : ∀ {r}, r.index < start.world.registries.length →
    (∀ i, r ∉ (start.clients i).registries) → s.world.look r = t.world.look r
  branches : ∀ i, (s.clients i).bindings s.world = (t.clients i).bindings t.world
  inDoubt : ∀ i, (s.clients i).inDoubt s.world p = (t.clients i).inDoubt t.world p

end Session

end InDoubt

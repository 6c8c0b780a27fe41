import InDoubt.Proofs.Clients

/-!
What a log is to one of its clients. A face shows the registries of the client, its branches, which
of its identifiers are owned, what stands at their places and what the files hold, without any
reference or inode that depends on what others do. It answers every request of that client, from
what it shows and from what is settled at the start: the outcome of making the directory and of
looking up a name in it.
-/

namespace InDoubt

/-- A file, as a client tells it from others: it was there at the start, or it was made for one of
the registries of the client. -/
inductive FileRef
  | old (inode : Nat)
  | own (k : Nat)
  deriving DecidableEq

/-- What stands at the place of an identifier. -/
inductive Spot
  | directory
  | file (file : FileRef)
  | link (target : Bytes)

/-- A registry, as its client sees it. -/
structure Ledger where
  id : String
  live : Bool
  file : Option FileRef
  count : Nat

structure Face where
  registries : List Ledger
  branches : List (Locator × String × Nat)
  owned : String → Bool
  spots : String → Option Spot
  contents : FileRef → Bytes
  inDoubt : List Nat
  /-- Whether a request of this client has had the directory made. -/
  made : Bool

/-- What is settled before any request is served: the log, the clients and the world as they are,
which identifiers each client may use, and the place of the directory if it can be made. -/
structure Stage (ι : Type) where
  process : ProcessRef
  start : Session ι
  own : ι → String → Prop
  top : Place

variable {ι : Type}

namespace Stage

variable (g : Stage ι)

/-- The directory of the log. -/
def dir : String := (g.start.world.process g.process).dir

/-- The tree at the start. -/
def bare : FileSystem := g.start.world.files

/-- The tree with the directory made. -/
def ready : FileSystem := g.bare.withDirectory g.dir

/-- The outcome of making the directory. -/
def making : Except SystemError Unit := (g.bare.makeDirectories (Utf8.encode g.dir)).1

/-- The path of an identifier. -/
def path (id : String) : String := joinPath g.dir id

/-- The outcome of looking up an identifier once the directory has been made. -/
def entry (id : String) : Except SystemError Place :=
  g.ready.locateEntry (Utf8.encode (g.path id))

/-- Where the file of an identifier stands. -/
def place (id : String) : Place := Utf8.encode id :: g.top

/-- The number of inodes at the start. -/
def inodes : Nat := g.bare.contents.length

/-- The file that the registry at a position holds open. -/
def fileRef (k inode : Nat) : FileRef := if inode < g.inodes then .old inode else .own k

end Stage

namespace Face

variable (f : Face) (g : Stage ι)

/-- The face with a new registry, whose file is empty. -/
def enter (id : String) : Face :=
  let file := FileRef.own f.registries.length
  { f with
    registries := f.registries ++ [⟨id, true, some file, 0⟩]
    owned := Function.update f.owned id true
    spots := Function.update f.spots id (some (.file file))
    contents := Function.update f.contents file [] }

/-- The outcome of making a new file under an identifier. -/
def making (id : String) : Except SystemError Unit := do
  g.making
  let _ ← g.entry id
  match f.spots id with
  | some _ => .error .alreadyExists
  | none => .ok ()

def create (xid : Xid) : Except Failure Unit × Face :=
  if f.owned xid.name then (.error (.createFailed (g.path xid.name) .alreadyOpen), f)
  else
    let ready := { f with made := true }
    match f.making g xid.name with
    | .error e => (.error (.createFailed (g.path xid.name) (.system e)), ready)
    | .ok () => (.ok (), ready.enter xid.name)

/-- The face with the registry at a position changed. -/
def modify (k : Nat) (change : Ledger → Ledger) : Face :=
  { f with registries := f.registries.modify k change }

/-- The face with more bytes at the end of a file. -/
def append (file : FileRef) (bytes : Bytes) : Face :=
  { f with contents := Function.update f.contents file (f.contents file ++ bytes) }

def record (k : Nat) (l : Ledger) (location : Locator) : Except Failure Unit × Face :=
  let counted := f.modify k fun l => { l with count := l.count + 1 }
  match l.live, l.file with
  | false, _ => (.ok (), counted)
  | true, none => (.error (.appendFailed location (g.path l.id) .fileClosed), counted)
  | true, some file => (.ok (), counted.append file (Utf8.encode (Record.encode location)))

def bind (k : Nat) (location : Locator) (node : String) : Face :=
  { f with branches := f.branches ++ [(location, node, k)] }

/-- The outcome of unlinking what stands under an identifier. -/
def unlinking (id : String) : Except SystemError Unit := do
  let _ ← g.entry id
  match f.spots id with
  | none => .error .notFound
  | some .directory => .error .isDirectory
  | some _ => .ok ()

/-- The identifier is owned no longer. -/
def free (id : String) : Face := { f with owned := Function.update f.owned id false }

/-- Nothing stands at the place of an identifier. -/
def unlink (id : String) : Face := { f with spots := Function.update f.spots id none }

/-- How a branch is named in messages. -/
def label (location : Locator) (node id : String) : String :=
  "SubordinateResource \x7b location: " ++ location.text ++ ", node: " ++ node ++
    ", registry: " ++ id ++ " \x7d"

def settle (j : Nat) : Face := { f with inDoubt := f.inDoubt.filter (· ≠ j) }

def doubt (j : Nat) : Face := { f with inDoubt := f.inDoubt ++ [j] }

/-- The registry at a position with one branch less. The last one closes and deletes its file. -/
def discount (k : Nat) (l : Ledger) (label : String) : Except Failure Unit × Face :=
  if l.count = 1 then
    let closed := f.modify k fun l => { l with file := none, count := 0 }
    match f.unlinking g l.id with
    | .ok () => (.ok (), (closed.free l.id).unlink l.id)
    | .error .notFound => (.ok (), closed.free l.id)
    | .error e => (.error (.deleteFailed (g.path l.id) label (.system e)), closed)
  else (.ok (), f.modify k fun l => { l with count := l.count - 1 })

/-- How the branch at a position is named in messages. -/
def labelOf (branch : Locator × String × Nat) : String :=
  label branch.1 branch.2.1 ((f.registries[branch.2.2]?.map Ledger.id).getD "")

def releaseFrom (k : Nat) (l : Ledger) (j : Nat) (branch : Locator × String × Nat) :
    Except Failure Unit × Face :=
  (f.discount g k l (f.labelOf branch)).map id (·.settle j)

/-- The answer to a request, if the client has what it names. -/
def serve : Request → Option Answer × Face
  | .create xid =>
      (f.create g xid).map (some ∘ .of fun () => .registry ⟨f.registries.length⟩) id
  | .record k location =>
      match f.registries[k]? with
      | none => (none, f)
      | some l => (f.record g k l location).map (some ∘ .of fun () => .done) id
  | .enlist k location node =>
      match f.registries[k]? with
      | none => (none, f)
      | some l =>
          match f.record g k l location with
          | (.error e, after) => (some (.failed e), after)
          | (.ok (), after) =>
              (some (.branch ⟨f.branches.length⟩), after.bind k location node)
  | .bind k location node =>
      match f.registries[k]? with
      | none => (none, f)
      | some _ => (some (.branch ⟨f.branches.length⟩), f.bind k location node)
  | .release j =>
      match f.branches[j]? with
      | none => (none, f)
      | some branch =>
          match f.registries[branch.2.2]? with
          | none => (none, f)
          | some l =>
              (f.releaseFrom g branch.2.2 l j branch).map (some ∘ .of fun () => .done) id
  | .releaseFrom k j =>
      match f.registries[k]?, f.branches[j]? with
      | some l, some branch =>
          (f.releaseFrom g k l j branch).map (some ∘ .of fun () => .done) id
      | _, _ => (none, f)
  | .mark j =>
      match f.branches[j]? with
      | none => (none, f)
      | some _ => (some .done, f.doubt j)
  | .doubtVia k j =>
      match f.registries[k]?, f.branches[j]? with
      | some _, some _ => (some .done, f.doubt j)
      | _, _ => (none, f)

/-- The answers to several requests. -/
def serveAll (g : Stage ι) : List Request → Face → List (Option Answer) × Face
  | [], f => ([], f)
  | q :: rest, f =>
      let (answer, after) := f.serve g q
      let (answers, last) := serveAll g rest after
      (answer :: answers, last)

variable {f g} {id : String}

theorem making_eq_ok_iff : f.making g id = .ok () ↔
    g.making = .ok () ∧ (∃ place, g.entry id = .ok place) ∧ f.spots id = none := by
  simp only [making, bind_eq_ok_iff, exists_and_right]
  refine and_congr ⟨fun ⟨_, e⟩ => e, fun e => ⟨(), e⟩⟩ (and_congr_right fun _ => ?_)
  cases f.spots id <;> simp

theorem unlinking_eq_ok_iff : f.unlinking g id = .ok () ↔
    (∃ place, g.entry id = .ok place) ∧ f.spots id ≠ none ∧ f.spots id ≠ some .directory := by
  simp only [unlinking, bind_eq_ok_iff, exists_and_right]
  refine and_congr_right fun _ => ?_
  cases f.spots id with
  | none => simp
  | some spot => cases spot <;> simp

variable {k n : Nat} {l : Ledger}

@[simp] theorem spots_record (location : Locator) :
    (f.record g k l location).2.spots = f.spots := by
  unfold record
  split <;> rfl

@[simp] theorem made_record (location : Locator) :
    (f.record g k l location).2.made = f.made := by
  unfold record
  split <;> rfl

/-- A release empties a place if it is the last one and unlinks what stands there. -/
theorem spots_releaseFrom (branch : Locator × String × Nat) :
    (f.releaseFrom g k l n branch).2.spots =
      if l.count = 1 ∧ f.unlinking g l.id = .ok () then Function.update f.spots l.id none
      else f.spots := by
  simp only [releaseFrom, discount, Prod.map_snd, settle]
  by_cases one : l.count = 1
  · simp only [one, if_true, true_and]
    cases outcome : f.unlinking g l.id with
    | ok => rfl
    | error e => cases e <;> rfl
  · simp only [one, if_false, false_and]
    rfl

@[simp] theorem made_releaseFrom (branch : Locator × String × Nat) :
    (f.releaseFrom g k l n branch).2.made = f.made := by
  simp only [releaseFrom, discount, Prod.map_snd, settle]
  split
  · split <;> rfl
  · rfl

end Face

end InDoubt

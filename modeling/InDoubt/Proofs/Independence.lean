import InDoubt.Proofs.Scenes

/-!
Independent clients of one log. However the requests of clients with identifiers of their own are
interleaved, each is answered in the same way, and the files, what the log owns, the counts, the
locks and what is in doubt end up the same (`Session.independent`). This needs that nobody can tell
whether the directory has been made before. It can be told if its path goes through a link that has
been put in the place of a registry's file, and if its path leaves a missing directory again, since
what comes after that is there only once the missing one has been made (`Session.not_independent`).
-/

namespace InDoubt

open FileSystem World

variable {ι : Type} {g : Stage ι} {s t : Session ι} {faces : ι → Face} {i j : ι}
  {k : Nat} {r : RegistryRef} {inode : Nat} {id : String} {place : Place}

/-- The face of a client before any request is served. -/
def Stage.face (g : Stage ι) (i : ι) : Face where
  registries := (g.start.clients i).registries.mapIdx fun k r =>
    g.ledger k (g.start.world.registry r)
  branches := (g.start.clients i).bindings g.start.world
  owned id := decide (id ∈ (g.start.world.process g.process).openIds)
  spots := g.spots
  contents
    | .old inode => g.bare.content inode
    | .own _ => []
  inDoubt := (g.start.clients i).inDoubt g.start.world g.process
  made := false

namespace Scene

theorem start (fair : g.Fair) : Scene g g.start g.face where
  grounded := fair.grounded
  portrays i := {
    owns := fair.owns i
    first := List.prefix_refl _
    later := .inl
    ledgers := fun _ => List.getElem?_mapIdx
    bindings := rfl
    owned := fun _ => by simp [Stage.face]
    inDoubt := rfl
    opened := fun {k r inode} _ handle => by
      rw [Stage.fileRef_old (fair.grounded.writers.numbered handle)]
      rfl
    held := fun _ _ => rfl }
  strays := ⟨fun _ _ => rfl, fun _ => Iff.rfl, fun _ _ => rfl⟩
  bare unmade := ⟨fun e => unmade (.inl e), rfl, fun _ => rfl, fun _ => rfl⟩
  terrain made := by
    refine .start fair (Or.resolve_right made ?_).symm (fun _ => rfl) fun _ => rfl
    rintro ⟨i, ready⟩
    cases ready

end Scene

theorem sharePart_cons {α : Type} [DecidableEq ι] (i j : ι) (a : α) (rest : List (ι × α)) :
    sharePart i ((j, a) :: rest) = if j = i then a :: sharePart i rest else sharePart i rest := by
  unfold sharePart
  by_cases self : j = i <;> simp [self]

theorem mem_sharePart_iff {α : Type} [DecidableEq ι] {a : α} {all : List (ι × α)} :
    a ∈ sharePart i all ↔ (i, a) ∈ all := by
  simp [sharePart]

/-- Every client gets the answers that its face gives to its requests alone. -/
theorem Scene.serveAll [DecidableEq ι] (h : Scene g s faces) (fair : g.Fair)
    (schedule : List (ι × Request))
    (mine : ∀ asked ∈ schedule, asked.2.Within (g.own asked.1)) :
    (∀ i, sharePart i (s.serveAll g.process schedule).1 =
        ((faces i).serveAll g (sharePart i schedule)).1) ∧
      Scene g (s.serveAll g.process schedule).2 fun i =>
        ((faces i).serveAll g (sharePart i schedule)).2 := by
  induction schedule generalizing s faces with
  | nil => exact ⟨fun _ => rfl, h⟩
  | cons first rest ih =>
      obtain ⟨i, q⟩ := first
      obtain ⟨answer, next⟩ := h.serve fair (mine (i, q) List.mem_cons_self)
      obtain ⟨answers, last⟩ := ih next fun asked mem => mine asked (List.mem_cons_of_mem _ mem)
      let after := ((faces i).serve g q).2
      -- A face goes on by one request if it is the client's own, and stays as it is otherwise.
      have faced (j : ι) : (faces j).serveAll g (sharePart j ((i, q) :: rest)) =
          (if i = j then
            (s.serve g.process i q).1 :: sharePart j
              ((s.serve g.process i q).2.serveAll g.process rest).1
          else sharePart j ((s.serve g.process i q).2.serveAll g.process rest).1,
          ((Function.update faces i after j).serveAll g (sharePart j rest)).2) := by
        rw [sharePart_cons, answers, answer]
        by_cases self : i = j
        · subst self
          simp only [if_true, Function.update_self]
          rfl
        · simp only [self, if_false, Function.update_of_ne (Ne.symm self)]
      simp only [faced]
      refine ⟨fun j => ?_, last⟩
      exact sharePart_cons ..

/-! Sessions with the same faces. -/

namespace Scene

variable {r' : RegistryRef} (h : Scene g s faces) (h' : Scene g t faces)
include h h'

/-- Registries at the same position of a client look the same. -/
theorem look_eq (kth : (s.clients i).registries[k]? = some r)
    (kth' : (t.clients i).registries[k]? = some r') : s.world.look r = t.world.look r' := by
  have owned := (h.portrays i).owns.registry (List.mem_of_getElem? kth)
  have owned' := (h'.portrays i).owns.registry (List.mem_of_getElem? kth')
  have same := (h.portrays i).ledger? kth
  rw [(h'.portrays i).ledger? kth', Option.some.injEq, Stage.ledger, Stage.ledger,
    Ledger.mk.injEq] at same
  obtain ⟨id, live, file, count⟩ := same
  have path : (s.world.registry r).path = (t.world.registry r').path := by
    rw [owned.2.2.2, owned'.2.2.2, id, h.grounded.dir, h'.grounded.dir]
  simp only [look, ← id, ← live, ← count, path, Look.mk.injEq, true_and]
  cases handle : (s.world.registry r).handle? with
  | none =>
      rw [handle, Option.map_none, Option.map_eq_none_iff] at file
      rw [file]
      rfl
  | some inode =>
      rw [handle, Option.map_some, Option.map_eq_some_iff] at file
      obtain ⟨inode', handle', ref⟩ := file
      have content : s.world.files.content inode = t.world.files.content inode' := by
        rw [← (h.portrays i).opened kth handle, ← (h'.portrays i).opened kth' handle', ref]
      have locked := (h.grounded.writers.locked inode).mpr ⟨r, handle⟩
      have locked' := (h'.grounded.writers.locked inode').mpr ⟨r', handle'⟩
      simp only [handle', Option.map_some, content, locked, locked']

/-- A file that was there at the start is held open by the same registry. -/
theorem handle?_old (lt : inode < g.inodes) (handle : (s.world.registry r).handle? = some inode) :
    (t.world.registry r).handle? = some inode := by
  have before := h.grounded.heirs handle lt
  by_cases mine : ∃ i, r ∈ (g.start.clients i).registries
  · obtain ⟨i, mem⟩ := mine
    obtain ⟨k, stands⟩ := List.getElem?_of_mem mem
    have there := (h.portrays i).getElem?_of_start stands
    have there' := (h'.portrays i).getElem?_of_start stands
    have same := (h.portrays i).ledger? there
    rw [(h'.portrays i).ledger? there', Option.some.injEq] at same
    have file : (t.world.registry r).handle?.map (g.fileRef k) = some (g.fileRef k inode) :=
      (congrArg Ledger.file same).trans (congrArg (Option.map (g.fileRef k)) handle)
    obtain ⟨inode', handle', ref⟩ := Option.map_eq_some_iff.mp file
    rw [Stage.fileRef_old lt, Stage.fileRef] at ref
    split at ref <;> cases ref
    exact handle'
  · have there : r.index < g.start.world.registries.length := by
      by_contra past
      rw [registry_of_le (Nat.le_of_not_lt past)] at before
      cases before
    rw [h'.strays.registry there (not_exists.mp mine), before]

/-- A file that was there at the start has the same content and is as locked. -/
theorem old_alike (lt : inode < g.inodes) :
    s.world.files.content inode = t.world.files.content inode ∧
      s.world.files.isLocked inode = t.world.files.isLocked inode := by
  constructor
  · by_cases held : ∃ i, g.Held i inode
    · obtain ⟨i, held⟩ := held
      rw [← (h.portrays i).held lt held, ← (h'.portrays i).held lt held]
    · rw [h.strays.content lt (not_exists.mp held), h'.strays.content lt (not_exists.mp held)]
  · rw [Bool.eq_iff_iff, h.grounded.writers.locked, h'.grounded.writers.locked]
    exact exists_congr fun r => ⟨h.handle?_old h' lt, h'.handle?_old h lt⟩

/-- An entry that was there at the start is seen alike. -/
theorem sight_eq_of_old {node : Option Node} (stands : s.world.files.node? place = node)
    (stands' : t.world.files.node? place = node)
    (old : ∀ {inode}, node = some (.file inode) → inode < g.inodes) :
    s.world.files.sight place = t.world.files.sight place := by
  rw [sight, sight, stands, stands']
  cases node with
  | none => rfl
  | some node =>
      cases node with
      | directory | link => rfl
      | file inode =>
          obtain ⟨content, locked⟩ := h.old_alike h' (old rfl)
          simp only [Option.map_some, content, locked]

theorem sight_eq (fair : g.Fair) (place : Place) :
    s.world.files.sight place = t.world.files.sight place := by
  by_cases made : g.Made faces
  · by_cases used : ∃ i id, g.own i id ∧ place = g.place id
    · obtain ⟨i, id, mine, rfl⟩ := used
      have shown := (h.terrain made).shows mine
      have shown' := (h'.terrain made).shows mine
      generalize stands : s.world.files.node? (g.place id) = node at shown
      generalize stands' : t.world.files.node? (g.place id) = node' at shown'
      generalize (faces i).spots id = spot at shown shown'
      cases shown with
      | none | directory | link =>
          cases shown'
          exact h.sight_eq_of_old h' stands stands' (by simp)
      | old lt =>
          cases shown'
          refine h.sight_eq_of_old h' stands stands' ?_
          rintro _ ⟨⟩
          exact lt
      | own mem _ handle =>
          cases shown' with
          | own mem' _ handle' =>
              have file := congrArg Look.file (h.look_eq h' mem mem')
              simp only [look, handle, handle', Option.map_some, Option.some.injEq,
                Prod.mk.injEq] at file
              simp only [sight, stands, stands', Option.map_some, file.1, file.2]
    · have other : ∀ i id, g.own i id → place ≠ g.place id := fun i id mine e =>
        used ⟨i, id, mine, e⟩
      refine h.sight_eq_of_old h' ((h.terrain made).elsewhere other)
        ((h'.terrain made).elsewhere other) fun stands => ?_
      have allocated := fair.sound.lt stands
      rwa [Stage.contents_ready] at allocated
  · refine h.sight_eq_of_old h' (node?_congr (h.bare made).entries place)
      (node?_congr (h'.bare made).entries place) fun stands => ?_
    exact fair.grounded.orderly.sound.lt stands

/-- Sessions in which all clients have the same faces agree. -/
theorem agrees (fair : g.Fair) : Session.Agrees g.start g.process s t where
  files := h.sight_eq h' fair
  openIds id := by
    by_cases mine : ∃ i, g.own i id
    · obtain ⟨i, mine⟩ := mine
      rw [← (h.portrays i).owned mine, (h'.portrays i).owned mine]
    · rw [h.strays.openIds (not_exists.mp mine), h'.strays.openIds (not_exists.mp mine)]
  registries i := by
    have length := (h.portrays i).length_registries.symm.trans (h'.portrays i).length_registries
    refine List.ext_getElem (by simpa using length) fun k lt lt' => ?_
    rw [List.getElem_map, List.getElem_map]
    exact h.look_eq h' (List.getElem?_eq_getElem _) (List.getElem?_eq_getElem _)
  others {r} lt nobody := by
    have same := (h.strays.registry lt nobody).trans (h'.strays.registry lt nobody).symm
    simp only [look, same]
    cases handle : (t.world.registry r).handle? with
    | none => rfl
    | some inode =>
        have before := handle
        rw [h'.strays.registry lt nobody] at before
        have old := fair.grounded.writers.numbered before
        obtain ⟨content, locked⟩ := h.old_alike h' old
        simp only [Option.map_some, content, locked]
  branches i := (h.portrays i).bindings.symm.trans (h'.portrays i).bindings
  inDoubt i := (h.portrays i).inDoubt.symm.trans (h'.portrays i).inDoubt

end Scene

/-- If the directory can be made, its path leads to it from then on. -/
theorem FileSystem.Steady.opens {fs : FileSystem} {dir : String} {paths : String → Prop}
    (steady : fs.Steady dir paths) (sound : fs.Sound) :
    ∃ top, (fs.makeDirectories (Utf8.encode dir)).1 = .ok () →
      (fs.withDirectory dir).Opens dir top := by
  cases made : (fs.makeDirectories (Utf8.encode dir)).1 with
  | error e => exact ⟨[], by simp⟩
  | ok =>
      obtain ⟨part, within, -, top, opens⟩ := steady.opening made
      refine ⟨top, fun _ => opens.grow fun {place node} stands _ => ?_⟩
      by_cases root : place = []
      · subst root
        exact stands
      · exact (sound.makeDirectories _).node? (within (mem_entries_of_node? root stands))

/-- A directory that can be made is steady, if it is there and none of the paths names a link, or if
there are no paths. -/
theorem FileSystem.Steady.of_ok {fs : FileSystem} {dir : String} {paths : String → Prop}
    (named : Utf8.encode dir ≠ []) (made : (fs.makeDirectories (Utf8.encode dir)).1 = .ok ())
    (plain : fs.withDirectory dir = fs ∧ (∀ place, ¬fs.NamesLink paths place) ∨
      ∀ path, ¬paths path) : fs.Steady dir paths := by
  obtain ⟨checked, top, opens⟩ := Opens.of_makeDirectories named (Prod.ext made rfl)
  refine ⟨?_, fun {path} used => ?_, fun _ => ⟨_, fun _ => id, fun entry _ gone => ?_, top, opens⟩⟩
  · exact (congrArg Prod.fst (opens.makeDirectories (.inl checked))).trans made.symm
  · rcases plain with ⟨there, -⟩ | pathless
    · rw [there]
    · exact absurd used (pathless path)
  · rcases plain with ⟨there, linkless⟩ | pathless
    · exact linkless entry.1 (there ▸ gone)
    · obtain ⟨path, _, used, -⟩ := gone
      exact pathless path used

/-- Another transaction, for runs that are written out. -/
def Xid.other : Xid := { Xid.sample with gtrid := [0x62], gtrid_le := by decide }

namespace Session

/-- At some point of a run, a log that is in use and clients with identifiers of their own. -/
structure Disjoint (start : Session ι) (p : ProcessRef) (own : ι → String → Prop) : Prop where
  reached : ∃ changes steps, Along Admits steps (ofFiles (FileSystem.empty.applyAll changes)) ∧
    start.world = after steps (ofFiles (FileSystem.empty.applyAll changes))
  running : start.world.Runs p
  owns : ∀ i, (start.clients i).Owns start.world p (own i)
  apart : ∀ {i j id}, own i id → own j id → i = j

variable [DecidableEq ι]

/-- The order in which the requests of different clients are served makes no difference, as long as
each client's own stay in order: every request is answered alike, and the sessions end in the same
state. -/
def Indifferent (start : Session ι) (p : ProcessRef) (own : ι → String → Prop) : Prop :=
  ∀ first second : List (ι × Request), (∀ asked ∈ first, asked.2.Within (own asked.1)) →
    (∀ i, sharePart i first = sharePart i second) →
    (∀ i, sharePart i (start.serveAll p first).1 = sharePart i (start.serveAll p second).1) ∧
      Agrees start p (start.serveAll p first).2 (start.serveAll p second).2

/-- The requests of clients with identifiers of their own may be interleaved in any order, if it
does not show whether the directory of the log has been made before. -/
theorem independent (start : Session ι) (p : ProcessRef) (own : ι → String → Prop)
    (disjoint : start.Disjoint p own)
    (steady : start.world.files.Steady (start.world.process p).dir fun path =>
      ∃ i, ∃ r ∈ (start.clients i).registries, (start.world.registry r).path = path) :
    start.Indifferent p own := by
  obtain ⟨changes, steps, admitted, reached⟩ := disjoint.reached
  have grounded (top : Place) : Grounded ⟨p, start, own, top⟩ start.world := {
    orderly := reached ▸ (Orderly.ofFiles changes).after steps
    writers := reached ▸ (authored_along admitted).sole
    listed := reached ▸ listed_along admitted
    extended := .refl _
    running := disjoint.running
    dir := rfl
    numbered := Nat.le_refl _
    heirs := fun stands _ => stands }
  obtain ⟨top, opens⟩ := steady.opens (grounded []).orderly.sound
  let g : Stage ι := ⟨p, start, own, top⟩
  have fair : g.Fair := ⟨grounded top, disjoint.owns, disjoint.apart, steady, opens⟩
  intro first second mine same
  have mine' : ∀ asked ∈ second, asked.2.Within (own asked.1) := by
    rintro ⟨i, q⟩ mem
    rw [← mem_sharePart_iff, ← same, mem_sharePart_iff] at mem
    exact mine (i, q) mem
  obtain ⟨answers, last⟩ := (Scene.start fair).serveAll fair first mine
  obtain ⟨answers', last'⟩ := (Scene.start fair).serveAll fair second mine'
  refine ⟨fun i => ?_, ?_⟩
  · calc sharePart i (start.serveAll p first).1
      _ = ((g.face i).serveAll g (sharePart i first)).1 := answers i
      _ = ((g.face i).serveAll g (sharePart i second)).1 := by rw [same]
      _ = sharePart i (start.serveAll p second).1 := (answers' i).symm
  · simp only [same] at last
    exact last.agrees last' fair

/-! Two clients, for sessions that are written out. -/

/-- Each of the two may use one identifier. -/
def pairOwn (i : Bool) (id : String) : Prop := id = (cond i Xid.other .sample).name

instance (i : Bool) : DecidablePred (pairOwn i) := fun _ => inferInstanceAs (Decidable (_ = _))

/-- The first client is as given, and the second has nothing. -/
def pair (client : Client) (changes : List FileStep) (steps : List Step) : Session Bool :=
  ⟨fun i => cond i ⟨[], []⟩ client, after steps (ofFiles (FileSystem.empty.applyAll changes))⟩

theorem disjoint_pair {client : Client} {changes : List FileStep} {steps : List Step}
    (admitted : Along Admits steps (ofFiles (FileSystem.empty.applyAll changes)))
    (running : (pair client changes steps).world.Runs ⟨0⟩)
    (owns : client.Owns (pair client changes steps).world ⟨0⟩ (pairOwn false)) :
    (pair client changes steps).Disjoint ⟨0⟩ pairOwn where
  reached := ⟨changes, steps, admitted, rfl⟩
  running := running
  owns i := by
    cases i with
    | false => exact owns
    | true =>
        exact ⟨List.nodup_nil, fun mem => absurd mem List.not_mem_nil, List.nodup_nil,
          fun mem => absurd mem List.not_mem_nil⟩
  apart {i j id} mine mine' := by
    have differ : Xid.other.name ≠ Xid.sample.name := by decide +kernel
    cases i <;> cases j <;> first | rfl | skip
    · exact absurd (mine'.symm.trans mine) differ
    · exact absurd (mine.symm.trans mine') differ

/-- The first client has a registry with one branch. -/
def shared : Session Bool :=
  pair ⟨[⟨0⟩], [⟨0⟩]⟩ [] [.openLog {} "n", .create ⟨0⟩ .sample, .enlist ⟨0⟩ .sample "n"]

theorem independent_shared :
    let start := shared
    let dir := joinPath "." "xa-recovery"
    let turns : List (Bool × Request) := [(true, .create .other), (false, .mark 0),
      (true, .enlist 0 .sample "m"), (false, .release 0), (true, .create .other),
      (false, .create .sample), (true, .mark 0)]
    let apart : List (Bool × Request) := [(false, .mark 0), (false, .release 0),
      (false, .create .sample), (true, .create .other), (true, .enlist 0 .sample "m"),
      (true, .create .other), (true, .mark 0)]
    start.Disjoint ⟨0⟩ pairOwn ∧
      start.world.files.Steady (start.world.process ⟨0⟩).dir (fun path =>
        ∃ i, ∃ r ∈ (start.clients i).registries, (start.world.registry r).path = path) ∧
      (∀ asked ∈ turns, asked.2.Within (pairOwn asked.1)) ∧
      (∀ i, sharePart i turns = sharePart i apart) ∧
      sharePart true (start.serveAll ⟨0⟩ turns).1 = [some (.registry ⟨0⟩), some (.branch ⟨0⟩),
        some (.failed (.createFailed (joinPath dir Xid.other.name) .alreadyOpen)), some .done] ∧
      sharePart true (start.serveAll ⟨0⟩ apart).1 = sharePart true (start.serveAll ⟨0⟩ turns).1 ∧
      Agrees start ⟨0⟩ (start.serveAll ⟨0⟩ turns).2 (start.serveAll ⟨0⟩ apart).2 := by
  intro start dir turns apart
  have disjoint : start.Disjoint ⟨0⟩ pairOwn :=
    disjoint_pair (by decide +kernel) (by decide +kernel) (by decide +kernel)
  have mine : ∀ asked ∈ turns, asked.2.Within (pairOwn asked.1) := by decide +kernel
  have same : ∀ i, sharePart i turns = sharePart i apart := by decide +kernel
  have steady : start.world.files.Steady (start.world.process ⟨0⟩).dir (fun path =>
      ∃ i, ∃ r ∈ (start.clients i).registries, (start.world.registry r).path = path) := by
    refine .of_ok (by decide +kernel) (by decide +kernel) (.inl ⟨by decide +kernel, ?_⟩)
    rintro place ⟨path, target, ⟨i, r, mem, rfl⟩, located, placed⟩
    obtain rfl : r = ⟨0⟩ := by
      cases i with
      | false => exact List.mem_singleton.mp mem
      | true => cases mem
    have stands : start.world.files.locateEntry (Utf8.encode (start.world.registry ⟨0⟩).path) =
        .ok [Utf8.encode Xid.sample.name, Utf8.encode "xa-recovery"] := by decide +kernel
    cases stands.symm.trans located
    have file : start.world.files.node? [Utf8.encode Xid.sample.name, Utf8.encode "xa-recovery"] =
        some (.file 0) := by decide +kernel
    cases file.symm.trans placed
  obtain ⟨answers, agrees⟩ := independent start ⟨0⟩ pairOwn disjoint steady turns apart mine same
  exact ⟨disjoint, steady, mine, same, by decide +kernel, (answers true).symm, agrees⟩

/-- The path of the directory goes through a link that has been put in the place of a registry's
file. -/
def linked : Session Bool :=
  let top := "d/" ++ Xid.sample.name
  pair ⟨[⟨0⟩], [⟨0⟩]⟩ [] [.openLog ⟨top, .full⟩ "n", .create ⟨0⟩ .sample,
    .enlist ⟨0⟩ .sample "n", .outside (.removeTree (Utf8.encode "d")),
    .outside (.makeDirectories (Utf8.encode "d")),
    .outside (.link (Utf8.encode top) (Utf8.encode ".")),
    .outside (.link (Utf8.encode "d/xa-recovery") (Utf8.encode "."))]

/-- The path of the directory leaves a missing directory again and then goes through a file. -/
def blocked : Session Bool :=
  pair ⟨[], []⟩ [.write (Utf8.encode "f") []] [.openLog ⟨"x/../f", .full⟩ "n"]

/-- The path of the directory leaves a directory that has been removed since. -/
def hidden : Session Bool :=
  pair ⟨[⟨0⟩], [⟨0⟩]⟩ [] [.openLog ⟨"x/../y", .full⟩ "n", .create ⟨0⟩ .sample,
    .enlist ⟨0⟩ .sample "n", .outside (.removeTree (Utf8.encode "x"))]

/-- The order matters if the last release of one client and a creation by the other end up with
another file in one order than in the other. -/
theorem not_indifferent_of_sight_ne {start : Session Bool} (place : Place)
    (differ :
      (start.serveAll ⟨0⟩ [(false, .release 0), (true, .create .other)]).2.world.files.sight place ≠
        (start.serveAll ⟨0⟩ [(true, .create .other), (false, .release 0)]).2.world.files.sight
          place) : ¬start.Indifferent ⟨0⟩ pairOwn := by
  intro alike
  have agrees := (alike [(false, .release 0), (true, .create .other)]
    [(true, .create .other), (false, .release 0)] (by decide +kernel) (by decide +kernel)).2
  exact differ (agrees.files place)

/-- A creation ends up somewhere else once the link has been deleted; the first creation makes the
missing directory, and so the second one fails in another way; the file of a registry can be deleted
only after a creation by the other client. -/
theorem not_independent :
    (linked.Disjoint ⟨0⟩ pairOwn ∧ ¬linked.Indifferent ⟨0⟩ pairOwn) ∧
      (blocked.Disjoint ⟨0⟩ pairOwn ∧ ¬blocked.Indifferent ⟨0⟩ pairOwn) ∧
      hidden.Disjoint ⟨0⟩ pairOwn ∧ ¬hidden.Indifferent ⟨0⟩ pairOwn := by
  have elsewhere : ¬linked.Indifferent ⟨0⟩ pairOwn :=
    not_indifferent_of_sight_ne [Utf8.encode Xid.other.name, Utf8.encode "d"] (by decide +kernel)
  have creations : ¬blocked.Indifferent ⟨0⟩ pairOwn := by
    intro alike
    have answers := (alike [(false, .create .sample), (true, .create .other)]
      [(true, .create .other), (false, .create .sample)] (by decide +kernel) (by decide +kernel)).1
    exact absurd (answers true) (by decide +kernel)
  have left : ¬hidden.Indifferent ⟨0⟩ pairOwn :=
    not_indifferent_of_sight_ne
      [Utf8.encode Xid.sample.name, Utf8.encode "xa-recovery", Utf8.encode "y"] (by decide +kernel)
  exact ⟨⟨disjoint_pair (by decide +kernel) (by decide +kernel) (by decide +kernel), elsewhere⟩,
    ⟨disjoint_pair (by decide +kernel) (by decide +kernel) (by decide +kernel), creations⟩,
    disjoint_pair (by decide +kernel) (by decide +kernel) (by decide +kernel), left⟩

end Session

end InDoubt

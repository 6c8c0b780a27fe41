import InDoubt.Proofs.Terrain

/-!
A session and the faces of its clients. In a scene each face is that of its client, the directory is
as the faces show it, and what no client has is as it was at the start. Serving a request leads from
one scene to another in which only the face of that client has changed, and the answer is that of
the face (`Scene.serve`).
-/

namespace InDoubt

open FileSystem World

variable {ι : Type} {g : Stage ι} {v w : World} {s : Session ι} {faces faces' : ι → Face}
  {i j : ι} {c : Client} {f : Face} {k n : Nat} {r : RegistryRef} {b : BranchRef} {inode : Nat}
  {id : String}

/-- Some request has had the directory made, or it was there from the start. -/
def Stage.Made (g : Stage ι) (faces : ι → Face) : Prop :=
  g.ready.entries = g.bare.entries ∨ ∃ i, (faces i).made = true

theorem Stage.made_congr (same : ∀ i, (faces' i).made = (faces i).made) :
    g.Made faces' ↔ g.Made faces := by
  simp only [Made, same]

/-- What no client has is as it was at the start. -/
structure Strays (g : Stage ι) (v : World) : Prop where
  registry : ∀ {r}, r.index < g.start.world.registries.length →
    (∀ i, r ∉ (g.start.clients i).registries) → v.registry r = g.start.world.registry r
  openIds : ∀ {id}, (∀ i, ¬g.own i id) →
    (id ∈ (v.process g.process).openIds ↔ id ∈ (g.start.world.process g.process).openIds)
  content : ∀ {inode}, inode < g.inodes → (∀ i, ¬g.Held i inode) →
    v.files.content inode = g.bare.content inode

/-- What is done for a client does not touch it. -/
theorem Strays.confined (h : Strays g v) (portrays : Portrays g v i c f) (grounded : Grounded g v)
    (confined : Confined c (g.own i) g.process v w) : Strays g w where
  registry {r} lt nobody := by
    have other : r ∉ c.registries := fun mem =>
      (portrays.later mem).elim (nobody i) (Nat.not_le.mpr lt)
    rw [confined.registry (Nat.lt_of_lt_of_le lt grounded.extended.registries) other,
      h.registry lt nobody]
  openIds nobody := (confined.openIds (nobody i)).trans (h.openIds nobody)
  content {inode} lt unheld := by
    have shut : ∀ r ∈ c.registries, (v.registry r).handle? ≠ some inode := by
      intro r mem handle
      have before := grounded.heirs handle lt
      rcases portrays.later mem with first | new
      · exact unheld i ⟨r, first, before⟩
      · rw [registry_of_le new] at before
        cases before
    rw [confined.content (Nat.lt_of_lt_of_le lt grounded.numbered) shut, h.content lt unheld]

namespace Client

variable (c : Client) (outcome : Except Failure Unit)

@[simp] theorem hear_done : c.hear (.of (fun () => .done) outcome) =
    .of (fun () => .done) outcome := by
  cases outcome <;> rfl

@[simp] theorem take_done : c.take (.of (fun () => .done) outcome) = c := by
  cases outcome <;> rfl

end Client

/-- A face declines what its client does. -/
theorem Portrays.serve_eq_none (h : Portrays g v i c f) {p : ProcessRef} {q : Request}
    (asked : c.step? p q = none) : f.serve g q = (none, f) := by
  have ledger {k : Nat} (missing : c.registries[k]? = none) : f.registries[k]? = none := by
    rw [h.ledgers, missing]
    rfl
  have branch {n : Nat} (missing : c.branches[n]? = none) : f.branches[n]? = none := by
    rw [h.bindings, Client.bindings, List.getElem?_map, missing]
    rfl
  cases q with
  | create xid => cases asked
  | record k l | enlist k l node | bind k l node =>
      simp only [Face.serve, ledger (Option.map_eq_none_iff.mp asked)]
  | release n | mark n => simp only [Face.serve, branch (Option.map_eq_none_iff.mp asked)]
  | releaseFrom k n | doubtVia k n =>
      cases kth : c.registries[k]? with
      | none => simp only [Face.serve, ledger kth]
      | some r =>
          simp only [Client.step?, kth, Option.bind_some, Option.map_eq_none_iff] at asked
          simp only [Face.serve, branch asked, h.ledger? kth]

/-- Each face is that of its client in the session. -/
structure Scene (g : Stage ι) (s : Session ι) (faces : ι → Face) : Prop where
  grounded : Grounded g s.world
  portrays : ∀ i, Portrays g s.world i (s.clients i) (faces i)
  strays : Strays g s.world
  bare : ¬g.Made faces → Bare g s faces
  terrain : g.Made faces → Terrain g s faces

/-- A part that a new value has in common with the old one is as before everywhere. -/
theorem part_update {α β : Type} [DecidableEq ι] {all : ι → α} {a : α} (part : α → β)
    (same : part a = part (all i)) (j : ι) :
    part (Function.update all i a j) = part (all j) := by
  by_cases self : j = i
  · subst self
    rw [Function.update_self, same]
  · rw [Function.update_of_ne self]

/-- A release removes an entry if it is the last one and unlinks what stands at the path. -/
theorem World.entries_releaseFrom {place : Place} {outcome : Except SystemError Unit}
    (unlinks : (w.files.unlock (w.registry r).handle?.toList).unlink
        (Utf8.encode (w.registry r).path) =
      outcome.map fun _ => (w.files.unlock (w.registry r).handle?.toList).remove place) :
    (w.releaseFrom r b).2.files.entries =
      if (w.registry r).count = 1 ∧ outcome = .ok () then (w.files.remove place).entries
      else w.files.entries := by
  by_cases one : (w.registry r).count = 1
  · rw [releaseFrom_of_eq one, unlinks]
    cases outcome with
    | ok => simp only [one, and_self, if_true]; rfl
    | error e =>
        simp only [one, true_and, reduceCtorEq, if_false]
        cases e <;> rfl
  · rw [releaseFrom_of_ne one, if_neg fun h => one h.1]
    rfl

namespace Scene

/-- Unlinking the file of a registry has the outcome that the face gives. -/
theorem unlink (h : Scene g s faces) (fair : g.Fair)
    (mem : r ∈ (s.clients i).registries) (locks : List Nat) :
    (s.world.files.unlock locks).unlink (Utf8.encode (g.path (s.world.registry r).id)) =
      ((faces i).unlinking g (s.world.registry r).id).map fun _ =>
        (s.world.files.unlock locks).remove (g.place (s.world.registry r).id) := by
  have owns := (h.portrays i).owns
  by_cases made : g.Made faces
  · exact (h.terrain made).unlink fair (owns.registry mem).2.2.1
      (Stage.Fair.holdable h.grounded owns mem) locks
  · obtain ⟨e, outcome, same⟩ := (h.bare made).unlink fair h.grounded.extended mem locks
    rw [same, outcome]
    rfl

/-- A file that the face shows at a place has been made there, and can be unlinked. -/
theorem unlinking_of_own (h : Scene g s faces) (mine : g.own i id)
    (spot : (faces i).spots id = some (.file (.own k))) :
    (faces i).unlinking g id = .ok () := by
  by_cases made : g.Made faces
  · have shown := (h.terrain made).shows mine
    rw [spot] at shown
    generalize s.world.files.node? (g.place id) = node at shown
    cases shown with
    | own _ _ _ _ sited =>
        exact Face.unlinking_eq_ok_iff.mpr ⟨sited, by simp [spot], by simp [spot]⟩
  · rw [(h.bare made).spots, Stage.spots] at spot
    obtain ⟨node, -, e⟩ := Option.map_eq_some_iff.mp spot
    cases node <;> cases e

/-- Having the directory made has the outcome that is settled. -/
theorem making (h : Scene g s faces) (fair : g.Fair) : ∃ tree,
    s.world.files.makeDirectories (Utf8.encode g.dir) = (g.making, tree) ∧
      tree.contents = s.world.files.contents ∧
      Terrain g ⟨s.clients, { s.world with files := tree }⟩ faces := by
  by_cases made : g.Made faces
  · have terrain := h.terrain made
    exact ⟨_, terrain.makeDirectories fair, rfl, terrain⟩
  · have bare := h.bare made
    exact ⟨_, Stage.makeDirectories_of_bare bare.entries, rfl,
      .start fair rfl bare.clients bare.spots⟩

/-- Having the directory and a new file made has the outcome that the face gives. -/
theorem makes (h : Scene g s faces) (fair : g.Fair) (mine : g.own i id) (held : Holdable id) :
    ∃ tree, tree.contents = s.world.files.contents ∧
      Terrain g ⟨s.clients, { s.world with files := tree }⟩ faces ∧
      (∀ e, (faces i).making g id = .error e →
        s.world.files.makeDirectories (Utf8.encode g.dir) = (.error e, tree) ∨
          s.world.files.makeDirectories (Utf8.encode g.dir) = (.ok (), tree) ∧
            tree.createNew (Utf8.encode (g.path id)) = .error e) ∧
      ((faces i).making g id = .ok () →
        s.world.files.makeDirectories (Utf8.encode g.dir) = (.ok (), tree) ∧
          tree.createNew (Utf8.encode (g.path id)) =
            .ok (tree.contents.length, tree.putNewFile (g.place id) [])) := by
  obtain ⟨tree, made, contents, terrain⟩ := h.making fair
  refine ⟨tree, contents, terrain, fun e failed => ?_, fun possible => ?_⟩
  · cases outcome : g.making with
    | error e' =>
        rw [Face.making, outcome] at failed
        cases failed
        exact .inl (outcome ▸ made)
    | ok =>
        refine .inr ⟨outcome ▸ made, ?_⟩
        rw [terrain.createNew fair mine held outcome, failed]
        rfl
  · have outcome := (Face.making_eq_ok_iff.mp possible).1
    refine ⟨outcome ▸ made, ?_⟩
    rw [terrain.createNew fair mine held outcome, possible]
    rfl

theorem hasRegistry (h : Scene g s faces) (mem : r ∈ (s.clients i).registries) :
    s.world.HasRegistry r := by
  obtain ⟨lt, owner, -⟩ := (h.portrays i).owns.registry mem
  exact ⟨lt, owner ▸ h.grounded.running⟩

theorem hasBranch (h : Scene g s faces) (mem : b ∈ (s.clients i).branches) :
    s.world.HasBranch b := by
  obtain ⟨lt, mine⟩ := (h.portrays i).owns.branch mem
  exact ⟨lt, h.hasRegistry mine⟩

variable [DecidableEq ι] (h : Scene g s faces) (fair : g.Fair)
include h fair

/-- What is done for one client leaves the faces of the others. -/
theorem advance (grounded : Grounded g w)
    (confined : Confined (s.clients i) (g.own i) g.process s.world w)
    (portrays : Portrays g w i c f)
    (bare : ¬g.Made (Function.update faces i f) →
      Bare g ⟨Function.update s.clients i c, w⟩ (Function.update faces i f))
    (terrain : g.Made (Function.update faces i f) →
      Terrain g ⟨Function.update s.clients i c, w⟩ (Function.update faces i f)) :
    Scene g ⟨Function.update s.clients i c, w⟩ (Function.update faces i f) where
  grounded := grounded
  portrays j := by
    by_cases self : j = i
    · subst self
      simpa only [Function.update_self] using portrays
    · simp only [Function.update_of_ne self]
      exact (h.portrays j).frame (h.portrays i) (fun mine other => self (fair.apart mine other))
        h.grounded fair.grounded.writers confined
  strays := h.strays.confined (h.portrays i) h.grounded confined
  bare := bare
  terrain := terrain

/-- What is done leaves all entries, and a registry whose file stands in the directory keeps it
open. -/
theorem quiet (grounded : Grounded g w)
    (confined : Confined (s.clients i) (g.own i) g.process s.world w)
    (portrays : Portrays g w i c f) (entries : w.files.entries = s.world.files.entries)
    (registries : c.registries = (s.clients i).registries)
    (spots : f.spots = (faces i).spots) (made : f.made = (faces i).made)
    (opened : ∀ {k r}, (faces i).spots (s.world.registry r).id = some (.file (.own k)) →
      (s.clients i).registries[k]? = some r →
      (w.registry r).handle? = (s.world.registry r).handle?) :
    Scene g ⟨Function.update s.clients i c, w⟩ (Function.update faces i f) := by
  have clients := part_update Client.registries registries
  have spots := part_update Face.spots spots
  have made := Stage.made_congr (g := g) (part_update Face.made made)
  refine h.advance fair grounded confined portrays (fun unmade => ?_) (fun ready => ?_)
  · exact (h.bare (mt made.mpr unmade)).keep entries clients spots
  · refine (h.terrain (made.mp ready)).keep entries clients spots confined.extended
      (fun mem => ((h.portrays _).owns.registry mem).1) ?_
    intro j id k r mine spot placed named
    by_cases self : j = i
    · subst self
      subst named
      exact opened spot placed
    · have mem := List.mem_of_getElem? placed
      rw [confined.registry ((h.portrays j).owns.registry mem).1]
      exact (h.portrays j).registry_apart (h.portrays i)
        (fun mine other => self (fair.apart mine other)) mem

/-- What is done unlinks what stands under the identifier of a registry, and changes no other. -/
theorem clear (grounded : Grounded g w)
    (confined : Confined (s.clients i) (g.own i) g.process s.world w)
    (portrays : Portrays g w i c f) (mem : r ∈ (s.clients i).registries)
    (possible : (faces i).unlinking g (s.world.registry r).id = .ok ())
    (entries : w.files.entries = (s.world.files.remove (g.place (s.world.registry r).id)).entries)
    (registries : c.registries = (s.clients i).registries)
    (spots : f.spots = Function.update (faces i).spots (s.world.registry r).id none)
    (made : f.made = (faces i).made)
    (others : ∀ {r'}, r'.index < s.world.registries.length → r' ≠ r →
      w.registry r' = s.world.registry r') :
    Scene g ⟨Function.update s.clients i c, w⟩ (Function.update faces i f) := by
  have owns := (h.portrays i).owns
  have made := Stage.made_congr (g := g) (part_update Face.made made)
  refine h.advance fair grounded confined portrays (fun unmade => ?_) (fun ready => ?_)
  · obtain ⟨e, failed, -⟩ := (h.bare (mt made.mpr unmade)).unlink fair h.grounded.extended mem []
    rw [possible] at failed
    cases failed
  · refine (h.terrain (made.mp ready)).remove fair (owns.registry mem).2.2.1
      (Stage.Fair.holdable h.grounded owns mem) possible mem rfl entries
      (part_update Client.registries registries) confined.extended h.grounded.extended
      (fun mem => ((h.portrays _).owns.registry mem).1) (fun j r' mem' => ?_)
      (by rw [Function.update_self, spots]) (fun j other => by rw [Function.update_of_ne other])
    exact others ((h.portrays j).owns.registry mem').1

/-- Recording answers as the face says. -/
theorem record (kth : (s.clients i).registries[k]? = some r) (l : Locator) :
    (s.world.record r l).1 =
        ((faces i).record g k (g.ledger k (s.world.registry r)) l).1 ∧
      Scene g ⟨s.clients, (s.world.record r l).2⟩ (Function.update faces i
        ((faces i).record g k (g.ledger k (s.world.registry r)) l).2) := by
  have mem := List.mem_of_getElem? kth
  obtain ⟨answer, portrays⟩ := (h.portrays i).record h.grounded kth l
  have grounded : Grounded g (s.world.record r l).2 :=
    h.grounded.step (s := .record r l) (h.hasRegistry mem) rfl
  have entries : (s.world.record r l).2.files.entries = s.world.files.entries := by
    rw [files_record]
    split <;> rfl
  have next := h.quiet fair grounded (.record mem l) portrays entries rfl (Face.spots_record l)
    (Face.made_record l) ?_
  · rw [Function.update_eq_self] at next
    exact ⟨answer, next⟩
  · intro k' r' _ kth'
    rw [registry_record ((h.portrays i).owns.registry (List.mem_of_getElem? kth')).1]
    split <;> rfl

theorem bind (kth : (s.clients i).registries[k]? = some r) (l : Locator) (node : String) :
    Scene g ⟨Function.update s.clients i
        { s.clients i with branches := (s.clients i).branches ++ [⟨s.world.branches.length⟩] },
      (s.world.bind r l node).2⟩ (Function.update faces i ((faces i).bind k l node)) := by
  have grounded : Grounded g (s.world.bind r l node).2 :=
    h.grounded.step (s := .bind r l node) (h.hasRegistry (List.mem_of_getElem? kth)) rfl
  exact h.quiet fair grounded (.bind r l node)
    ((h.portrays i).bind h.grounded.listed kth l node) rfl rfl rfl rfl fun _ _ => rfl

theorem doubt (kth : (s.clients i).branches[n]? = some b) :
    Scene g ⟨s.clients, s.world.doubt g.process [b]⟩
      (Function.update faces i ((faces i).doubt n)) := by
  have mem := List.mem_of_getElem? kth
  have running := h.grounded.running
  have grounded : Grounded g (s.world.doubt g.process [b]) := by
    refine h.grounded.step (s := .doubt g.process [b]) ⟨running, fun b' mem' => ?_⟩ rfl
    rw [List.mem_singleton.mp mem']
    exact h.hasBranch mem
  have next := h.quiet fair (c := s.clients i) grounded (.doubt mem)
    ((h.portrays i).doubt running.1 kth) rfl rfl rfl rfl fun _ _ => rfl
  rwa [Function.update_eq_self] at next

/-- Releasing answers as the face says. -/
theorem releaseFrom (kth : (s.clients i).registries[k]? = some r)
    (kth' : (s.clients i).branches[n]? = some b) :
    (s.world.releaseFrom r b).1 = ((faces i).releaseFrom g k (g.ledger k (s.world.registry r)) n
        ((s.clients i).binding s.world b)).1 ∧
      Scene g ⟨s.clients, (s.world.releaseFrom r b).2⟩ (Function.update faces i
        ((faces i).releaseFrom g k (g.ledger k (s.world.registry r)) n
          ((s.clients i).binding s.world b)).2) := by
  have mem := List.mem_of_getElem? kth
  have mem' := List.mem_of_getElem? kth'
  have owns := (h.portrays i).owns
  obtain ⟨lt, owner, mine, path⟩ := owns.registry mem
  have unlinks := h.unlink fair mem (s.world.registry r).handle?.toList
  obtain ⟨answer, portrays⟩ := (h.portrays i).releaseFrom h.grounded kth kth' unlinks
  refine ⟨answer, ?_⟩
  have grounded : Grounded g (s.world.releaseFrom r b).2 :=
    h.grounded.step (s := .releaseFrom r b) ⟨h.hasRegistry mem, h.hasBranch mem'⟩ rfl
  have confined := Confined.releaseFrom (b := b) owner mine mem mem'
  have entries := entries_releaseFrom (b := b)
    (by rw [path, h.grounded.dir]; exact unlinks)
  have spots := Face.spots_releaseFrom (f := faces i) (g := g) (k := k) (n := n)
    (l := g.ledger k (s.world.registry r)) ((s.clients i).binding s.world b)
  have made := Face.made_releaseFrom (f := faces i) (g := g) (k := k) (n := n)
    (l := g.ledger k (s.world.registry r)) ((s.clients i).binding s.world b)
  generalize (faces i).releaseFrom g k (g.ledger k (s.world.registry r)) n
    ((s.clients i).binding s.world b) = out at portrays spots made
  have name : (g.ledger k (s.world.registry r)).id = (s.world.registry r).id := rfl
  have count : (g.ledger k (s.world.registry r)).count = (s.world.registry r).count := rfl
  rw [name, count] at spots
  suffices next : Scene g ⟨Function.update s.clients i (s.clients i), (s.world.releaseFrom r b).2⟩
      (Function.update faces i out.2) by
    rwa [Function.update_eq_self] at next
  by_cases last : (s.world.registry r).count = 1 ∧
      (faces i).unlinking g (s.world.registry r).id = .ok ()
  · rw [if_pos last] at entries spots
    refine h.clear fair grounded confined portrays mem last.2 entries rfl spots made ?_
    intro r' lt' other
    rw [registry_releaseFrom lt', if_neg other.symm]
  · rw [if_neg last] at entries spots
    refine h.quiet fair grounded confined portrays entries rfl spots made ?_
    -- The registry whose file stands there closes it only if the file is unlinked.
    intro k' r' spot kth''
    rw [registry_releaseFrom (owns.registry (List.mem_of_getElem? kth'')).1]
    split
    · rename_i same
      subst same
      have possible := h.unlinking_of_own mine spot
      rw [Registry.handle?_released, if_neg fun one => last ⟨one, possible⟩]
    · rfl

/-- The directory has been made, and nothing else. -/
theorem prepare {tree : FileSystem} (grounded : Grounded g { s.world with files := tree })
    (contents : tree.contents = s.world.files.contents)
    (terrain : Terrain g ⟨s.clients, { s.world with files := tree }⟩ faces) :
    Scene g ⟨s.clients, { s.world with files := tree }⟩
      (Function.update faces i { faces i with made := true }) := by
  have same (inode : Nat) : tree.content inode = s.world.files.content inode :=
    congrArg (List.getD · inode []) contents
  have portrays : Portrays g { s.world with files := tree } i (s.clients i)
      { faces i with made := true } := { (h.portrays i).tree same with }
  have ready : g.Made (Function.update faces i { faces i with made := true }) :=
    .inr ⟨i, by rw [Function.update_self]⟩
  have next := h.advance fair grounded (.tree fun _ => same _) portrays
    (fun unmade => absurd ready unmade) fun _ => ?_
  · rwa [Function.update_eq_self] at next
  · refine terrain.keep rfl (part_update Client.registries rfl) (part_update Face.spots rfl)
      (.refl _) (fun mem => ((h.portrays _).owns.registry mem).1) ?_
    exact fun _ _ _ _ => rfl

/-- A registry has been entered, with a new file in the directory. -/
theorem enter (mine : g.own i id) {tree : FileSystem}
    (grounded : Grounded g (s.world.enter g.process
      ((tree.putNewFile (g.place id) []).lock tree.contents.length) id (g.path id)
        tree.contents.length))
    (contents : tree.contents = s.world.files.contents)
    (terrain : Terrain g ⟨s.clients, { s.world with files := tree }⟩ faces)
    (possible : (faces i).making g id = .ok ()) :
    Scene g ⟨Function.update s.clients i { s.clients i with
          registries := (s.clients i).registries ++ [⟨s.world.registries.length⟩] },
        s.world.enter g.process ((tree.putNewFile (g.place id) []).lock tree.contents.length) id
          (g.path id) tree.contents.length⟩
      (Function.update faces i (Face.enter { faces i with made := true } id)) := by
  have length : tree.contents.length = s.world.files.contents.length := congrArg _ contents
  have content {inode : Nat} (lt : inode < s.world.files.contents.length) :
      ((tree.putNewFile (g.place id) []).lock tree.contents.length).content inode =
        s.world.files.content inode := by
    rw [content_lock, content_putNewFile (length ▸ lt)]
    exact congrArg (List.getD · inode []) contents
  have empty : ((tree.putNewFile (g.place id) []).lock tree.contents.length).content
      s.world.files.contents.length = [] := by
    rw [← length, content_lock, content_putNewFile_new]
  have before : Portrays g s.world i (s.clients i) { faces i with made := true } :=
    { h.portrays i with }
  have portrays := before.enter h.grounded mine content empty
  rw [← length] at portrays
  have confined := Confined.enter (c := s.clients i) (p := g.process) mine (g.path id)
    tree.contents.length content
  have entered : (s.world.enter g.process
      ((tree.putNewFile (g.place id) []).lock tree.contents.length) id (g.path id)
        tree.contents.length).registries = s.world.registries ++
      [⟨g.process, id, g.path id, .created (some tree.contents.length), 0⟩] := rfl
  refine h.advance fair grounded confined portrays (fun unmade => ?_) (fun _ => ?_)
  · exact absurd (.inr ⟨i, by rw [Function.update_self]; rfl⟩) unmade
  · refine terrain.enter fair mine possible (fun _ => rfl) ?_ (congrArg _ (Function.update_self ..))
      ?_ ?_ (fun j other => congrArg _ (Function.update_of_ne other ..)) ?_ ?_
      (fun j other => congrArg _ (Function.update_of_ne other ..))
    · rw [length]
      exact h.grounded.numbered
    · rw [registry_append_new entered]
    · rw [registry_append_new entered]
      rfl
    · exact fun j r mem => registry_append entered ((h.portrays j).owns.registry mem).1
    · rw [Function.update_self]
      exact congrArg (fun n => Function.update (faces i).spots id (some (.file (.own n))))
        (h.portrays i).length_registries

/-- Creating a registry answers as the face says, and leads to the face that it gives. -/
theorem create {xid : Xid} (mine : g.own i xid.name) :
    (s.world.create g.process xid).1 =
        ((faces i).create g xid).1.map (fun _ => ⟨s.world.registries.length⟩) ∧
      Scene g ⟨Function.update s.clients i
          ((s.clients i).take (.of .registry (s.world.create g.process xid).1)),
        (s.world.create g.process xid).2⟩
        (Function.update faces i ((faces i).create g xid).2) := by
  have grounded : Grounded g (s.world.create g.process xid).2 :=
    h.grounded.step (s := .create g.process xid) h.grounded.running rfl
  have owned := (h.portrays i).owned mine
  have dir := h.grounded.dir
  by_cases taken : xid.name ∈ (s.world.process g.process).openIds
  · have refused : s.world.create g.process xid =
        (.error (.createFailed (g.path xid.name) .alreadyOpen), s.world) := by
      rw [World.create, dir, createIn_of_mem taken]
      rfl
    have face : (faces i).create g xid =
        (.error (.createFailed (g.path xid.name) .alreadyOpen), faces i) :=
      if_pos (owned.mpr taken)
    rw [refused, face]
    refine ⟨rfl, ?_⟩
    simpa only [Answer.of, Client.take, Function.update_eq_self] using h
  · obtain ⟨tree, contents, terrain, failing, making⟩ := h.makes fair mine xid.holdable_name
    have unowned : (faces i).owned xid.name ≠ true := fun mine => taken (owned.mp mine)
    cases possible : (faces i).making g xid.name with
    | error e =>
        have world : s.world.create g.process xid =
            (.error (.createFailed (g.path xid.name) (.system e)),
              { s.world with files := tree }) := by
          rw [World.create, dir]
          exact createIn_of_failed taken (failing e possible)
        have face : (faces i).create g xid =
            (.error (.createFailed (g.path xid.name) (.system e)),
              { faces i with made := true }) := by
          simp only [Face.create, if_neg unowned, possible]
        rw [world] at grounded
        rw [world, face]
        refine ⟨rfl, ?_⟩
        simpa only [Answer.of, Client.take, Function.update_eq_self] using
          h.prepare fair grounded contents terrain
    | ok =>
        obtain ⟨made, new⟩ := making possible
        have world : s.world.create g.process xid =
            (.ok ⟨s.world.registries.length⟩, s.world.enter g.process
              ((tree.putNewFile (g.place xid.name) []).lock tree.contents.length) xid.name
              (g.path xid.name) tree.contents.length) := by
          rw [World.create, dir]
          exact createIn_of_made taken made new
        have face : (faces i).create g xid =
            (.ok (), Face.enter { faces i with made := true } xid.name) := by
          simp only [Face.create, if_neg unowned, possible]
        rw [world] at grounded
        rw [world, face]
        exact ⟨rfl, h.enter fair mine grounded contents terrain possible⟩

/-- Serving a request to enlist answers as the face says: what is recorded gets a branch. -/
theorem serve_enlist (kth : (s.clients i).registries[k]? = some r) (l : Locator) (node : String) :
    (s.serve g.process i (.enlist k l node)).1 = ((faces i).serve g (.enlist k l node)).1 ∧
      Scene g (s.serve g.process i (.enlist k l node)).2
        (Function.update faces i ((faces i).serve g (.enlist k l node)).2) := by
  have portrays := h.portrays i
  have asked : (s.clients i).step? g.process (.enlist k l node) = some (.enlist r l node) :=
    Option.map_eq_some_iff.mpr ⟨r, kth, rfl⟩
  obtain ⟨answer, next⟩ := h.record fair kth l
  simp only [Session.serve, asked, Face.serve, portrays.ledger? kth, World.step, Prod.map_fst,
    Prod.map_snd, id_eq, World.enlist]
  generalize s.world.record r l = made at answer next
  generalize (faces i).record g k (g.ledger k (s.world.registry r)) l = out at answer next
  obtain ⟨outcome, v⟩ := made
  obtain ⟨outcome', f⟩ := out
  obtain rfl : outcome = outcome' := answer
  cases outcome with
  | error e =>
      simp only [Answer.of, Client.hear, Client.take, Function.update_eq_self]
      exact ⟨trivial, next⟩
  | ok =>
      have bound := next.bind fair (i := i) kth l node
      simp only [Function.update_self, Function.update_idem] at bound
      refine ⟨?_, bound⟩
      simp only [portrays.length_branches]
      rfl

/-- Serving a request answers as the face of the client does, and changes no other face. -/
theorem serve {q : Request} (mine : q.Within (g.own i)) :
    (s.serve g.process i q).1 = ((faces i).serve g q).1 ∧
      Scene g (s.serve g.process i q).2 (Function.update faces i ((faces i).serve g q).2) := by
  have portrays := h.portrays i
  have owns := portrays.owns
  cases asked : (s.clients i).step? g.process q with
  | none =>
      simp only [Session.serve, asked, portrays.serve_eq_none asked, Function.update_eq_self, h,
        and_self]
  | some step =>
      simp only [Session.serve, asked]
      cases q with
      | create xid =>
          cases asked
          obtain ⟨answer, next⟩ := h.create fair mine
          refine ⟨?_, next⟩
          simp only [Face.serve, World.step, Prod.map_fst, answer, portrays.length_registries]
          cases ((faces i).create g xid).1 <;> rfl
      | record k l =>
          obtain ⟨r, stands, rfl⟩ := Option.map_eq_some_iff.mp asked
          obtain ⟨answer, next⟩ := h.record fair stands l
          simp only [Face.serve, portrays.ledger? stands, World.step, Prod.map_fst, Prod.map_snd,
            id_eq, Client.hear_done, Client.take_done, Function.update_eq_self, answer]
          exact ⟨rfl, next⟩
      | enlist k l node =>
          obtain ⟨r, stands, rfl⟩ := Option.map_eq_some_iff.mp asked
          have enlisted := h.serve_enlist fair stands l node
          simpa only [Session.serve, Client.step?, stands, Option.map_some] using enlisted
      | bind k l node =>
          obtain ⟨r, stands, rfl⟩ := Option.map_eq_some_iff.mp asked
          have next := h.bind fair stands l node
          simp only [Face.serve, portrays.ledger? stands, World.step, Prod.map_fst, Prod.map_snd,
            id_eq, portrays.length_branches]
          exact ⟨rfl, next⟩
      | release n =>
          obtain ⟨b, stands', rfl⟩ := Option.map_eq_some_iff.mp asked
          have stands := owns.registry_of_branch (List.mem_of_getElem? stands')
          obtain ⟨answer, next⟩ := h.releaseFrom fair stands stands'
          simp only [Face.serve, portrays.binding? stands', Client.binding, portrays.ledger? stands,
            World.step, World.release, Prod.map_fst, Prod.map_snd, id_eq, Client.hear_done,
            Client.take_done, Function.update_eq_self, answer]
          exact ⟨rfl, next⟩
      | releaseFrom k n =>
          obtain ⟨r, stands, asked⟩ := Option.bind_eq_some_iff.mp asked
          obtain ⟨b, stands', rfl⟩ := Option.map_eq_some_iff.mp asked
          obtain ⟨answer, next⟩ := h.releaseFrom fair stands stands'
          simp only [Face.serve, portrays.binding? stands', portrays.ledger? stands, World.step,
            Prod.map_fst, Prod.map_snd, id_eq, Client.hear_done, Client.take_done,
            Function.update_eq_self, answer]
          exact ⟨rfl, next⟩
      | mark n =>
          obtain ⟨b, stands', rfl⟩ := Option.map_eq_some_iff.mp asked
          have mem := (owns.branch (List.mem_of_getElem? stands')).2
          have next := h.doubt fair stands'
          simp only [Face.serve, portrays.binding? stands', World.step, World.mark, World.doubtVia,
            (owns.registry mem).2.1, Client.hear, Client.take, Function.update_eq_self]
          exact ⟨trivial, next⟩
      | doubtVia k n =>
          obtain ⟨r, stands, asked⟩ := Option.bind_eq_some_iff.mp asked
          obtain ⟨b, stands', rfl⟩ := Option.map_eq_some_iff.mp asked
          have mem := List.mem_of_getElem? stands
          have next := h.doubt fair stands'
          simp only [Face.serve, portrays.ledger? stands, portrays.binding? stands', World.step,
            World.doubtVia, (owns.registry mem).2.1, Client.hear, Client.take,
            Function.update_eq_self]
          exact ⟨trivial, next⟩

end Scene

end InDoubt

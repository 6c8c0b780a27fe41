import InDoubt.Proofs.Portraits

/-!
What stands in the directory of a log while clients are served. Until some request has the directory
made, the tree is as it was at the start. From then on it differs from that tree with the directory
made only at the places of the identifiers that the clients use, where the face of a client shows
what stands there. Looking up a name, making the directory again, unlinking and making a file all
have the outcome that the faces give (`Terrain.unlink`, `Terrain.createNew`).
-/

namespace InDoubt

open FileSystem World

variable {ι : Type} {g : Stage ι} {v w : World} {s t : Session ι} {faces faces' : ι → Face}
  {i j : ι} {c c' : Client} {f : Face} {k : Nat} {r : RegistryRef} {inode : Nat} {id : String}
  {place : Place} {spot : Option Spot} {node : Option Node} {fs tree : FileSystem}

namespace Stage

/-- The path is that of a registry that a client has from the start. -/
def Used (g : Stage ι) (path : String) : Prop :=
  ∃ i, ∃ r ∈ (g.start.clients i).registries, (g.start.world.registry r).path = path

/-- The release of a registry that a client has from the start may unlink the link that stands
there. -/
def Gone (g : Stage ι) (place : Place) : Prop := g.ready.NamesLink g.Used place

/-- The log runs, each client has its own, and whether the directory has been made before does not
show. -/
structure Fair (g : Stage ι) : Prop where
  grounded : Grounded g g.start.world
  owns : ∀ i, (g.start.clients i).Owns g.start.world g.process (g.own i)
  apart : ∀ {i j id}, g.own i id → g.own j id → i = j
  steady : g.bare.Steady g.dir g.Used
  top : g.making = .ok () → g.ready.Opens g.dir g.top

namespace Fair

variable (fair : g.Fair)
include fair

theorem sound : g.ready.Sound := fair.grounded.orderly.sound.makeDirectories _

theorem making_ready : g.ready.makeDirectories (Utf8.encode g.dir) = (g.making, g.ready) :=
  Prod.ext fair.steady.making (makeDirectories_fixed fair.grounded.orderly.sound _)

omit fair in
theorem holdable {own : String → Prop} (h : Grounded g v) (owns : c.Owns v g.process own)
    (mem : r ∈ c.registries) : Holdable (v.registry r).id := by
  obtain ⟨-, -, held⟩ := h.orderly.registered (owns.registry mem).1
  exact held

/-- If a name can be looked up in the directory, that has been made. -/
theorem entry_eq_ok (held : Holdable id) (e : g.entry id = .ok place) :
    g.making = .ok () ∧ place = g.place id := by
  obtain ⟨checked, top, opens⟩ := Opens.of_locateEntry fair.sound held e
  have made : g.making = .ok () := by
    have again : (g.ready.makeDirectories (Utf8.encode g.dir)).1 = g.making := fair.steady.making
    rw [← again, opens.makeDirectories checked]
  exact ⟨made, ((fair.top made).locateEntry_iff held).mp e |>.2.2⟩

/-- What a release may unlink bears the identifier of a registry. -/
theorem place_of_gone (h : g.Gone place) : ∃ id, place = g.place id := by
  obtain ⟨path, target, ⟨i, r, mem, rfl⟩, located, -⟩ := h
  have owns := fair.owns i
  rw [(owns.registry mem).2.2.2] at located
  exact ⟨_, (fair.entry_eq_ok (holdable fair.grounded owns mem) located).2⟩

end Fair

theorem place_ne_nil (g : Stage ι) (id : String) : g.place id ≠ [] := List.cons_ne_nil _ _

theorem place_ne (g : Stage ι) {other : String} (h : other ≠ id) : g.place other ≠ g.place id :=
  fun e => h (eq_of_place_eq e)

theorem contents_ready : g.ready.contents = g.bare.contents := by
  have same := congrArg contents (restock_makeDirectories g.bare (Utf8.encode g.dir))
  exact same.symm

/-- What making the directory does to a tree with the entries of the start. -/
theorem makeDirectories_of_bare (entries : fs.entries = g.bare.entries) :
    fs.makeDirectories (Utf8.encode g.dir) = (g.making, g.ready.restock fs) := by
  have whole := makeDirectories_restock g.bare fs (Utf8.encode g.dir)
  rwa [restock_eq entries] at whole

theorem makeDirectories_of_ready (fair : g.Fair) (entries : fs.entries = g.ready.entries) :
    fs.makeDirectories (Utf8.encode g.dir) = (g.making, fs) := by
  have whole := makeDirectories_restock g.ready fs (Utf8.encode g.dir)
  rwa [restock_eq entries, fair.making_ready, restock_eq entries] at whole

/-- What a face shows of an entry at the start. -/
def spotOf : Node → Spot
  | .directory => .directory
  | .file inode => .file (.old inode)
  | .link target => .link target

/-- What a face shows at the start. -/
def spots (g : Stage ι) (id : String) : Option Spot := (g.ready.node? (g.place id)).map spotOf

end Stage

/-- A face shows what stands at a place. A file that was made for a registry has the identifier of
that registry, which holds it open. -/
inductive Shows (g : Stage ι) (v : World) (c : Client) (id : String) :
    Option Spot → Option Node → Prop
  | none : Shows g v c id none none
  | directory : Shows g v c id (some .directory) (some .directory)
  | link {target : Bytes} : Shows g v c id (some (.link target)) (some (.link target))
  | old {inode : Nat} (lt : inode < g.inodes) :
      Shows g v c id (some (.file (.old inode))) (some (.file inode))
  | own {k : Nat} {r : RegistryRef} {inode : Nat} (kth : c.registries[k]? = some r)
      (named : (v.registry r).id = id) (handle : (v.registry r).handle? = some inode)
      (new : g.inodes ≤ inode) (sited : ∃ place, g.entry id = .ok place) :
      Shows g v c id (some (.file (.own k))) (some (.file inode))

namespace Shows

/-- Registries that have made a file still hold it open. -/
theorem keep (h : Shows g v c id spot node) (more : c.registries <+: c'.registries)
    (same : ∀ {k r}, spot = some (.file (.own k)) → c.registries[k]? = some r →
      (v.registry r).id = id → (w.registry r).id = (v.registry r).id ∧
        (w.registry r).handle? = (v.registry r).handle?) : Shows g w c' id spot node := by
  cases h with
  | none => exact .none
  | directory => exact .directory
  | link => exact .link
  | old lt => exact .old lt
  | own stands named handle new sited =>
      obtain ⟨named', handle'⟩ := same rfl stands named
      obtain ⟨rest, e⟩ := more
      refine .own ?_ (named'.trans named) (handle'.trans handle) new sited
      rw [← e, List.getElem?_append_left (List.getElem?_eq_some_iff.mp stands).1, stands]

/-- At the start a face shows what stands in the tree with the directory made. -/
theorem start (fair : g.Fair) (node : Option Node) (placed : g.ready.node? place = node) :
    Shows g v c id (node.map Stage.spotOf) node := by
  cases node with
  | none => exact .none
  | some node =>
      cases node with
      | directory => exact .directory
      | link target => exact .link
      | file inode =>
          have lt := fair.sound.lt placed
          rw [Stage.contents_ready] at lt
          exact .old lt

/-- Unlinking has the outcome that the face gives. -/
theorem unlink (h : Shows g v c id (f.spots id) (tree.node? (g.place id))) (fair : g.Fair)
    (held : Holdable id) (located : tree.locateEntry (Utf8.encode (g.path id)) = g.entry id) :
    tree.unlink (Utf8.encode (g.path id)) =
      (f.unlinking g id).map fun _ => tree.remove (g.place id) := by
  have plain := endsInSlash_joinPath g.dir held.2 held.1.1
  simp only [FileSystem.unlink, located, Face.unlinking]
  cases e : g.entry id with
  | error e => rfl
  | ok place =>
      obtain ⟨-, rfl⟩ := fair.entry_eq_ok held e
      simp only [Stage.path, plain, Bind.bind, Except.bind]
      generalize f.spots id = spot, tree.node? (g.place id) = node at h
      cases h <;> rfl

/-- Making a file has the outcome that the face gives. -/
theorem createNew (h : Shows g v c id (f.spots id) (tree.node? (g.place id))) (fair : g.Fair)
    (held : Holdable id) (made : g.making = .ok ())
    (located : tree.locateEntry (Utf8.encode (g.path id)) = g.entry id) :
    tree.createNew (Utf8.encode (g.path id)) = (f.making g id).map fun _ =>
      (tree.contents.length, tree.putNewFile (g.place id) []) := by
  simp only [FileSystem.createNew, located, Face.making, made]
  cases e : g.entry id with
  | error e => rfl
  | ok place =>
      obtain ⟨-, rfl⟩ := fair.entry_eq_ok held e
      simp only [Bind.bind, Except.bind]
      generalize f.spots id = spot, tree.node? (g.place id) = node at h
      cases h <;> rfl

end Shows

/-- The tree before the directory has been made by anyone. -/
structure Bare (g : Stage ι) (s : Session ι) (faces : ι → Face) : Prop where
  missing : g.ready.entries ≠ g.bare.entries
  entries : s.world.files.entries = g.bare.entries
  spots : ∀ i, (faces i).spots = g.spots
  clients : ∀ i, (s.clients i).registries = (g.start.clients i).registries

namespace Bare

variable (h : Bare g s faces) (fair : g.Fair)
include h fair

/-- No name can be looked up yet, so that no release unlinks anything. -/
theorem unlink (extended : Extends g.start.world s.world) (mem : r ∈ (s.clients i).registries)
    (locks : List Nat) : ∃ e, (faces i).unlinking g (s.world.registry r).id = .error e ∧
      (s.world.files.unlock locks).unlink (Utf8.encode (g.path (s.world.registry r).id)) =
        .error e := by
  rw [h.clients] at mem
  have owned := (fair.owns i).registry mem
  have held := Stage.Fair.holdable fair.grounded (fair.owns i) mem
  rw [extended.id owned.1]
  generalize named : (g.start.world.registry r).id = id at held owned
  have path : (g.start.world.registry r).path = g.path id := owned.2.2.2
  cases located : g.bare.locateEntry (Utf8.encode (g.path id)) with
  | ok place =>
      obtain ⟨checked, top, opens⟩ := Opens.of_locateEntry fair.grounded.orderly.sound held located
      have opens : g.bare.Opens g.dir top := opens
      have same : g.bare.makeDirectories (Utf8.encode g.dir) = (.ok (), g.bare) :=
        opens.makeDirectories checked
      exact absurd (congrArg (fun made => made.2.entries) same) h.missing
  | error e =>
      have here : g.bare.unlink (Utf8.encode (g.path id)) = .error e := by
        simp only [FileSystem.unlink, located]
        rfl
      have there : (s.world.files.unlock locks).locateEntry (Utf8.encode (g.path id)) =
          .error e := by
        rw [← located]
        exact locateEntry_congr (node?_congr h.entries)
      have shown : Shows g s.world (s.clients i) id ((faces i).spots id)
          (g.ready.node? (g.place id)) := by
        rw [h.spots]
        exact .start fair _ rfl
      have later := fair.steady.unlinking ⟨i, r, mem, path⟩
      rw [here, show (g.bare.withDirectory g.dir).unlink _ = _ from
        shown.unlink fair held rfl] at later
      refine ⟨e, ?_, ?_⟩
      · cases outcome : (faces i).unlinking g id <;> rw [outcome] at later <;> cases later
        rfl
      · simp only [FileSystem.unlink, there]
        rfl

omit fair in
theorem keep (entries : t.world.files.entries = s.world.files.entries)
    (clients : ∀ i, (t.clients i).registries = (s.clients i).registries)
    (spots : ∀ i, (faces' i).spots = (faces i).spots) : Bare g t faces' where
  missing := h.missing
  entries := entries.trans h.entries
  spots i := (spots i).trans (h.spots i)
  clients i := (clients i).trans (h.clients i)

end Bare

/-- The tree once the directory has been made. As long as it can be made, some part of the tree that
no release touches has it at the end of its path; a link that a release may remove was there from
the start. -/
structure Terrain (g : Stage ι) (s : Session ι) (faces : ι → Face) : Prop where
  shows : ∀ {i id}, g.own i id → Shows g s.world (s.clients i) id ((faces i).spots id)
    (s.world.files.node? (g.place id))
  elsewhere : ∀ {place}, (∀ i id, g.own i id → place ≠ g.place id) →
    s.world.files.node? place = g.ready.node? place
  way : g.making = .ok () → ∃ part : FileSystem, part.Opens g.dir g.top ∧
    ∀ {place node}, part.node? place = some node → (∀ inode, node ≠ .file inode) →
      s.world.files.node? place = some node ∧ ¬g.Gone place
  blocked : ∀ {e}, g.making = .error e → s.world.files.entries = g.ready.entries
  links : ∀ {i id target}, g.own i id → (faces i).spots id = some (.link target) →
    g.ready.node? (g.place id) = some (.link target) ∧
      ∀ r ∈ (s.clients i).registries, (s.world.registry r).id = id →
        r ∈ (g.start.clients i).registries

namespace Terrain

theorem opens (h : Terrain g s faces) (made : g.making = .ok ()) :
    s.world.files.Opens g.dir g.top := by
  obtain ⟨part, opens, stands⟩ := h.way made
  exact opens.grow fun placed other => (stands placed other).1

/-- The directory can be made again, with the same outcome and no effect. -/
theorem makeDirectories (h : Terrain g s faces) (fair : g.Fair) :
    s.world.files.makeDirectories (Utf8.encode g.dir) = (g.making, s.world.files) := by
  cases made : g.making with
  | error e => rw [← made, Stage.makeDirectories_of_ready fair (h.blocked made)]
  | ok =>
      refine (h.opens made).makeDirectories ?_
      by_cases named : Utf8.encode g.dir = []
      · exact .inr named
      · have whole : g.bare.makeDirectories (Utf8.encode g.dir) = (.ok (), g.ready) :=
          Prod.ext made rfl
        exact .inl (Opens.of_makeDirectories named whole).1

/-- A name is looked up with the same outcome all the time. -/
theorem locateEntry (h : Terrain g s faces) (fair : g.Fair) (held : Holdable id) :
    s.world.files.locateEntry (Utf8.encode (g.path id)) = g.entry id := by
  cases made : g.making with
  | error e => exact locateEntry_congr (node?_congr (h.blocked made))
  | ok => exact (h.opens made).locateEntry_eq_of_opens (fair.top made) held

theorem unlink (h : Terrain g s faces) (fair : g.Fair) (mine : g.own i id) (held : Holdable id)
    (locks : List Nat) : (s.world.files.unlock locks).unlink (Utf8.encode (g.path id)) =
      ((faces i).unlinking g id).map fun _ =>
        (s.world.files.unlock locks).remove (g.place id) := by
  refine Shows.unlink (v := s.world) (c := s.clients i) (h.shows mine) fair held ?_
  rw [← h.locateEntry fair held]
  exact locateEntry_congr fun _ => rfl

theorem createNew (h : Terrain g s faces) (fair : g.Fair) (mine : g.own i id)
    (held : Holdable id) (made : g.making = .ok ()) :
    s.world.files.createNew (Utf8.encode (g.path id)) = ((faces i).making g id).map fun _ =>
      (s.world.files.contents.length, s.world.files.putNewFile (g.place id) []) :=
  (h.shows mine).createNew fair held made (h.locateEntry fair held)

/-- No entry changes, and registries that have made a file still hold it open. -/
theorem keep (h : Terrain g s faces) (entries : t.world.files.entries = s.world.files.entries)
    (clients : ∀ i, (t.clients i).registries = (s.clients i).registries)
    (spots : ∀ i, (faces' i).spots = (faces i).spots)
    (extended : Extends s.world t.world)
    (there : ∀ {i r}, r ∈ (s.clients i).registries → r.index < s.world.registries.length)
    (same : ∀ {i id k r}, g.own i id → (faces i).spots id = some (.file (.own k)) →
      (s.clients i).registries[k]? = some r → (s.world.registry r).id = id →
      (t.world.registry r).handle? = (s.world.registry r).handle?) : Terrain g t faces' where
  shows {i id} mine := by
    rw [spots, node?_congr entries]
    refine (h.shows mine).keep (clients i ▸ List.prefix_refl _) fun spot placed named => ?_
    exact ⟨extended.id (there (List.mem_of_getElem? placed)), same mine spot placed named⟩
  elsewhere other := (node?_congr entries _).trans (h.elsewhere other)
  way made := by
    obtain ⟨part, opens, stands⟩ := h.way made
    refine ⟨part, opens, fun placed other => ?_⟩
    rw [node?_congr entries]
    exact stands placed other
  blocked made := entries.trans (h.blocked made)
  links {i id target} mine placed := by
    rw [spots] at placed
    obtain ⟨stood, first⟩ := h.links mine placed
    refine ⟨stood, fun r mem named => ?_⟩
    rw [clients] at mem
    rw [extended.id (there mem)] at named
    exact first r mem named

/-- The directory has just been made, or was there from the start. -/
theorem start (fair : g.Fair) (entries : s.world.files.entries = g.ready.entries)
    (clients : ∀ i, (s.clients i).registries = (g.start.clients i).registries)
    (spots : ∀ i, (faces i).spots = g.spots) : Terrain g s faces where
  shows _ := by
    rw [spots, node?_congr entries]
    exact .start fair _ rfl
  elsewhere _ := node?_congr entries _
  way made := by
    obtain ⟨part, within, apart, top, opens⟩ := fair.steady.opening made
    have stands {place : Place} {node : Node} (placed : part.node? place = some node) :
        g.ready.node? place = some node := by
      by_cases root : place = []
      · subst root
        exact placed
      · exact fair.sound.node? (within (mem_entries_of_node? root placed))
    obtain rfl := (opens.grow fun placed _ => stands placed).unique (fair.top made)
    refine ⟨part, opens, fun {place node} placed _ =>
      ⟨(node?_congr entries _).trans (stands placed), ?_⟩⟩
    by_cases root : place = []
    · rintro gone
      obtain ⟨id, rfl⟩ := fair.place_of_gone gone
      cases root
    · exact apart _ (mem_entries_of_node? root placed)
  blocked _ := entries
  links {i id target} _ placed := by
    rw [spots, Stage.spots] at placed
    obtain ⟨node, stood, e⟩ := Option.map_eq_some_iff.mp placed
    refine ⟨?_, fun r mem _ => clients i ▸ mem⟩
    cases node <;> cases e
    exact stood

/-- The place of one identifier has changed, and what its face shows of it. -/
theorem alter (h : Terrain g s faces) (fair : g.Fair) (mine : g.own i id)
    (made : g.making = .ok ())
    (elsewhere : ∀ {place}, place ≠ g.place id →
      t.world.files.node? place = s.world.files.node? place)
    (here : Shows g t.world (t.clients i) id spot (t.world.files.node? (g.place id)))
    (spots : (faces' i).spots = Function.update (faces i).spots id spot)
    (others : ∀ j, j ≠ i → (faces' j).spots = (faces j).spots)
    (keeps : ∀ {j id' spot node}, id' ≠ id → Shows g s.world (s.clients j) id' spot node →
      Shows g t.world (t.clients j) id' spot node)
    (passable : ∀ {node}, s.world.files.node? (g.place id) = some node →
      (∀ inode, node ≠ .file inode) → g.Gone (g.place id))
    (linkless : ∀ target, spot ≠ some (.link target))
    (owners : ∀ {j r}, r ∈ (t.clients j).registries → (t.world.registry r).id ≠ id →
      r ∈ (s.clients j).registries ∧ (t.world.registry r).id = (s.world.registry r).id) :
    Terrain g t faces' := by
  have same {j : ι} {id' : String} (ne : id' ≠ id) :
      (faces' j).spots id' = (faces j).spots id' := by
    by_cases self : j = i
    · subst self
      rw [spots, Function.update_of_ne ne]
    · rw [others j self]
  have changed {j : ι} (mine' : g.own j id) : (faces' j).spots id = spot := by
    rw [fair.apart mine' mine, spots, Function.update_self]
  refine ⟨fun {j id'} mine' => ?_, fun {place} other => ?_, fun _ => ?_, fun e => ?_,
    fun {j id' target} mine' placed => ?_⟩
  · by_cases self : id' = id
    · subst self
      obtain rfl := fair.apart mine' mine
      rwa [changed mine']
    · rw [same self, elsewhere (g.place_ne self)]
      exact keeps self (h.shows mine')
  · rw [elsewhere (other i id mine), h.elsewhere other]
  · obtain ⟨part, opens, stands⟩ := h.way made
    refine ⟨part, opens, fun {place node} placed nofile => ?_⟩
    obtain ⟨stood, kept⟩ := stands placed nofile
    refine ⟨(elsewhere ?_).trans stood, kept⟩
    rintro rfl
    exact kept (passable stood nofile)
  · rw [made] at e
    cases e
  · have other : id' ≠ id := by
      rintro rfl
      exact linkless target ((changed mine').symm.trans placed)
    rw [same other] at placed
    obtain ⟨stood, first⟩ := h.links mine' placed
    refine ⟨stood, fun r mem named => ?_⟩
    obtain ⟨mem', as_before⟩ := owners mem (named ▸ other)
    exact first r mem' (as_before.symm.trans named)

/-- A file has been made for a new registry. -/
theorem enter (h : Terrain g s faces) (fair : g.Fair) (mine : g.own i id)
    (possible : (faces i).making g id = .ok ())
    (node : ∀ place, t.world.files.node? place =
      (s.world.files.putNewFile (g.place id) []).node? place)
    (numbered : g.inodes ≤ s.world.files.contents.length)
    (entered : (t.clients i).registries = (s.clients i).registries ++ [r])
    (named : (t.world.registry r).id = id)
    (handle : (t.world.registry r).handle? = some s.world.files.contents.length)
    (clients : ∀ j, j ≠ i → (t.clients j).registries = (s.clients j).registries)
    (registries : ∀ j, ∀ r ∈ (s.clients j).registries, t.world.registry r = s.world.registry r)
    (spots : (faces' i).spots = Function.update (faces i).spots id
      (some (.file (.own (s.clients i).registries.length))))
    (others : ∀ j, j ≠ i → (faces' j).spots = (faces j).spots) : Terrain g t faces' := by
  obtain ⟨made, ⟨place, located⟩, vacant⟩ := Face.making_eq_ok_iff.mp possible
  have more (j : ι) : (s.clients j).registries <+: (t.clients j).registries := by
    by_cases self : j = i
    · exact self ▸ entered ▸ List.prefix_append ..
    · exact clients j self ▸ List.prefix_refl _
  refine h.alter fair mine made (fun {place} ne => ?_) ?_ spots others
    (fun _ shown => shown.keep (more _) fun _ stands _ => ?_) (fun stood _ => ?_) (by simp)
    (fun {j r'} mem ne => ?_)
  · rw [node, node?_putNewFile, node?_put, if_neg ne]
    split
    · rename_i root
      rw [root]
      rfl
    · rfl
  · have here : t.world.files.node? (g.place id) = some (.file s.world.files.contents.length) := by
      rw [node, node?_putNewFile, node?_put, if_neg (g.place_ne_nil id), if_pos rfl]
    rw [here]
    exact .own (by simp [entered]) named handle numbered ⟨place, located⟩
  · rw [registries _ _ (List.mem_of_getElem? stands)]
    exact ⟨rfl, rfl⟩
  · have shown := h.shows mine
    rw [vacant, stood] at shown
    cases shown
  · have before : r' ∈ (s.clients j).registries := by
      by_cases self : j = i
      · subst self
        rw [entered] at mem
        refine (List.mem_append.mp mem).resolve_right fun last => ne ?_
        rw [List.mem_singleton.mp last, named]
      · rwa [clients j self] at mem
    exact ⟨before, congrArg Registry.id (registries j r' before)⟩

/-- What stood under the identifier of a registry has been unlinked. -/
theorem remove (h : Terrain g s faces) (fair : g.Fair) (mine : g.own i id)
    (held : Holdable id) (possible : (faces i).unlinking g id = .ok ())
    (mem : r ∈ (s.clients i).registries) (named : (s.world.registry r).id = id)
    (entries : t.world.files.entries = (s.world.files.remove (g.place id)).entries)
    (clients : ∀ j, (t.clients j).registries = (s.clients j).registries)
    (extended : Extends s.world t.world) (first : Extends g.start.world s.world)
    (there : ∀ {i r}, r ∈ (s.clients i).registries → r.index < s.world.registries.length)
    (registries : ∀ j, ∀ r' ∈ (s.clients j).registries, r' ≠ r →
      t.world.registry r' = s.world.registry r')
    (spots : (faces' i).spots = Function.update (faces i).spots id none)
    (others : ∀ j, j ≠ i → (faces' j).spots = (faces j).spots) : Terrain g t faces' := by
  obtain ⟨⟨place, located⟩, filled, other⟩ := Face.unlinking_eq_ok_iff.mp possible
  obtain ⟨made, rfl⟩ := fair.entry_eq_ok held located
  have node (place : Place) : t.world.files.node? place =
      (s.world.files.remove (g.place id)).node? place := node?_congr entries place
  refine h.alter fair mine made (fun {place} ne => ?_) ?_ spots others
    (fun {j id' spot node} ne shown => ?_) (fun stood nofile => ?_) (by simp)
    (fun {j r'} mem' _ => ?_)
  · rw [node, node?_remove, if_neg fun e => ne e.1]
  · rw [node, node?_remove, if_pos ⟨rfl, g.place_ne_nil id⟩]
    exact .none
  · refine shown.keep (clients j ▸ List.prefix_refl _) fun {k r'} _ stands named' => ?_
    have ne : r' ≠ r := by
      rintro rfl
      exact ne (named'.symm.trans named)
    rw [registries j r' (List.mem_of_getElem? stands) ne]
    exact ⟨rfl, rfl⟩
  · -- What the release unlinks is a file, or a link that was there from the start.
    have shown := h.shows mine
    rw [stood] at shown
    generalize stands : (faces i).spots id = spot at shown
    cases shown with
    | directory => exact absurd stands other
    | old | own => exact absurd rfl (nofile _)
    | link =>
        obtain ⟨stood, before⟩ := h.links mine stands
        have old := before r mem named
        have owned := (fair.owns i).registry old
        rw [first.id owned.1] at named
        refine ⟨_, _, ⟨i, r, old, rfl⟩, ?_, stood⟩
        rw [owned.2.2.2, named]
        exact located
  · rw [clients] at mem'
    exact ⟨mem', extended.id (there mem')⟩

end Terrain

end InDoubt

import InDoubt.Proofs.Incarnations
import InDoubt.Proofs.Serving
import InDoubt.Proofs.Sifting

/-!
Crash recovery. While a directory is served by one process after the other, it holds under each
identifier the records of the incarnation that has any (`Chronicled`): recording appends to both,
the release of the last branch ends the incarnation and removes the file, and neither a crash nor a
scan changes what is recorded. The first scan of a new process therefore recovers exactly the
incarnations that have locators and have not ended (`scan_exact`).
-/

namespace InDoubt.World

open FileSystem

variable {v w : World} {p q : ProcessRef} {r : RegistryRef} {b : BranchRef} {s : Step}
  {dir : String} {alive : List Incarnation} {place top : Place} {inode : Nat} {xid : Xid}
  {l : Locator}

/-- No registry file is in the directory, if it exists, and none comes to light there when it is
made: what is missing on a path with steps up may hide a directory that is there. -/
structure Vacant (fs : FileSystem) (dir : String) : Prop where
  listed : fs.registryFiles dir = .ok []
  made : (fs.makeDirectories (Utf8.encode dir)).2.registryFiles dir = .ok []

theorem Vacant.again {fs : FileSystem} (h : Vacant fs dir) (sound : fs.Sound) :
    Vacant (fs.makeDirectories (Utf8.encode dir)).2 dir := by
  refine ⟨h.made, ?_⟩
  rw [makeDirectories_fixed sound]
  exact h.made

/-- Takes a step to the incarnations that have not ended. -/
def incarnate (w : World) (s : Step) (alive : List Incarnation) : List Incarnation :=
  match s, (w.step s).1 with
  | .create _ xid, .registry r => alive ++ [⟨r, xid, []⟩]
  | .record r l, .done => alive.map (·.record r l)
  | .enlist r l _, .branch _ => alive.map (·.record r l)
  | _, _ =>
      match w.releasesFrom? s with
      | some r =>
          if (w.registry r).count = 1 then alive.filter (·.id ≠ (w.registry r).id) else alive
      | none => alive

/-- The incarnations that have started in a run and have not ended. -/
def incarnations (steps : List Step) (start : World) : List Incarnation :=
  observe incarnate steps start []

/-- The directory holds the records of the incarnations. Before the first registry there may be no
directory. -/
def Lodged (dir : String) (alive : List Incarnation) (registries : List Registry)
    (fs : FileSystem) : Prop :=
  (alive = [] ∧ registries = [] ∧ Vacant fs dir) ∨ ∃ top, fs.Holding dir top (recordsOf alive)

/-- The incarnations account for the created registries of the running process and for what is in
the directory. -/
structure Chronicled (dir : String) (w : World) (alive : List Incarnation) : Prop where
  separate : Separate alive
  faithful : ∀ {i l}, i ∈ alive → l ∈ i.locators → l.Faithful
  stores : ∀ {i}, i ∈ alive → i.store.index < w.registries.length ∧
    (w.registry i.store).id = i.id ∧ (w.registry i.store).path = joinPath dir i.id
  current : ∀ {p r}, w.Runs p → Unspent p w r → (w.registry r).isLive = true →
    ∃ i ∈ alive, i.store = r ∧ recordsOf alive i.id = i.locators
  lodged : Lodged dir alive w.registries w.files

namespace Lodged

variable {fs tree : FileSystem} {registries : List Registry}

theorem made (h : Lodged dir alive registries fs) (sound : fs.Sound) :
    Lodged dir alive registries (fs.makeDirectories (Utf8.encode dir)).2 := by
  rcases h with ⟨unregistered, empty, vacant⟩ | ⟨top, holding⟩
  · exact .inl ⟨unregistered, empty, vacant.again sound⟩
  · have alters : Alters fs (fs.makeDirectories (Utf8.encode dir)).2 (fun _ => False)
        fun _ => False := .makeDirectories ..
    exact .inr ⟨top, holding.alter alters (sound.makeDirectories _)
      (length_contents_makeDirectories ..) fun _ => not_false⟩

/-- Where a registry has been entered the directory is there. -/
theorem of_lt (h : Lodged dir alive registries fs) (lt : r.index < registries.length) :
    ∃ top, fs.Holding dir top (recordsOf alive) := by
  rcases h with ⟨-, empty, -⟩ | there
  · rw [empty] at lt
    exact absurd lt (Nat.not_lt_zero _)
  · exact there

/-- Once the directory has been made it is there. -/
theorem ready (h : Lodged dir alive registries fs) (sound : fs.Sound)
    (named : Utf8.encode dir ≠ []) (e : fs.makeDirectories (Utf8.encode dir) = (.ok (), tree)) :
    tree.Sound ∧ ∃ top, tree.Holding dir top (recordsOf alive) := by
  have sound' := sound.makeDirectories (Utf8.encode dir)
  have lodged := h.made sound
  rw [e] at sound' lodged
  refine ⟨sound', ?_⟩
  rcases lodged with ⟨rfl, -, vacant⟩ | there
  · obtain ⟨checked, top, opens⟩ := Opens.of_makeDirectories named e
    obtain ⟨ids, listed, ids_iff⟩ := opens.registryFiles sound' checked
    rw [vacant.listed] at listed
    cases listed
    refine ⟨top, opens, checked, ?_, ?_⟩
    · intro id inode stands
      exact absurd ((ids_iff id).mpr ⟨inode, stands⟩) List.not_mem_nil
    · intro id filled
      exact absurd rfl filled
  · exact there

end Lodged

theorem Backed.place_eq (h : Backed w r place inode) (sound : w.files.Sound)
    (opens : w.files.Opens dir top) (path : (w.registry r).path = joinPath dir (w.registry r).id) :
    place = Utf8.encode (w.registry r).id :: top := by
  have named := h.named
  cases place with
  | nil => cases named
  | cons name above =>
      obtain rfl : name = Utf8.encode (w.registry r).id := Option.some.inj named
      have located := h.home.located
      rw [path] at located
      exact ((opens.locateEntry_iff (sound.holdable h.home.file)).mp located).2.2

/-- Unless the step enters one, an unspent registry is an old one. -/
theorem old_of_unspent (alone : Sheltered p w s) (entering : enters s = false)
    (hr : Unspent p (w.step s).2 r) : Unspent p w r ∧ ¬w.Ends s r := by
  rcases (Backing.unspent_step alone.1).mp hr with old | ⟨ge, lt, -⟩
  · exact old
  · rw [length_registries_step entering] at lt
    exact absurd lt (Nat.not_lt.mpr ge)

/-- The store of an incarnation keeps its identifier and its path. -/
theorem Extends.stores {i : Incarnation} (extended : Extends w v)
    (h : i.store.index < w.registries.length ∧ (w.registry i.store).id = i.id ∧
      (w.registry i.store).path = joinPath dir i.id) :
    i.store.index < v.registries.length ∧ (v.registry i.store).id = i.id ∧
      (v.registry i.store).path = joinPath dir i.id := by
  obtain ⟨lt, id, path⟩ := h
  exact ⟨Nat.lt_of_lt_of_le lt extended.registries, (extended.id lt).trans id,
    (extended.path lt).trans path⟩

namespace Chronicled

/-- Nothing is created, recorded or ended. -/
theorem keep (h : Chronicled dir w alive) (extended : Extends w v)
    (old : ∀ {p r}, v.Runs p → Unspent p v r → (v.registry r).isLive = true →
      w.Runs p ∧ Unspent p w r)
    (lodged : Lodged dir alive v.registries v.files) : Chronicled dir v alive where
  separate := h.separate
  faithful := h.faithful
  stores hi := extended.stores (h.stores hi)
  current {p r} runs hr live := by
    obtain ⟨before, hr'⟩ := old runs hr live
    rw [extended.isLive hr'.1] at live
    exact h.current before hr' live
  lodged := lodged

theorem openLog (h : Chronicled dir w alive) (crewed : Crewed dir w) (idle : w.Idle)
    (config : Config) (node : String) : Chronicled dir (w.openLog config node).2 alive := by
  refine h.keep (extends_step w (.openLog config node)) ?_ h.lodged
  intro p r runs hr _
  rcases runs_openLog runs with before | rfl
  · exact absurd before idle.not_runs
  · have own := crewed.owners (r := r) hr.1
    rw [show (w.registry r).owner = ⟨w.processes.length⟩ from hr.2.1] at own
    exact absurd own (Nat.lt_irrefl _)

theorem crash (h : Chronicled dir w alive) (crewed : Crewed dir w) (runs : w.Runs q) :
    Chronicled dir (w.crash q) alive := by
  refine h.keep (extends_crash w q) ?_ ?_
  · intro p r still _ _
    obtain ⟨before, other⟩ := runs_crash still
    exact absurd (crewed.sole before runs) other
  · rcases h.lodged with ⟨unregistered, empty, vacant⟩ | ⟨top, holding⟩
    · refine .inl ⟨unregistered, by simp [World.crash, empty], ?_⟩
      simp only [World.crash, empty, List.filter_nil, List.filterMap_nil, unlock_nil]
      exact vacant
    · exact .inr ⟨top, holding.congr rfl rfl⟩

/-- The files stay as they are, and no registry is entered. -/
theorem quiet (h : Chronicled dir w alive) (alone : Sheltered p w s)
    (only : ∀ {q}, (w.step s).2.Runs q → w.Runs q ∧ q = p) (entering : enters s = false)
    (files : (w.step s).2.files = w.files) : Chronicled dir (w.step s).2 alive := by
  refine h.keep (extends_step w s) ?_ ?_
  · intro q r still hr _
    obtain ⟨before, rfl⟩ := only still
    exact ⟨before, (old_of_unspent alone entering hr).1⟩
  · rw [files]
    rcases h.lodged with ⟨unregistered, empty, vacant⟩ | holding
    · refine .inl ⟨unregistered, ?_, vacant⟩
      rw [← List.length_eq_zero_iff, length_registries_step entering, empty]
      rfl
    · exact .inr holding

/-- A scan removes no file that has records. -/
theorem scan (h : Chronicled dir w alive) (crewed : Crewed dir w) (runs : w.Runs p) :
    Chronicled dir (w.scan p []).2 alive := by
  have alone : Sheltered p w (.scan p []) := ⟨⟨runs, trivial⟩, rfl, rfl⟩
  refine h.keep (extends_scan w p []) ?_ ?_
  · intro q r still hr live
    have before := (settled_scan w p []).runs_iff.mp still
    obtain rfl := crewed.sole before runs
    rcases (Backing.unspent_step alone.1).mp hr with old | ⟨ge, lt, -⟩
    · exact ⟨before, old.1⟩
    · obtain ⟨_, _, recovered⟩ := registry_scan_new q [] ge lt
      have unlive := (congrArg Registry.isLive recovered).symm.trans live
      cases unlive
  · rcases h.lodged with ⟨unregistered, empty, vacant⟩ | ⟨top, holding⟩
    · refine .inl ⟨unregistered, ?_⟩
      simp only [World.scan, crewed.located runs, vacant.listed, recoverAll]
      exact ⟨empty, vacant⟩
    · have scanned := scanned_scan crewed.sound runs.1
      have size : (w.scan p []).2.files.contents.length = w.files.contents.length := by
        rw [scanned.contents]
      refine .inr ⟨top, holding.alter scanned.alters scanned.sound size ?_⟩
      rintro id filled ⟨id', inode, content, -, named, stands, decoded, parsed⟩
      obtain rfl := Utf8.encode_injective (Option.some.inj named)
      have records : ∀ l ∈ recordsOf alive id, l.Faithful := by
        intro l mem
        obtain ⟨i, hi, -, e⟩ := exists_of_recordsOf filled
        exact h.faithful hi (e ▸ mem)
      rw [(holding.file stands).2, recordBytes, Utf8.decode?_encode] at decoded
      cases decoded
      rw [Record.parse_contentOf_of_faithful records] at parsed
      exact filled (Except.ok.inj parsed)

/-- A registry is created, and starts an incarnation without records. -/
theorem created (h : Chronicled dir w alive) (crewed : Crewed dir w) (runs : w.Runs p) (xid : Xid)
    {tree made : FileSystem} (ready : w.files.makeDirectories (Utf8.encode dir) = (.ok (), tree))
    (e : tree.createNew (Utf8.encode (joinPath dir xid.name)) = .ok (inode, made))
    (e' : (w.step (.create p xid)).2 =
      w.enter p (made.lock inode) xid.name (joinPath dir xid.name) inode) :
    Chronicled dir (w.step (.create p xid)).2 (alive ++ [⟨⟨w.registries.length⟩, xid, []⟩]) := by
  have alone : Sheltered p w (.create p xid) := ⟨⟨runs, trivial⟩, rfl⟩
  have extended := extends_step w (.create p xid)
  obtain ⟨sound, top, there⟩ := h.lodged.ready crewed.sound (crewed.named runs) ready
  obtain ⟨holding, nothing⟩ := there.create xid.holdable_name sound e
  have entered : (w.step (.create p xid)).2.registries =
      w.registries ++ [⟨p, xid.name, joinPath dir xid.name, .created (some inode), 0⟩] := by
    rw [e']
    rfl
  have new := registry_append_new entered
  refine ⟨?_, ?_, ?_, ?_, ?_⟩
  · refine h.separate.create ?_
    intro i hi own
    have lt := (h.stores hi).1
    rw [own] at lt
    exact Nat.lt_irrefl _ lt
  · intro i l hi mem
    rcases List.mem_append.mp hi with hi | hi
    · exact h.faithful hi mem
    · rw [List.mem_singleton.mp hi] at mem
      cases mem
  · intro i hi
    rcases List.mem_append.mp hi with hi | hi
    · exact extended.stores (h.stores hi)
    · rw [List.mem_singleton.mp hi]
      refine ⟨by simp [entered], ?_, ?_⟩ <;> rw [new]
      · rfl
      · rfl
  · intro q r still hr live
    have before := (settled_step w (s := .create p xid) rfl).runs_iff.mp still
    obtain rfl := crewed.sole before runs
    rcases (Backing.unspent_step alone.1).mp hr with ⟨old, -⟩ | ⟨ge, lt, -⟩
    · rw [extended.isLive old.1] at live
      obtain ⟨i, hi, own, records⟩ := h.current before old live
      exact ⟨i, List.mem_append_left _ hi, own, (recordsOf_create _).trans records⟩
    · obtain rfl := eq_new entered ge lt
      refine ⟨_, List.mem_append_right _ (List.mem_singleton.mpr rfl), rfl, ?_⟩
      exact (recordsOf_create _).trans nothing
  · have records : recordsOf (alive ++ [⟨⟨w.registries.length⟩, xid, []⟩]) = recordsOf alive := by
      funext id
      exact recordsOf_create id
    refine .inr ⟨top, ?_⟩
    rw [records, e']
    exact holding.congr rfl rfl

theorem create (h : Chronicled dir w alive) (crewed : Crewed dir w) (runs : w.Runs p) (xid : Xid) :
    Chronicled dir (w.step (.create p xid)).2 (incarnate w (.create p xid) alive) := by
  obtain ⟨f, files, made, failed⟩ | ⟨tree, inode, made, -, ready, e, entered⟩ :=
    createIn_cases w p dir xid
  · have outcome : w.step (.create p xid) = (.failed f, { w with files }) := by
      simp only [World.step, World.create, crewed.located runs, failed]
      rfl
    have same : incarnate w (.create p xid) alive = alive := by
      simp only [incarnate, outcome]
      rfl
    rw [same, outcome]
    refine h.keep (.of_eq rfl rfl rfl) ?_ ?_
    · exact fun runs hr _ => ⟨runs, hr⟩
    · rcases made with rfl | rfl
      · exact h.lodged
      · exact h.lodged.made crewed.sound
  · have outcome : w.step (.create p xid) = (.registry ⟨w.registries.length⟩,
        w.enter p (made.lock inode) xid.name (joinPath dir xid.name) inode) := by
      simp only [World.step, World.create, crewed.located runs, entered]
      rfl
    have more : incarnate w (.create p xid) alive =
        alive ++ [⟨⟨w.registries.length⟩, xid, []⟩] := by
      simp only [incarnate, outcome]
    rw [more]
    exact h.created crewed runs xid ready e (congrArg Prod.snd outcome)

/-- A locator is recorded in a created registry, in its file and in its incarnation. -/
theorem recorded (h : Chronicled dir w alive) (crewed : Crewed dir w) (runs : w.Runs p)
    (alone : Sheltered p w s) (into : recordsIn? s = some r) (live : (w.registry r).isLive = true)
    (faithful : l.Faithful) (settled : Settled w (w.step s).2) (entering : enters s = false)
    (files : (w.step s).2.files = (w.record r l).2.files) :
    Chronicled dir (w.step s).2 (alive.map (·.record r l)) := by
  have extended := extends_step w s
  have hr := Backing.recordsIn?_unspent alone into
  have backing := crewed.backing runs
  obtain ⟨i, hi, rfl, current⟩ := h.current runs hr live
  refine ⟨h.separate.record hi current, ?_, ?_, ?_, ?_⟩
  · intro k l' mem mem'
    obtain ⟨j, hj, rfl⟩ := List.mem_map.mp mem
    unfold Incarnation.record at mem'
    split at mem'
    · rcases List.mem_append.mp mem' with earlier | last
      · exact h.faithful hj earlier
      · exact List.mem_singleton.mp last ▸ faithful
    · exact h.faithful hj mem'
  · intro k mem
    obtain ⟨j, hj, rfl⟩ := List.mem_map.mp mem
    rw [Incarnation.store_record, Incarnation.id_record]
    exact extended.stores (h.stores hj)
  · intro q r' still hr' live'
    obtain rfl := crewed.sole (settled.runs_iff.mp still) runs
    have old := (old_of_unspent alone entering hr').1
    rw [extended.isLive old.1] at live'
    obtain ⟨j, hj, rfl, records⟩ := h.current runs old live'
    refine ⟨j.record i.store l, List.mem_map_of_mem hj, Incarnation.store_record .., ?_⟩
    rw [Incarnation.id_record, recordsOf_record h.separate hi current]
    by_cases named : j.id = i.id
    · have ids : (w.registry j.store).id = (w.registry i.store).id := by
        rw [(h.stores hj).2.1, (h.stores hi).2.1, named]
      obtain rfl := h.separate.eq_of_store hj hi (backing.owned.distinct old hr ids)
      rw [if_pos rfl, records]
      simp [Incarnation.record]
    · have other : j.store ≠ i.store := fun own =>
        named (congrArg _ (h.separate.eq_of_store hj hi own))
      rw [if_neg named, Incarnation.record_of_ne other, records]
  · obtain ⟨top, holding⟩ := h.lodged.of_lt hr.1
    obtain ⟨place, inode, backed⟩ := backing.backed hr
    have stands := backed.home.file
    rw [backed.place_eq crewed.sound holding.opens (crewed.paths runs hr),
      (h.stores hi).2.1] at stands
    refine .inr ⟨top, ?_⟩
    rw [files, files_record, backed.handle live]
    refine holding.append crewed.sound stands ?_ ?_
    · rw [recordsOf_record h.separate hi current, if_pos rfl]
    · intro other apart
      rw [recordsOf_record h.separate hi current, if_neg apart]

/-- The last branch of a registry is released. The incarnation ends and its file is removed. -/
theorem ended (h : Chronicled dir w alive) (crewed : Crewed dir w) (runs : w.Runs p)
    (alone : Sheltered p w s) (own : (w.registry r).owner = p) (ends : w.Ends s r)
    (settled : Settled w (w.step s).2) (entering : enters s = false) :
    Chronicled dir (w.step s).2 (alive.filter (·.id ≠ (w.registry r).id)) := by
  have extended := extends_step w s
  have backing := crewed.backing runs
  have hr := Backing.unspent_of_count own (by rw [ends.2]; exact Nat.one_ne_zero)
  refine ⟨h.separate.finish _, ?_, ?_, ?_, ?_⟩
  · exact fun hi => h.faithful (List.mem_filter.mp hi).1
  · intro i hi
    exact extended.stores (h.stores (List.mem_filter.mp hi).1)
  · intro q r' still hr' live
    obtain rfl := crewed.sole (settled.runs_iff.mp still) runs
    obtain ⟨old, stays⟩ := old_of_unspent alone entering hr'
    rw [extended.isLive old.1] at live
    obtain ⟨i, hi, rfl, records⟩ := h.current runs old live
    have apart : i.id ≠ (w.registry r).id := by
      intro named
      rw [← (h.stores hi).2.1] at named
      exact stays (backing.owned.distinct old hr named ▸ ends)
    refine ⟨i, List.mem_filter.mpr ⟨hi, by simpa using apart⟩, rfl, ?_⟩
    rw [recordsOf_finish, if_neg apart, records]
  · obtain ⟨top, holding⟩ := h.lodged.of_lt hr.1
    obtain ⟨b, same⟩ := step_eq_releaseFrom ends.1
    obtain ⟨place, inode, backed, -, files⟩ := backing.releaseFrom own ends.2 b
    have stands := backed.home.file
    rw [backed.place_eq crewed.sound holding.opens (crewed.paths runs hr)] at files stands
    have unlocked : (w.files.unlock (w.registry r).handle?.toList).Holding dir top
        (recordsOf alive) := holding.congr rfl rfl
    refine .inr ⟨top, ?_⟩
    rw [same]
    simp only [World.step, Prod.map_snd, id_eq, files]
    refine unlocked.remove (crewed.sound.congr rfl rfl) stands ?_ ?_
    · rw [recordsOf_finish, if_pos rfl]
    · intro other apart
      rw [recordsOf_finish, if_neg apart]

/-- A release from a registry of the running process. -/
theorem release (h : Chronicled dir w alive) (crewed : Crewed dir w)
    (runs : w.Runs (w.registry r).owner) (alone : Sheltered (w.registry r).owner w s)
    (out : w.releasesFrom? s = some r) (settled : Settled w (w.step s).2)
    (entering : enters s = false) : Chronicled dir (w.step s).2
      (if (w.registry r).count = 1 then alive.filter (·.id ≠ (w.registry r).id) else alive) := by
  split
  · rename_i one
    exact h.ended crewed runs alone rfl ⟨out, one⟩ settled entering
  · rename_i more
    refine h.quiet alone ?_ entering ?_
    · intro q still
      have before := settled.runs_iff.mp still
      exact ⟨before, crewed.sole before runs⟩
    · obtain ⟨b, same⟩ := step_eq_releaseFrom out
      rw [same]
      simp only [World.step, Prod.map_snd, id_eq, releaseFrom_of_ne more]
      rfl

theorem record (h : Chronicled dir w alive) (crewed : Crewed dir w)
    (allowed : Serving dir w (.record r l)) :
    Chronicled dir (w.step (.record r l)).2 (incarnate w (.record r l) alive) := by
  obtain ⟨admitted, live, unspent, faithful⟩ := allowed
  have alone : Sheltered (w.registry r).owner w (.record r l) := ⟨⟨admitted, fun _ => unspent⟩, rfl⟩
  have succeeds := crewed.record_ok admitted.2 ⟨admitted.1, rfl, unspent⟩ live l
  have more : incarnate w (.record r l) alive = alive.map (·.record r l) := by
    simp only [incarnate, World.step, Prod.map_fst, succeeds]
    rfl
  rw [more]
  exact h.recorded crewed admitted.2 alone rfl live faithful (settled_step w rfl) rfl rfl

theorem enlist (h : Chronicled dir w alive) (crewed : Crewed dir w) {node : String}
    (allowed : Serving dir w (.enlist r l node)) :
    Chronicled dir (w.step (.enlist r l node)).2 (incarnate w (.enlist r l node) alive) := by
  obtain ⟨admitted, live, unspent, faithful⟩ := allowed
  have alone : Sheltered (w.registry r).owner w (.enlist r l node) :=
    ⟨⟨admitted, fun _ => unspent⟩, rfl⟩
  have succeeds := crewed.record_ok admitted.2 ⟨admitted.1, rfl, unspent⟩ live l
  obtain ⟨_, failed, -⟩ | ⟨-, e⟩ := enlist_cases w r l node
  · rw [succeeds] at failed
    cases failed
  · have more : incarnate w (.enlist r l node) alive = alive.map (·.record r l) := by
      simp only [incarnate, World.step, Prod.map_fst, e]
      rfl
    rw [more]
    exact h.recorded crewed admitted.2 alone rfl live faithful (settled_step w rfl) rfl
      (files_enlist ..)

/-- The incarnations account for the world after a step as well. -/
theorem step (h : Chronicled dir w alive) (crewed : Crewed dir w) (allowed : Serving dir w s) :
    Chronicled dir (w.step s).2 (incarnate w s alive) := by
  have still (settled : unsettles s = false) {p : ProcessRef} (runs : w.Runs p) {q : ProcessRef}
      (after : (w.step s).2.Runs q) : w.Runs q ∧ q = p := by
    have before := (settled_step w settled).runs_iff.mp after
    exact ⟨before, crewed.sole before runs⟩
  obtain ⟨admitted, quiet⟩ := id allowed
  cases s with
  | outside change | relocate q base | createIn q dir xid | hostSweep | claim q id | unclaim q id =>
      exact quiet.elim
  | openLog config node => exact h.openLog crewed quiet.2 config node
  | crash q => exact h.crash crewed admitted
  | create q xid => exact h.create crewed admitted xid
  | record r l => exact h.record crewed allowed
  | enlist r l node => exact h.enlist crewed allowed
  | release b =>
      exact h.release crewed admitted.2.2 ⟨⟨admitted, trivial⟩, rfl⟩ rfl (settled_step w rfl) rfl
  | releaseFrom r b =>
      exact h.release crewed admitted.1.2 ⟨⟨admitted, trivial⟩, rfl⟩ rfl (settled_step w rfl) rfl
  | scan q during | sweep q during =>
      obtain rfl : during = [] := quiet
      exact h.scan crewed admitted
  | bind r l node =>
      exact h.quiet ⟨⟨admitted, trivial⟩, trivial⟩ (still rfl admitted.2) rfl rfl
  | mark b => exact h.quiet ⟨⟨admitted, trivial⟩, trivial⟩ (still rfl admitted.2.2) rfl rfl
  | doubtVia r b => exact h.quiet ⟨⟨admitted, trivial⟩, trivial⟩ (still rfl admitted.1.2) rfl rfl
  | register q => exact h.quiet ⟨⟨admitted, trivial⟩, trivial⟩ (still rfl admitted) rfl rfl
  | unregister q =>
      exact h.quiet ⟨⟨admitted, trivial⟩, trivial⟩ (still rfl admitted) rfl (files_step rfl)
  | doubt q bs | settle q b =>
      exact h.quiet ⟨⟨admitted, trivial⟩, trivial⟩ (still rfl admitted.1) rfl rfl

end Chronicled

/-! Runs. -/

variable {steps : List Step} {changes : List FileStep} {config : Config} {node : String}

/-- The incarnations that have locators, in the order of their identifiers. -/
def lasting (alive : List Incarnation) : List Incarnation :=
  sort (fun i j => i.id ≤ j.id) (alive.filter (·.locators ≠ []))

theorem mem_lasting {i : Incarnation} : i ∈ lasting alive ↔ i ∈ alive ∧ i.locators ≠ [] := by
  simp [lasting, mem_sort]

theorem increasing_lasting (h : Separate alive) :
    ((lasting alive).map (·.id)).Pairwise (· ≤ ·) ∧ ((lasting alive).map (·.id)).Nodup := by
  have distinct : (lasting alive).Nodup :=
    (sort_perm _ _).nodup_iff.mpr (h.stores.of_map.filter _)
  refine ⟨pairwise_sort_names _ _, List.Nodup.map_on ?_ distinct⟩
  intro i hi j hj e
  obtain ⟨hi, nonempty⟩ := mem_lasting.mp hi
  obtain ⟨hj, nonempty'⟩ := mem_lasting.mp hj
  exact h.filled hi hj nonempty nonempty' e

/-- The identifiers of incarnations with locators are those of files with records. -/
theorem map_id_lasting (h : Separate alive) {ids : List String} (increasing : ids.Pairwise (· ≤ ·))
    (once : ids.Nodup) (filed : ∀ id, recordsOf alive id ≠ [] → id ∈ ids) :
    (lasting alive).map (·.id) = recorded (recordsOf alive) ids := by
  obtain ⟨sorted, single⟩ := increasing_lasting h
  refine eq_of_increasing sorted (increasing.sublist List.filter_sublist) single
    (once.filter _) ?_
  intro id
  simp only [List.mem_map, mem_lasting, recorded, List.mem_filter, decide_eq_true_eq]
  constructor
  · rintro ⟨i, ⟨hi, nonempty⟩, rfl⟩
    have records := h.recordsOf_of_mem hi nonempty
    exact ⟨filed _ (records ▸ nonempty), records ▸ nonempty⟩
  · rintro ⟨-, filled⟩
    obtain ⟨i, hi, named, e⟩ := exists_of_recordsOf filled
    exact ⟨i, ⟨hi, e ▸ filled⟩, named⟩

theorem recoveredBranches_eq {records : String → List Locator} {found : List Incarnation}
    (h : ∀ i ∈ found, records i.id = i.locators) (first : Nat) :
    recoveredBranches records node (found.map (·.id)) first =
      ((registryRefs first found.length).zip found).flatMap fun (r, i) =>
        i.locators.map (Branch.mk · node r) := by
  induction found generalizing first with
  | nil => rfl
  | cons i rest ih =>
      rw [List.map_cons, List.length_cons, registryRefs_succ, List.zip_cons_cons,
        List.flatMap_cons, recoveredBranches, h i List.mem_cons_self,
        ih fun j hj => h j (List.mem_cons_of_mem _ hj)]

theorem chronicled_along (vacant : Vacant (FileSystem.empty.applyAll changes) dir)
    (h : Along (Serving dir) steps (ofFiles (FileSystem.empty.applyAll changes))) :
    let start := ofFiles (FileSystem.empty.applyAll changes)
    Crewed dir (after steps start) ∧
      Chronicled dir (after steps start) (incarnations steps start) := by
  intro start
  refine along_induction (P := Serving dir)
    (I := fun past w => Crewed dir w ∧ Chronicled dir w (incarnations past start)) ?_ ?_ steps h
  · have nobody {p : ProcessRef} : ¬start.Runs p := fun runs => Nat.not_lt_zero _ runs.1
    refine ⟨⟨FileSystem.Sound.empty.applyAll changes, ?_, ?_, ?_, ?_, ?_, ?_⟩, ?_⟩
    · exact fun lt => absurd lt (Nat.not_lt_zero _)
    · exact fun runs => absurd runs nobody
    · exact fun runs => absurd runs nobody
    · exact fun runs => absurd runs nobody
    · exact fun runs => absurd runs nobody
    · exact fun runs => absurd runs nobody
    · exact ⟨.nil, nofun, nofun, fun runs => absurd runs nobody, .inl ⟨rfl, rfl, vacant⟩⟩
  · intro past s _ allowed both
    obtain ⟨crewed, chronicled⟩ := both
    refine ⟨crewed.step allowed, ?_⟩
    unfold incarnations
    rw [observe_concat]
    exact chronicled.step crewed allowed

/-- What a scan reports and leaves that recovers these incarnations, of which nothing was in doubt
before. -/
structure RecoversAll (q : ProcessRef) (dir node : String) (found : List Incarnation)
    (o : ScanReport) (v : World) : Prop where
  failures : o.failures = []
  registries : o.recovered.map v.registry =
    found.map fun i => recoveredRegistry q dir i.id i.locators
  inDoubt : (v.process q).inDoubt.map v.branch = (o.recovered.zip found).flatMap fun (r, i) =>
    i.locators.map (Branch.mk · node r)

/-- The first scan of a process that does not serve yet. -/
theorem recoversAll_scan (crewed : Crewed dir w) (chronicled : Chronicled dir w alive)
    (runs : w.Runs q) (free : (w.process q).openIds = .empty) (clear : (w.process q).inDoubt = []) :
    ∃ o v, w.scan q [] = (.ok o, v) ∧
      RecoversAll q dir (w.process q).node (lasting alive) o v := by
  have located := crewed.located runs
  rcases chronicled.lodged with ⟨rfl, -, vacant⟩ | ⟨top, holding⟩
  · refine ⟨⟨[], []⟩, w, ?_, rfl, rfl, ?_⟩
    · simp only [World.scan, located, vacant.listed, recoverAll]
      rfl
    · rw [clear]
      rfl
  · obtain ⟨ids, listed, ids_iff⟩ := holding.opens.registryFiles crewed.sound holding.checked
    obtain ⟨increasing, once⟩ := increasing_registryFiles crewed.sound listed
    have faithful (id : String) (l : Locator) (mem : l ∈ recordsOf alive id) : l.Faithful := by
      obtain ⟨i, hi, -, e⟩ := exists_of_recordsOf (List.ne_nil_of_mem mem)
      exact chronicled.faithful hi (e ▸ mem)
    have recovers : Recovers q dir (recordsOf alive) ids w (recoverAll q dir ids w).1
        (recoverAll q dir ids w).2 :=
      recovers_recoverAll runs.1 crewed.sound holding faithful once
        (fun id _ => free ▸ OpenSet.not_mem_empty id) fun id mem => (ids_iff id).mp mem
    have scanned : w.scan q [] = (.ok (recoverAll q dir ids w).1, (recoverAll q dir ids w).2) := by
      simp only [World.scan, located, listed]
      rfl
    have records : ∀ i ∈ lasting alive, recordsOf alive i.id = i.locators := by
      intro i mem
      obtain ⟨hi, nonempty⟩ := mem_lasting.mp mem
      exact chronicled.separate.recordsOf_of_mem hi nonempty
    have named := map_id_lasting chronicled.separate increasing once
      fun id filled => (ids_iff id).mpr (holding.kept filled)
    have number : (recorded (recordsOf alive) ids).length = (lasting alive).length := by
      rw [← named, List.length_map]
    refine ⟨_, _, scanned, recovers.failures, ?_, ?_⟩
    · have entered := map_registry_refs recovers.registries
      rw [List.length_map] at entered
      rw [recovers.recovered, entered, ← named, List.map_map]
      refine List.map_congr_left ?_
      intro i mem
      simp only [Function.comp_apply, records i mem]
    · rw [recovers.inDoubt, clear, List.nil_append, map_branch_refs recovers.branches,
        recovers.recovered, number, ← named]
      exact recoveredBranches_eq records _

/-- After any number of processes have served a directory that was empty or missing at first, the
first scan of a new one recovers exactly the incarnations that have locators and have not ended, in
the order of their identifiers, each with its identifier, its path and its transaction, and with all
its locators in doubt. -/
theorem scan_exact (vacant : Vacant (FileSystem.empty.applyAll changes) dir)
    (h : Along (Serving dir) (steps ++ [.openLog config node])
      (ofFiles (FileSystem.empty.applyAll changes))) :
    let start := ofFiles (FileSystem.empty.applyAll changes)
    let w := after (steps ++ [.openLog config node]) start
    let q : ProcessRef := ⟨(after steps start).processes.length⟩
    let found := lasting (incarnations steps start)
    (∃ o v, w.scan q [] = (.ok o, v) ∧ RecoversAll q dir node found o v) ∧
      (found.map (·.id)).Pairwise (· < ·) ∧
      ∀ i ∈ found, (w.registry i.store).id = i.id ∧ (w.registry i.store).path = joinPath dir i.id ∧
        (recoveredRegistry q dir i.id i.locators).xid? = some i.xid := by
  intro start w q found
  obtain ⟨earlier, stands, idle⟩ := (along_concat.mp h).imp_right And.right
  obtain ⟨crewed, chronicled⟩ := chronicled_along vacant earlier
  have opened : w = ((after steps start).openLog config node).2 := by
    simp only [w, after_append]
    rfl
  have new : w.process q = ⟨config.dir, node, .empty, [], false, true⟩ := by
    rw [opened]
    exact process_append_new rfl
  have runs : w.Runs q := by
    refine ⟨?_, by rw [new]⟩
    rw [opened]
    simp [World.openLog, q]
  have crewed' : Crewed dir w := opened ▸ crewed.openLog idle node stands
  have chronicled' : Chronicled dir w (incarnations steps start) :=
    opened ▸ chronicled.openLog crewed idle config node
  refine ⟨?_, ?_, ?_⟩
  · have recovered := recoversAll_scan crewed' chronicled' runs (by rw [new]) (by rw [new])
    rw [new] at recovered
    exact recovered
  · obtain ⟨sorted, single⟩ := increasing_lasting chronicled'.separate
    refine (sorted.and single).imp ?_
    intro id id' both
    exact String.not_le.mp fun ge => both.2 (String.le_antisymm both.1 ge)
  · intro i mem
    obtain ⟨-, id, path⟩ := chronicled'.stores (mem_lasting.mp mem).1
    have parsed : Xid.parse (recoveredRegistry q dir i.id i.locators).id = .ok i.xid :=
      i.xid.parse_name
    refine ⟨id, path, ?_⟩
    rw [Registry.xid?, parsed]
    rfl

/-- A process records two branches of a transaction, releases one of them, and crashes. -/
def crashed : List Step :=
  [.openLog {} "n", .create ⟨0⟩ .sample, .enlist ⟨0⟩ .sample "n", .enlist ⟨0⟩ .sample "n",
    .release ⟨0⟩, .crash ⟨0⟩]

/-- The next process recovers both. -/
theorem scan_exact_crashed :
    let dir := Config.dir {}
    let start := ofFiles (FileSystem.empty.applyAll [])
    let steps := crashed ++ [.openLog {} "n"]
    Vacant (FileSystem.empty.applyAll []) dir ∧ Along (Serving dir) steps start ∧
      ∃ o v, (after steps start).scan ⟨1⟩ [] = (.ok o, v) ∧
        RecoversAll ⟨1⟩ dir "n" [⟨⟨0⟩, .sample, [.sample, .sample]⟩] o v := by
  intro dir start steps
  have vacant : Vacant (FileSystem.empty.applyAll []) dir :=
    ⟨by decide +kernel, by decide +kernel⟩
  have allowed : Along (Serving dir) steps start := by decide +kernel
  have found : lasting (incarnations crashed start) = [⟨⟨0⟩, .sample, [.sample, .sample]⟩] := by
    decide +kernel
  have number : (after crashed start).processes.length = 1 := by decide +kernel
  have exactly := (scan_exact vacant allowed).1
  rw [found, number] at exactly
  exact ⟨vacant, allowed, exactly⟩

end InDoubt.World

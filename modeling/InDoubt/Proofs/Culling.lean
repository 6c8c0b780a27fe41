import InDoubt.Proofs.FileSystem.Pruning
import InDoubt.Proofs.Rescanning
import InDoubt.Proofs.Writers

/-!
What a scan destroys, whatever happens to the files after they have been listed. A listed name may
have become a link by then, or name another file, and the directory may have been moved. All that is
removed was named by a path that led to an unlocked file without records, in the tree before the
first file was recovered (`Prunes`), and nothing else about the tree changes. A file without records
that was still there under its name goes, and what the scan enters is under other names (`Gathers`).
-/

namespace InDoubt

/-- What became of the files of two lists of names, one after the other. -/
def ScanReport.append (o o' : ScanReport) : ScanReport :=
  ⟨o.recovered ++ o'.recovered, o.failures ++ o'.failures⟩

theorem Recovery.addTo_append (outcome : Recovery) (o o' : ScanReport) :
    outcome.addTo (o.append o') = (outcome.addTo o).append o' := by
  cases outcome <;> rfl

namespace World

open FileSystem

variable {u v w : World} {q : ProcessRef} {fs : FileSystem} {dir id : String} {place : Place}
  {inode : Nat} {ids names : List String} {looked : String → Prop} {named named' : String → Prop}
  {f : Failure}

/-! One name after another. -/

theorem recoverAll_append (first rest : List String) :
    recoverAll q dir (first ++ rest) w =
      ((recoverAll q dir first w).1.append (recoverAll q dir rest (recoverAll q dir first w).2).1,
        (recoverAll q dir rest (recoverAll q dir first w).2).2) := by
  induction first generalizing w with
  | nil => rfl
  | cons id more ih =>
      simp only [List.cons_append, recoverAll]
      split
      · exact ih
      · simp only [ih, Recovery.addTo_append]

/-- A failure is that to read the file. -/
theorem readRecords_of_failed (h : (w.recover q dir id).1 = .failed f) :
    w.files.readRecords (joinPath dir id) = .error f := by
  simp only [recover] at h
  split at h
  · cases h
  · rename_i read
    cases h
    exact read
  · cases h
  · cases h

/-- The failures of a scan name files that have been looked at. -/
theorem failures_recoverAll (ids : List String) :
    ∀ f ∈ (recoverAll q dir ids w).1.failures, ∃ id ∈ ids, f.path? = some (joinPath dir id) := by
  induction ids generalizing w with
  | nil => simp [recoverAll]
  | cons id rest ih =>
      have later {v : World} {f : Failure} (mem : f ∈ (recoverAll q dir rest v).1.failures) :
          ∃ other ∈ id :: rest, f.path? = some (joinPath dir other) := by
        obtain ⟨other, mem, path⟩ := ih f mem
        exact ⟨other, List.mem_cons_of_mem _ mem, path⟩
      intro f mem
      simp only [recoverAll] at mem
      split at mem
      · exact later mem
      · cases outcome : (w.recover q dir id).1 <;>
          simp only [outcome, Recovery.addTo, List.mem_cons] at mem
        · exact later mem
        · rcases mem with rfl | mem
          · exact ⟨id, List.mem_cons_self, readRecords_eq_error (readRecords_of_failed outcome)⟩
          · exact later mem
        · exact later mem

theorem sound_recover (h : w.files.Sound) : (w.recover q dir id).2.files.Sound := by
  obtain ⟨_, files, -, rfl | ⟨-, rfl⟩, e⟩ | ⟨_, _, -, e⟩ := recover_cases w q dir id <;> rw [e]
  · exact h
  · exact h.unlinkUnlocked _
  · exact h

/-! What is entered. -/

/-- From one world to another, registries have been entered under certain names only, handles for
these registries only, and a process has claimed no other names and put no other handles in
doubt. -/
structure Gathers (q : ProcessRef) (named : String → Prop) (w v : World) : Prop where
  registries : ∃ gs, v.registries = w.registries ++ gs ∧ ∀ g ∈ gs, named g.id
  branches : ∃ bs, v.branches = w.branches ++ bs ∧ ∀ b ∈ bs,
    w.registries.length ≤ b.registry.index ∧ b.registry.index < v.registries.length
  inDoubt : ∃ bs, (v.process q).inDoubt = (w.process q).inDoubt ++ bs ∧ ∀ b ∈ bs,
    w.branches.length ≤ b.index ∧ b.index < v.branches.length
  openIds : ∀ {id}, id ∈ (v.process q).openIds → id ∈ (w.process q).openIds ∨ named id
  processes : v.processes.length = w.processes.length

namespace Gathers

theorem tree (w : World) (files : FileSystem) : Gathers q named w { w with files } :=
  ⟨⟨[], by simp⟩, ⟨[], by simp⟩, ⟨[], (List.append_nil _).symm, by simp⟩, .inl, rfl⟩

theorem refl (w : World) : Gathers q named w w := tree w w.files

theorem mono (h : Gathers q named w v) (imp : ∀ {id}, named id → named' id) :
    Gathers q named' w v :=
  { h with
    registries := by
      obtain ⟨gs, e, under⟩ := h.registries
      exact ⟨gs, e, fun g mem => imp (under g mem)⟩
    openIds := fun mem => (h.openIds mem).imp_right imp }

theorem trans (h : Gathers q named u v) (k : Gathers q named v w) : Gathers q named u w := by
  obtain ⟨⟨gs, eg, under⟩, ⟨bs, eb, mine⟩, ⟨ds, ed, new⟩, opens, len⟩ := h
  obtain ⟨⟨gs', eg', under'⟩, ⟨bs', eb', mine'⟩, ⟨ds', ed', new'⟩, opens', len'⟩ := k
  have more : u.registries.length ≤ v.registries.length := by simp [eg]
  have more' : v.registries.length ≤ w.registries.length := by simp [eg']
  have made : u.branches.length ≤ v.branches.length := by simp [eb]
  have made' : v.branches.length ≤ w.branches.length := by simp [eb']
  refine ⟨⟨gs ++ gs', by simp [eg', eg], ?_⟩, ⟨bs ++ bs', by simp [eb', eb], ?_⟩,
    ⟨ds ++ ds', by simp [ed', ed], ?_⟩, ?_, len'.trans len⟩
  · exact fun g mem => (List.mem_append.mp mem).elim (under g) (under' g)
  · intro b mem
    rcases List.mem_append.mp mem with mem | mem
    · exact ⟨(mine b mem).1, Nat.lt_of_lt_of_le (mine b mem).2 more'⟩
    · exact ⟨Nat.le_trans more (mine' b mem).1, (mine' b mem).2⟩
  · intro b mem
    rcases List.mem_append.mp mem with mem | mem
    · exact ⟨(new b mem).1, Nat.lt_of_lt_of_le (new b mem).2 made'⟩
    · exact ⟨Nat.le_trans made (new' b mem).1, (new' b mem).2⟩
  · intro id mem
    rcases opens' mem with mem | mem
    · exact opens mem
    · exact .inr mem

theorem adopt (running : q.index < w.processes.length) (path : String) (ls : List Locator)
    (under : named id) : Gathers q named w (w.adopt q id path ls).2 := by
  refine ⟨⟨_, registries_adopt .., by simpa using under⟩, ⟨_, branches_adopt .., ?_⟩,
    ⟨_, by rw [process_adopt _ _ _ running], ?_⟩, fun {other} mem => ?_, ?_⟩
  · intro b mem
    obtain ⟨l, -, rfl⟩ := List.mem_map.mp mem
    simp [registries_adopt]
  · intro b mem
    obtain ⟨i, lt, rfl⟩ := List.mem_map.mp mem
    simpa [branches_adopt] using List.mem_range.mp lt
  · rcases (mem_openIds_adopt running).mp mem with old | ⟨-, rfl⟩
    · exact .inl old
    · exact .inr under
  · simp [processes_adopt]

theorem recover (running : q.index < w.processes.length) (under : named id) :
    Gathers q named w (w.recover q dir id).2 := by
  obtain ⟨_, files, -, -, e⟩ | ⟨_, _, -, e⟩ := recover_cases w q dir id <;> rw [e]
  · exact tree w files
  · exact adopt running _ _ under

theorem recoverAll (running : q.index < w.processes.length) (ids : List String) :
    Gathers q (· ∈ ids) w (recoverAll q dir ids w).2 := by
  refine recoverAll_induction (I := Gathers q (· ∈ ids) w) ?_ (.refl w)
  intro v id mem _ h
  exact h.trans (recover (h.processes ▸ running) mem)

/-- A registry that has been entered is under such a name. -/
theorem entered (h : Gathers q named w v) {r : RegistryRef} (ge : w.registries.length ≤ r.index)
    (lt : r.index < v.registries.length) : named (v.registry r).id := by
  obtain ⟨gs, e, under⟩ := h.registries
  refine under _ ?_
  rw [registry, e, List.getD_append_right _ _ _ _ ge]
  rw [e, List.length_append] at lt
  rw [List.getD_eq_getElem _ _ (by omega)]
  exact List.getElem_mem _

end Gathers

/-! What is removed. -/

/-- What is recovered is left, and only what has been read without records is removed. -/
theorem prunes_recover (h : Prunes fs w.files looked) (sound : fs.Sound)
    (looks : looked (joinPath dir id)) : Prunes fs (w.recover q dir id).2.files looked := by
  obtain ⟨_, files, -, rfl | ⟨blank, rfl⟩, e⟩ | ⟨_, _, -, e⟩ := recover_cases w q dir id <;> rw [e]
  · exact h
  · exact h.unlinkUnlocked sound looks blank
  · exact h

theorem prunes_recoverAll (h : Prunes fs w.files looked) (sound : fs.Sound)
    (running : q.index < w.processes.length)
    (looks : ∀ id ∈ ids, id ∉ (w.process q).openIds → looked (joinPath dir id)) :
    Prunes fs (recoverAll q dir ids w).2.files looked := by
  refine (recoverAll_induction (I := fun v => v.processes.length = w.processes.length ∧
    (∀ id, id ∈ (w.process q).openIds → id ∈ (v.process q).openIds) ∧
    Prunes fs v.files looked) ?_ ⟨rfl, fun _ => id, h⟩).2.2
  rintro v id mem free ⟨len, opens, k⟩
  refine ⟨(length_processes_recover v q dir id).trans len, fun other old => ?_, ?_⟩
  · have apart : other ≠ id := by
      rintro rfl
      exact free (opens other old)
    exact (mem_openIds_recover (len ▸ running) apart).mpr (opens other old)
  · exact prunes_recover k sound (looks id mem fun old => free (opens id old))

/-- What is named in a directory has that name at its place. -/
theorem head?_of_locateEntry (held : Holdable id)
    (located : fs.locateEntry (Utf8.encode (joinPath dir id)) = .ok place) :
    place.head? = some (Utf8.encode id) := by
  have ends : (names (Utf8.encode (joinPath dir id))).getLast? = some (Utf8.encode id) := by
    simp [names_joinPath dir held.2 held.1.1]
  obtain ⟨above, rfl⟩ := ((locateEntry_eq_ok_iff.mp located).2.at_last held.1 ends).2 rfl
  rfl

/-- No other name of a directory stands for the same place. -/
theorem not_waste_of_ne {other : String} (held : Holdable id) (held' : Holdable other)
    (ne : other ≠ id) (located : fs.locateEntry (Utf8.encode (joinPath dir id)) = .ok place) :
    ¬Waste fs (joinPath dir other) place inode := by
  intro waste
  have named := head?_of_locateEntry held located
  have named' := head?_of_locateEntry held' waste.located
  exact ne (Utf8.encode_injective (Option.some.inj (named'.symm.trans named)))

/-- A file that stands under its own name and has no records goes when that name is recovered. -/
theorem recover_of_blank (home : HomeAt w.files (Utf8.encode (joinPath dir id)) place inode)
    (unlocked : w.files.isLocked inode = false) (blank : w.files.RecordsNothing inode) :
    w.recover q dir id = (.nothing, { w with files := w.files.remove place }) := by
  have blank : w.files.readRecords (joinPath dir id) = .ok [] :=
    readRecords_eq_nil_iff.mpr ⟨inode, home.inodeAt, blank⟩
  rw [recover_of_empty blank, home.unlinkUnlocked, unlocked, if_neg (by simp)]

/-- A scan leaves no trace of a file under a name: neither the file nor a registry, a handle, a
claim or a failure that comes from it. -/
structure Traceless (q : ProcessRef) (dir id : String) (place : Place) (w : World) (o : ScanReport)
    (v : World) : Prop where
  gone : v.files.node? place = none
  gathers : Gathers q (· ≠ id) w v
  failures : ∀ f ∈ o.failures, f.path? ≠ some (joinPath dir id)

namespace Traceless

variable {o o' : ScanReport}

/-- A file that is gone leaves no trace when other names are recovered. -/
theorem of_gone (sound : w.files.Sound) (running : q.index < w.processes.length)
    (others : ∀ other ∈ ids, other ≠ id) (gone : w.files.node? place = none) :
    Traceless q dir id place w (recoverAll q dir ids w).1 (recoverAll q dir ids w).2 where
  gone := by
    have pruned : Prunes w.files (recoverAll q dir ids w).2.files fun _ => True :=
      prunes_recoverAll (.refl _) sound running fun _ _ _ => trivial
    cases stands : (recoverAll q dir ids w).2.files.node? place with
    | none => rfl
    | some node => cases gone.symm.trans (pruned.old stands)
  gathers := (Gathers.recoverAll running ids).mono fun mem => others _ mem
  failures f mem path := by
    obtain ⟨other, mem, path'⟩ := failures_recoverAll ids f mem
    exact others other mem (joinPath_injective (Option.some.inj (path'.symm.trans path)))

/-- What comes before leaves no trace either, if it enters nothing under the name and does not
fail there. -/
theorem append (h : Traceless q dir id place v o' w) (gathers : Gathers q (· ≠ id) u v)
    (failures : ∀ f ∈ o.failures, f.path? ≠ some (joinPath dir id)) :
    Traceless q dir id place u (o.append o') w where
  gone := h.gone
  gathers := gathers.trans h.gathers
  failures f mem := (List.mem_append.mp mem).elim (failures f) (h.failures f)

end Traceless

/-- A file without records is removed when its name is recovered, for the names before it remove
what is named otherwise, and the names after it bring nothing back. -/
theorem traceless_recoverAll (sound : w.files.Sound) (running : q.index < w.processes.length)
    (held : ∀ id ∈ ids, Holdable id) (once : ids.Nodup) (mem : id ∈ ids)
    (free : id ∉ (w.process q).openIds)
    (located : w.files.locateEntry (Utf8.encode (joinPath dir id)) = .ok place)
    (file : w.files.node? place = some (.file inode)) (unlocked : w.files.isLocked inode = false)
    (blank : w.files.RecordsNothing inode) :
    Traceless q dir id place w (recoverAll q dir ids w).1 (recoverAll q dir ids w).2 := by
  have plain := endsInSlash_joinPath dir (held id mem).2 (held id mem).1.1
  obtain ⟨first, rest, rfl⟩ := List.append_of_mem mem
  have fresh : ∀ other ∈ first ++ rest, other ≠ id := by
    intro other mem same
    exact (List.nodup_cons.mp (List.nodup_middle.mp once)).1 (same ▸ mem)
  have earlier : ∀ other ∈ first, other ≠ id := fun other mem =>
    fresh other (List.mem_append_left _ mem)
  have later : ∀ other ∈ rest, other ≠ id := fun other mem =>
    fresh other (List.mem_append_right _ mem)
  have before : Gathers q (· ∈ first) w (recoverAll q dir first w).2 := .recoverAll running first
  have pruned : Prunes w.files (recoverAll q dir first w).2.files
      fun path => ∃ other ∈ first, path = joinPath dir other :=
    prunes_recoverAll (.refl _) sound running fun other mem _ => ⟨other, mem, rfl⟩
  have sound' : (recoverAll q dir first w).2.files.Sound :=
    recoverAll_induction (I := fun u => u.files.Sound) (fun _ _ k => sound_recover k) sound
  have untaken : id ∉ ((recoverAll q dir first w).2.process q).openIds := fun mem =>
    (before.openIds mem).elim free fun mem => earlier id mem rfl
  have failures : ∀ f ∈ (recoverAll q dir first w).1.failures,
      f.path? ≠ some (joinPath dir id) := by
    intro f mem path
    obtain ⟨other, mem, path'⟩ := failures_recoverAll first f mem
    exact earlier other mem (joinPath_injective (Option.some.inj (path'.symm.trans path)))
  rw [recoverAll_append, recoverAll_of_unowned untaken]
  generalize recoverAll q dir first w = result at before pruned sound' failures
  obtain ⟨o, v⟩ := result
  have running' : q.index < v.processes.length := before.processes ▸ running
  have stays : v.files.node? place = some (.file inode) := by
    refine (pruned.taken file).resolve_right ?_
    rintro ⟨_, _, ⟨other, mem', rfl⟩, waste⟩
    exact not_waste_of_ne (held id mem) (held other (List.mem_append_left _ mem'))
      (earlier other mem') located waste
  have unlocked' : v.files.isLocked inode = false := by rwa [isLocked, pruned.locked]
  have goes : v.recover q dir id = (.nothing, { v with files := v.files.remove place }) :=
    recover_of_blank ⟨plain, (pruned.locateEntry_iff sound).mpr located, stays⟩ unlocked'
      (pruned.recordsNothing.mpr blank)
  have sound'' : (v.recover q dir id).2.files.Sound := sound_recover sound'
  rw [goes] at sound'' ⊢
  have gone : (v.files.remove place).node? place = none :=
    node?_remove.trans (if_pos ⟨rfl, ne_root_of_node? stays (by simp)⟩)
  refine Traceless.append (v := { v with files := v.files.remove place }) ?_
    ((before.mono (earlier _)).trans (.tree v _)) failures
  exact .of_gone sound'' running' later gone

/-! A whole scan. -/

theorem SoleWriters.after (h : SoleWriters w) (steps : List Step) :
    SoleWriters (after steps w) := by
  induction steps generalizing w with
  | nil => exact h
  | cons s rest ih => exact ih (h.step s)

/-- All that a scan does to a tree: what it takes, and which of the files it listed are sure to go.
Here `fs` is the tree before the first file is recovered. -/
structure Culls (q : ProcessRef) (dir : String) (names : List String) (w : World)
    (fs : FileSystem) (o : ScanReport) (v : World) : Prop where
  /-- No content is changed. -/
  contents : v.files.contents = fs.contents
  locked : v.files.locked = fs.locked
  /-- Nothing is added. -/
  added : ∀ {place node}, v.files.node? place = some node → fs.node? place = some node
  directory : ∀ {place}, fs.node? place = some .directory → v.files.node? place = some .directory
  /-- What is removed was named by a listed name that the process did not own. The path of that name
  led to a file without records, which no registry of any process held open. -/
  removed : ∀ {place node}, fs.node? place = some node → v.files.node? place ≠ some node →
    ∃ id ∈ names, id ∉ (w.process q).openIds ∧ place.head? = some (Utf8.encode id) ∧
      ∃ inode, Waste fs (joinPath dir id) place inode ∧
        ∀ r, (w.registry r).handle? ≠ some inode ∧ (v.registry r).handle? ≠ some inode
  /-- A file without records goes that is still named, unlocked and not owned. -/
  litter : ∀ {id place inode}, id ∈ names → id ∉ (w.process q).openIds →
    fs.locateEntry (Utf8.encode (joinPath dir id)) = .ok place →
    fs.node? place = some (.file inode) → fs.isLocked inode = false → fs.RecordsNothing inode →
    Traceless q dir id place w o v

/-- Whatever has happened before and happens to the files after they have been listed, a scan
removes nothing but the names of unlocked files without records, and it removes all of these that
the process does not own. -/
theorem scan_culls (changes : List FileStep) (past : List Step) (q : ProcessRef)
    (during : List FileStep) :
    let w := after past (ofFiles (FileSystem.empty.applyAll changes))
    let dir := (w.process q).dir
    (∀ f, w.files.registryFiles dir = .error f → w.scan q during = (.error f, w)) ∧
    ∀ names, w.files.registryFiles dir = .ok names → ∃ o v, w.scan q during = (.ok o, v) ∧
      Culls q dir names w (w.files.applyAll during) o v := by
  intro w dir
  have sound : w.files.Sound := ((Orderly.ofFiles changes).after past).sound
  have sole : SoleWriters w := (soleWriters_ofFiles changes).after past
  refine ⟨fun f unlisted => scan_of_unlisted unlisted, fun names listed => ?_⟩
  let met : World := { w with files := w.files.applyAll during }
  have scanned : w.scan q during =
      (.ok (recoverAll q dir names met).1, (recoverAll q dir names met).2) :=
    scan_eq_recoverAll listed during
  refine ⟨_, _, scanned, ?_⟩
  have sound' : met.files.Sound := sound.applyAll during
  have handle (r : RegistryRef) :
      ((recoverAll q dir names met).2.registry r).handle? = (w.registry r).handle? := by
    have keeps := (keepsOpen_scan (w := w) q during).handle r
    rwa [scanned] at keeps
  have unheld {inode : Nat} (free : met.files.isLocked inode = false) (r : RegistryRef) :
      (w.registry r).handle? ≠ some inode := by
    intro stands
    have locked := (sole.locked inode).mpr ⟨r, stands⟩
    rw [← (Spares.applyAll w.files during).isLocked inode] at locked
    exact absurd (locked.symm.trans free) (by simp)
  by_cases running : q.index < w.processes.length
  · have held : ∀ id ∈ names, Holdable id := fun id mem => by
      obtain ⟨_, _, -, held, -⟩ := opens_of_mem_registryFiles sound listed mem
      exact held
    have pruned : Prunes met.files (recoverAll q dir names met).2.files fun path =>
        ∃ id ∈ names, id ∉ (w.process q).openIds ∧ path = joinPath dir id :=
      prunes_recoverAll (.refl _) sound' running fun id mem free => ⟨id, mem, free, rfl⟩
    refine ⟨pruned.contents, pruned.locked, pruned.old, pruned.directory, ?_, ?_⟩
    · intro place node stands gone
      obtain ⟨_, inode, ⟨id, mem, free, rfl⟩, waste⟩ := (pruned.taken stands).resolve_left gone
      refine ⟨id, mem, free, head?_of_locateEntry (held id mem) waste.located, inode, waste,
        fun r => ⟨unheld waste.free r, ?_⟩⟩
      rw [handle]
      exact unheld waste.free r
    · intro id place inode mem free located file unlocked blank
      have once := (increasing_registryFiles sound listed).2
      obtain ⟨gone, gathers, failures⟩ := traceless_recoverAll sound' running held once mem free
        located file unlocked blank
      exact ⟨gone, (Gathers.tree w met.files).trans gathers, failures⟩
  · -- A process that was never started lists nothing.
    have nothing := listed.symm.trans (registryFiles_of_le (Nat.le_of_not_lt running))
    cases nothing
    exact ⟨rfl, rfl, id, id, fun stands gone => absurd stands gone,
      fun mem => absurd mem List.not_mem_nil⟩

/-- Two logs on one directory. The first has created a registry and recorded nothing in it, and
others have left three files of blank lines. -/
def blanks : List Step :=
  let leave (name : String) : Step :=
    .outside (.write (Utf8.encode (joinPath "./xa-recovery" name)) (Utf8.encode " \n\n"))
  [.openLog {} "n", .create ⟨0⟩ .sample, .openLog {} "m", leave "a", leave "b", leave "c"]

/-- Two of the files become links while they are scanned, one to the third file and one to the file
of the registry. The first link and the third file go, the others stay. -/
theorem scan_culls_relinked :
    let stands (name : String) : Place := [Utf8.encode name, Utf8.encode "xa-recovery"]
    let relink (name target : String) : List FileStep :=
      let path := Utf8.encode (joinPath "./xa-recovery" name)
      [.unlink path, .link path (Utf8.encode target)]
    let during := relink "a" "b" ++ relink "c" Xid.sample.name
    let w := after blanks (ofFiles (FileSystem.empty.applyAll []))
    let v := (w.scan ⟨1⟩ during).2
    ∃ o names, w.files.registryFiles "./xa-recovery" = .ok names ∧
      Culls ⟨1⟩ "./xa-recovery" names w (w.files.applyAll during) o v ∧
      v.files.node? (stands "a") = none ∧ Traceless ⟨1⟩ "./xa-recovery" "b" (stands "b") w o v ∧
      v.files.node? (stands "c") = some (.link (Utf8.encode Xid.sample.name)) ∧
      v.files.node? (stands Xid.sample.name) = some (.file 0) := by
  intro stands relink during w v
  have listed : w.files.registryFiles "./xa-recovery" =
      .ok [Xid.sample.name, "a", "b", "c"] := by decide +kernel
  have dir : (w.process ⟨1⟩).dir = "./xa-recovery" := by decide +kernel
  have culls := (scan_culls [] blanks ⟨1⟩ during).2
  rw [dir] at culls
  obtain ⟨o, v', scanned, culls⟩ := culls _ listed
  obtain rfl : v = v' := congrArg Prod.snd scanned
  have free : "b" ∉ (w.process ⟨1⟩).openIds := by decide +kernel
  have file : (w.files.applyAll during).node? (stands "b") = some (.file 2) := by decide +kernel
  have unlocked : (w.files.applyAll during).isLocked 2 = false := by decide +kernel
  have blank : (w.files.applyAll during).RecordsNothing 2 :=
    ⟨" \n\n", by decide +kernel, by decide +kernel⟩
  have traceless := culls.litter (by decide) free (by decide +kernel) file unlocked blank
  exact ⟨o, _, listed, culls, by decide +kernel, traceless, by decide +kernel, by decide +kernel⟩

end World

end InDoubt

import InDoubt.Proofs.Naming
import InDoubt.Proofs.OpenSet

/-!
The files behind registries. While one process works on the files alone, each of its registries that
has not been spent has a file of its own at the end of its path, which is the one that a created
registry holds open. The identifier of a registry is the name of its file, so that registries with
different identifiers have different files, and what is done to one file is not done to another.
-/

namespace InDoubt.World

open FileSystem

variable {v w : World} {p q : ProcessRef} {r r' : RegistryRef} {b : BranchRef} {s : Step}
  {place place' : Place} {inode inode' : Nat} {dir id : String}

/-- The registries of a process that have not been spent. -/
def Unspent (p : ProcessRef) (w : World) (r : RegistryRef) : Prop :=
  r.index < w.registries.length ∧ (w.registry r).owner = p ∧ ¬(w.registry r).Spent

/-- The file of a registry is at a place that bears its name, with the inode that the registry holds
open if it has been created. -/
structure Backed (w : World) (r : RegistryRef) (place : Place) (inode : Nat) : Prop where
  home : HomeAt w.files (Utf8.encode (w.registry r).path) place inode
  named : place.head? = some (Utf8.encode (w.registry r).id)
  handle : (w.registry r).isLive = true → (w.registry r).handle? = some inode

/-- All registries of a process that have not been spent are backed, and their identifiers are what
the process owns. -/
structure Backing (p : ProcessRef) (w : World) : Prop where
  sound : w.files.Sound
  owned : Ownership w p (Unspent p w)
  backed : ∀ {r}, Unspent p w r → ∃ place inode, Backed w r place inode

/-- A step of a process that works on the files alone. -/
def Sheltered (p : ProcessRef) (w : World) (s : Step) : Prop :=
  Disciplined p w s ∧
    match s with
    | .outside _ | .openLog _ _ | .crash _ | .hostSweep => False
    | .create q _ | .createIn q _ _ => q = p
    | .scan q during | .sweep q during => q = p ∧ during = []
    | .record r _ | .enlist r _ _ | .releaseFrom r _ => (w.registry r).owner = p
    | .release b => (w.registry (w.branch b).registry).owner = p
    | _ => True

namespace Backed

theorem congr (h : Backed w r place inode) (registry : v.registry r = w.registry r)
    (files : HomeAt v.files (Utf8.encode (w.registry r).path) place inode) :
    Backed v r place inode :=
  ⟨registry ▸ files, registry ▸ h.named, registry ▸ h.handle⟩

theorem id_eq (h : Backed w r place inode) (h' : place.head? = some (Utf8.encode id)) :
    (w.registry r).id = id :=
  Utf8.encode_injective (Option.some.inj (h.named.symm.trans h'))

end Backed

namespace Backing

theorem unspent_of_count (own : (w.registry r).owner = p) (counted : (w.registry r).count ≠ 0) :
    Unspent p w r :=
  ⟨lt_of_count_ne_zero counted, own, fun h => counted h.1⟩

/-- Different registries have different files. -/
theorem apart (h : Backing p w) (hr : Unspent p w r) (hr' : Unspent p w r') (ne : r ≠ r')
    (b : Backed w r place inode) (b' : Backed w r' place' inode') :
    place ≠ place' ∧ inode ≠ inode' := by
  have places : place ≠ place' := by
    rintro rfl
    exact ne (h.owned.distinct hr hr' (b.id_eq b'.named))
  refine ⟨places, ?_⟩
  rintro rfl
  exact places (h.sound.eq_of_file b.home.file b'.home.file)

theorem mem_openIds (h : Backing p w) (hr : Unspent p w r) :
    (w.registry r).id ∈ (w.process p).openIds :=
  (h.owned.mem_iff _).mpr ⟨r, hr, rfl⟩

/-- The last release of a backed registry deletes its file. -/
theorem releaseFrom (h : Backing p w) (own : (w.registry r).owner = p)
    (one : (w.registry r).count = 1) (b : BranchRef) :
    ∃ place inode, Backed w r place inode ∧ (w.releaseFrom r b).1 = .ok () ∧
      (w.releaseFrom r b).2.files =
        (w.files.unlock (w.registry r).handle?.toList).remove place := by
  obtain ⟨place, inode, backed⟩ := h.backed (unspent_of_count own (by omega))
  have home : HomeAt (w.files.unlock (w.registry r).handle?.toList)
      (Utf8.encode (w.registry r).path) place inode :=
    backed.home.congr rfl
  refine ⟨place, inode, backed, ?_, ?_⟩
  · exact (releaseFrom_eq_ok_iff one).mpr (.inl ⟨_, home.unlink⟩)
  · rw [releaseFrom_of_eq one]
    simp only [home.unlink]
    rfl

end Backing

/-! A scan. -/

/-- A file without records, whose name the process does not own. -/
def Leftover (p : ProcessRef) (w : World) (place : Place) : Prop :=
  ∃ id inode content, id ∉ (w.process p).openIds ∧ place.head? = some (Utf8.encode id) ∧
    w.files.node? place = some (.file inode) ∧
    Utf8.decode? (w.files.content inode) = some content ∧ Record.parse content = .ok []

/-- What a scan has done so far to the files and to its process. -/
structure Scanned (p : ProcessRef) (w v : World) : Prop where
  extended : Extends w v
  sound : v.files.Sound
  alters : Alters w.files v.files (Leftover p w) fun _ => False
  contents : v.files.contents = w.files.contents
  opens : ∀ {id}, id ∈ (w.process p).openIds → id ∈ (v.process p).openIds
  entered : ∀ {r}, Entered w v p r →
    (v.registry r).id ∈ (v.process p).openIds ∧ ∃ place inode, Backed v r place inode

namespace Scanned

theorem leftover (h : Scanned p w v) : Leftover p v place → Leftover p w place := by
  rintro ⟨id, inode, content, free, named, stands, decoded, parsed⟩
  refine ⟨id, inode, content, fun entered => free (h.opens entered), named, ?_, ?_, parsed⟩
  · refine (h.alters.old stands).resolve_right fun new => ?_
    rw [← h.contents] at new
    exact Nat.not_lt.mpr new (h.sound.lt stands)
  · rw [← decoded]
    exact congrArg Utf8.decode? (congrArg (List.getD · _ _) h.contents.symm)

/-- A leftover file has been removed, or nothing has. -/
theorem tree (h : Scanned p w v) {files : FileSystem} (sound : files.Sound)
    (alters : Alters v.files files (Leftover p v) fun _ => False)
    (contents : files.contents = v.files.contents) : Scanned p w { v with files } where
  extended := h.extended.trans (.of_eq rfl rfl rfl)
  sound := sound
  alters := h.alters.trans (alters.mono h.leftover id)
  contents := contents.trans h.contents
  opens := h.opens
  entered {r} hr := by
    obtain ⟨entered, place, inode, backed⟩ := h.entered hr
    refine ⟨entered, place, inode, backed.congr rfl (backed.home.kept alters ?_)⟩
    rintro ⟨id, _, _, free, named, -⟩
    exact free (backed.id_eq named ▸ entered)

/-- A file has been recovered. -/
theorem adopt (h : Scanned p w v) (running : p.index < v.processes.length)
    (home : HomeAt v.files (Utf8.encode (joinPath dir id)) place inode)
    (named : place.head? = some (Utf8.encode id)) (ls : List Locator) :
    Scanned p w (v.adopt p id (joinPath dir id) ls).2 where
  extended := h.extended.trans (extends_adopt ..)
  sound := h.sound
  alters := h.alters
  contents := h.contents
  opens entered := by
    rw [mem_openIds_adopt running]
    exact .inl (h.opens entered)
  entered {r} hr := by
    rw [mem_openIds_adopt running]
    rcases (entered_append h.extended (registries_adopt ..)).mp hr with old | ⟨rfl, -⟩
    · obtain ⟨entered, place, inode, backed⟩ := h.entered old
      have same := registry_append (registries_adopt v p id (joinPath dir id) ls) old.2.1
      rw [same]
      exact ⟨.inl entered, place, inode, backed.congr same backed.home⟩
    · have new := registry_append_new (registries_adopt v p id (joinPath dir id) ls)
      refine ⟨.inr ⟨rfl, congrArg Registry.id new⟩, place, inode, ?_, ?_, ?_⟩ <;> rw [new]
      · exact home
      · exact named
      · exact nofun

end Scanned

/-- A scan that nobody disturbs recovers files where they are and removes no file but leftovers. -/
theorem scanned_scan (sound : w.files.Sound) (running : p.index < w.processes.length) :
    Scanned p w (w.scan p []).2 := by
  have start : Scanned p w w :=
    ⟨.refl w, sound, .refl _, rfl, id, fun hr => absurd hr (not_entered rfl)⟩
  simp only [World.scan]
  split
  · exact start
  · rename_i ids listed
    refine recoverAll_induction (I := Scanned p w) ?_ start
    intro v id mem free h
    obtain ⟨top, i, opens, held, stands⟩ := opens_of_mem_registryFiles sound listed mem
    have opens' := opens.kept h.alters.ways
    have plain : ∀ target, v.files.node? (Utf8.encode id :: top) ≠ some (.link target) := by
      intro target e
      rw [← h.alters.ways.link, stands] at e
      cases e
    have home {inode : Nat}
        (reached : v.files.inodeAt (Utf8.encode (joinPath (w.process p).dir id)) = .ok inode) :=
      opens'.homeAt_of_inodeAt held plain reached
    obtain ⟨_, files, -, same | ⟨blank, rfl⟩, e⟩ | ⟨l, ls, e', e⟩ :=
      recover_cases v p (w.process p).dir id <;> rw [e]
    · exact h.tree (same ▸ h.sound) (same ▸ .refl _) (same ▸ rfl)
    · obtain ⟨inode, content, reached, decoded, parsed⟩ := readRecords_eq_ok_iff.mp blank
      exact h.tree (h.sound.unlinkUnlocked _)
        (alters_unlinkUnlocked (fun _ => home)
          ⟨id, inode, content, free, rfl, (home reached).file, decoded, parsed⟩)
        (contents_unlinkUnlocked ..)
    · obtain ⟨inode, _, reached, -, -⟩ := readRecords_eq_ok_iff.mp e'
      exact h.adopt (Nat.lt_of_lt_of_le running h.extended.processes) (home reached) rfl _

/-! A step. -/

/-- A step may remove leftovers, and the file of a registry whose last branch it releases. -/
def Removes (p : ProcessRef) (w : World) (s : Step) (place : Place) : Prop :=
  Leftover p w place ∨ ∃ r inode, w.Ends s r ∧ Backed w r place inode

/-- What a step appends to the file of a registry. -/
def appended (w : World) (r : RegistryRef) : Step → Bytes
  | .record r' l | .enlist r' l _ =>
      if r' = r ∧ (w.registry r).isLive then Utf8.encode (Record.encode l) else []
  | _ => []

/-- A step may write to the file that a registry holds open, when it records a branch in it. -/
def Writes (w : World) (s : Step) (inode : Nat) : Prop :=
  ∃ r, recordsIn? s = some r ∧ (w.registry r).handle? = some inode

theorem alters_createIn (dir : String) (xid : Xid) :
    Alters w.files (w.createIn p dir xid).2.files (fun _ => False) fun _ => False := by
  obtain ⟨_, files, rfl | rfl, e⟩ | ⟨tree, inode, made, -, h, h', e⟩ :=
    createIn_cases w p dir xid <;> rw [e]
  · exact .refl _
  · exact .makeDirectories ..
  · have ready : Alters w.files tree (fun _ => False) fun _ => False := by
      have made : Alters w.files (w.files.makeDirectories (Utf8.encode dir)).2 (fun _ => False)
        fun _ => False := .makeDirectories ..
      rwa [h] at made
    exact (ready.trans (.createNew h')).trans (.of_eq rfl rfl)

theorem alters_record (l : Locator) :
    Alters w.files (w.record r l).2.files (fun _ => False)
      fun inode => (w.registry r).handle? = some inode := by
  rw [files_record]
  split
  · rename_i inode e
    exact .setContent inode _ e
  · exact .refl _

theorem sound_createIn (h : w.files.Sound) (dir : String) (xid : Xid) :
    (w.createIn p dir xid).2.files.Sound := by
  obtain ⟨_, files, rfl | rfl, e⟩ | ⟨tree, inode, made, -, e', e'', e⟩ :=
    createIn_cases w p dir xid <;> rw [e]
  · exact h
  · exact h.makeDirectories _
  · have ready : tree.Sound := by
      have := h.makeDirectories (Utf8.encode dir)
      rwa [e'] at this
    exact (ready.createNew e'').congr rfl rfl

theorem sound_record (h : w.files.Sound) (l : Locator) : (w.record r l).2.files.Sound := by
  rw [files_record]
  split
  · exact h.setContent _
  · exact h

/-! What a step enters. -/

theorem registry_scan_new (p : ProcessRef) (during : List FileStep) {r : RegistryRef}
    (ge : w.registries.length ≤ r.index) (lt : r.index < (w.scan p during).2.registries.length) :
    ∃ id n, (w.scan p during).2.registry r =
      ⟨p, id, joinPath (w.process p).dir id, .recovered, n⟩ := by
  revert lt
  simp only [World.scan]
  split
  · exact fun lt => absurd lt (Nat.not_lt.mpr ge)
  · intro lt
    refine recoverAll_induction (I := fun v => ∀ r : RegistryRef, w.registries.length ≤ r.index →
      r.index < v.registries.length → ∃ id n, v.registry r =
        ⟨p, id, joinPath (w.process p).dir id, .recovered, n⟩) ?_ ?_ r ge lt
    · intro v id _ _ h r ge
      obtain ⟨_, _, -, -, e⟩ | ⟨l, ls, -, e⟩ := recover_cases v p (w.process p).dir id <;> rw [e]
      · exact h r ge
      · intro lt
        have entered := registries_adopt v p id (joinPath (w.process p).dir id) (l :: ls)
        by_cases old : r.index < v.registries.length
        · rw [registry_append entered old]
          exact h r ge old
        · rw [eq_new entered (Nat.le_of_not_lt old) lt, registry_append_new entered]
          exact ⟨id, _, rfl⟩
    · exact fun r ge lt => absurd lt (Nat.not_lt.mpr ge)

theorem registry_createIn_new {dir : String} {xid : Xid} (ge : w.registries.length ≤ r.index)
    (lt : r.index < (w.createIn p dir xid).2.registries.length) :
    ∃ inode, (w.createIn p dir xid).2.registry r =
      ⟨p, xid.name, joinPath dir xid.name, .created (some inode), 0⟩ := by
  obtain ⟨_, _, -, e⟩ | ⟨_, inode, made, -, -, -, e⟩ := createIn_cases w p dir xid <;>
    rw [e] at lt ⊢
  · exact absurd lt (Nat.not_lt.mpr ge)
  · have entered : (w.enter p (made.lock inode) xid.name (joinPath dir xid.name) inode).registries =
      w.registries ++ [⟨p, xid.name, joinPath dir xid.name, .created (some inode), 0⟩] := rfl
    rw [eq_new entered ge lt, registry_append_new entered]
    exact ⟨inode, rfl⟩

/-- What a sheltered step enters belongs to its process. -/
theorem entered_of_lt (allowed : Sheltered p w s) (ge : w.registries.length ≤ r.index)
    (lt : r.index < (w.step s).2.registries.length) : Entered w (w.step s).2 p r := by
  refine ⟨ge, lt, ?_⟩
  obtain ⟨-, alone⟩ := allowed
  by_cases entering : enters s = true
  · cases s with
    | create q xid =>
        cases alone
        obtain ⟨_, e⟩ := registry_createIn_new ge lt
        exact congrArg Registry.owner e
    | createIn q dir xid =>
        cases alone
        obtain ⟨_, e⟩ := registry_createIn_new ge lt
        exact congrArg Registry.owner e
    | scan q during | sweep q during =>
        obtain ⟨rfl, rfl⟩ := alone
        obtain ⟨_, _, e⟩ := registry_scan_new q [] ge lt
        exact congrArg Registry.owner e
    | hostSweep => exact alone.elim
    | _ => cases entering
  · rw [length_registries_step (Bool.not_eq_true _ ▸ entering)] at lt
    exact absurd lt (Nat.not_lt.mpr ge)

namespace Backing

theorem alters_releaseFrom (h : Backing p w) (own : (w.registry r).owner = p) :
    Alters w.files (w.releaseFrom r b).2.files
      (fun place => ∃ inode, (w.registry r).count = 1 ∧ Backed w r place inode) fun _ => False := by
  by_cases one : (w.registry r).count = 1
  · obtain ⟨place, inode, backed, -, e⟩ := h.releaseFrom own one b
    rw [e]
    have unlocked : Alters w.files (w.files.unlock (w.registry r).handle?.toList)
        (fun place => ∃ inode, (w.registry r).count = 1 ∧ Backed w r place inode)
        fun _ => False := .of_eq rfl rfl
    exact unlocked.trans (.remove backed.home.file ⟨inode, one, backed⟩)
  · rw [releaseFrom_of_ne one]
    exact .refl _

theorem sound_releaseFrom (h : Backing p w) (own : (w.registry r).owner = p) :
    (w.releaseFrom r b).2.files.Sound := by
  by_cases one : (w.registry r).count = 1
  · obtain ⟨place, inode, backed, -, e⟩ := h.releaseFrom own one b
    rw [e]
    have unlocked : (w.files.unlock (w.registry r).handle?.toList).Sound := h.sound.congr rfl rfl
    refine unlocked.remove (unlocked.leaf_of_node? ?_)
    rw [node?_unlock, backed.home.file]
    simp
  · rw [releaseFrom_of_ne one]
    exact h.sound

theorem alters_step (h : Backing p w) (allowed : Sheltered p w s) :
    Alters w.files (w.step s).2.files (Removes p w s) (Writes w s) := by
  obtain ⟨⟨admitted, -⟩, alone⟩ := allowed
  have releases {r : RegistryRef} {b : BranchRef} (own : (w.registry r).owner = p)
      (e : w.releasesFrom? s = some r) :
      Alters w.files (w.releaseFrom r b).2.files (Removes p w s) (Writes w s) :=
    (h.alters_releaseFrom own).mono (fun ⟨inode, one, backed⟩ => .inr ⟨r, inode, ⟨e, one⟩, backed⟩)
      False.elim
  have clerical (quiet : isClerical s = true) :
      Alters w.files (w.step s).2.files (Removes p w s) (Writes w s) := by
    rw [files_step quiet]
    exact .refl _
  cases s with
  | outside change | openLog config node | crash q | hostSweep => exact alone.elim
  | create q xid | createIn q dir xid => exact (alters_createIn _ xid).mono False.elim False.elim
  | record r l => exact (alters_record l).mono False.elim fun e => ⟨r, rfl, e⟩
  | enlist r l node =>
      rw [files_step_enlist]
      exact (alters_record l).mono False.elim fun e => ⟨r, rfl, e⟩
  | release b => exact releases alone rfl
  | releaseFrom r b => exact releases alone rfl
  | scan q during | sweep q during =>
      obtain ⟨rfl, rfl⟩ := alone
      exact (scanned_scan h.sound admitted.1).alters.mono .inl False.elim
  | relocate q base | bind r l node | mark b | doubtVia r b | register q | unregister q
  | claim q id | unclaim q id | doubt q bs | settle q b => exact clerical rfl

theorem sound_step (h : Backing p w) (allowed : Sheltered p w s) : (w.step s).2.files.Sound := by
  obtain ⟨⟨admitted, -⟩, alone⟩ := allowed
  have clerical (quiet : isClerical s = true) : (w.step s).2.files.Sound := by
    rw [files_step quiet]
    exact h.sound
  cases s with
  | outside change | openLog config node | crash q | hostSweep => exact alone.elim
  | create q xid => exact sound_createIn h.sound ..
  | createIn q dir xid => exact sound_createIn h.sound ..
  | record r l => exact sound_record h.sound l
  | enlist r l node =>
      rw [files_step_enlist]
      exact sound_record h.sound l
  | release b => exact h.sound_releaseFrom alone
  | releaseFrom r b => exact h.sound_releaseFrom alone
  | scan q during | sweep q during =>
      obtain ⟨rfl, rfl⟩ := alone
      exact (scanned_scan h.sound admitted.1).sound
  | relocate q base | bind r l node | mark b | doubtVia r b | register q | unregister q
  | claim q id | unclaim q id | doubt q bs | settle q b => exact clerical rfl

/-- Only the registry whose last branch a step releases loses its file. -/
theorem spared (h : Backing p w) (allowed : Sheltered p w s) (hr : Unspent p w r)
    (backed : Backed w r place inode) (stays : ¬w.Ends s r) : ¬Removes p w s place := by
  rintro (⟨id, _, _, free, named, -⟩ | ⟨r', inode', ends, backed'⟩)
  · exact free (backed.id_eq named ▸ h.mem_openIds hr)
  · have other : r ≠ r' := by
      rintro rfl
      exact stays ends
    have own : (w.registry r').owner = p := by
      have alone := allowed.2
      have out := ends.1
      cases s <;> simp only [releasesFrom?, Option.some.injEq, reduceCtorEq] at out
      all_goals exact out ▸ alone
    have hr' := unspent_of_count own (by rw [ends.2]; exact Nat.one_ne_zero)
    exact (h.apart hr hr' other backed backed').1 rfl

theorem kept (h : Backing p w) (allowed : Sheltered p w s) (hr : Unspent p w r)
    (backed : Backed w r place inode) (stays : ¬w.Ends s r) :
    Backed (w.step s).2 r place inode := by
  have extended := extends_step w s
  have runs : s ≠ .crash (w.registry r).owner := by
    rintro rfl
    exact allowed.2
  refine ⟨?_, by rw [extended.id hr.1, backed.named], ?_⟩
  · rw [extended.path hr.1]
    exact backed.home.kept (h.alters_step allowed) (h.spared allowed hr backed stays)
  · rw [extended.isLive hr.1, handle?_step_of_not_ends hr.1 stays runs]
    exact backed.handle

theorem recordsIn?_unspent (allowed : Sheltered p w s) (into : recordsIn? s = some r) :
    Unspent p w r := by
  obtain ⟨⟨admitted, unspent⟩, alone⟩ := allowed
  cases s <;> simp only [recordsIn?, Option.some.injEq, reduceCtorEq] at into
  all_goals subst into; exact ⟨admitted.1, alone, unspent alone⟩

/-- The file of a registry that is not ended is written to only by what is recorded in it. -/
theorem content_step (h : Backing p w) (allowed : Sheltered p w s) (hr : Unspent p w r)
    (backed : Backed w r place inode) :
    (w.step s).2.files.content inode = w.files.content inode ++ w.appended r s := by
  have lt := h.sound.lt backed.home.file
  by_cases writes : Writes w s inode
  · obtain ⟨r', into, handle⟩ := writes
    have hr' := recordsIn?_unspent allowed into
    obtain ⟨place', inode', backed'⟩ := h.backed hr'
    have live : (w.registry r').isLive = true := by
      unfold Registry.handle? at handle
      unfold Registry.isLive
      split at handle <;> simp_all
    have same : inode = inode' := Option.some.inj (handle.symm.trans (backed'.handle live))
    obtain rfl : r' = r := by
      by_contra other
      exact (h.apart hr' hr other backed' backed).2 same.symm
    cases s <;> simp only [recordsIn?, Option.some.injEq, reduceCtorEq] at into
    · subst into
      simp only [World.step, Prod.map_snd, id_eq, files_record, handle, appended, live, and_self,
        if_true]
      exact content_appendTo_self lt
    · subst into
      simp only [World.step, Prod.map_snd, id_eq, files_enlist, files_record, handle, appended,
        live, and_self, if_true]
      exact content_appendTo_self lt
  · have nothing : w.appended r s = [] := by
      cases s <;> simp only [appended]
      all_goals
        rw [if_neg]
        rintro ⟨rfl, live⟩
        exact writes ⟨_, rfl, backed.handle live⟩
    rw [nothing, List.append_nil]
    exact (h.alters_step allowed).content lt writes

theorem backed_createIn {dir : String} {xid : Xid}
    (hr : Entered w (w.createIn p dir xid).2 p r) :
    ∃ place inode, Backed (w.createIn p dir xid).2 r place inode := by
  have held := xid.holdable_name
  obtain ⟨_, files, -, e⟩ | ⟨tree, inode, made, -, -, e', e⟩ := createIn_cases w p dir xid <;>
    rw [e] at hr ⊢
  · exact absurd hr (not_entered rfl)
  · obtain ⟨place, -, home, -⟩ := HomeAt.of_createNew e' (endsInSlash_joinPath dir held.2 held.1.1)
    have locked : HomeAt (made.lock inode) (Utf8.encode (joinPath dir xid.name)) place inode :=
      home.congr rfl
    obtain old | ⟨rfl, -⟩ := (entered_append (.refl w) rfl).mp hr
    · exact absurd old (not_entered rfl)
    · have new := registry_append_new (w := w) (v := w.enter p (made.lock inode) xid.name
        (joinPath dir xid.name) inode) rfl
      refine ⟨place, inode, ?_, ?_, ?_⟩ <;> rw [new]
      · exact locked
      · exact home.last_name held.1 held.2
      · exact fun _ => rfl

theorem backed_entered (h : Backing p w) (allowed : Sheltered p w s)
    (hr : Entered w (w.step s).2 p r) : ∃ place inode, Backed (w.step s).2 r place inode := by
  obtain ⟨⟨admitted, -⟩, alone⟩ := allowed
  by_cases entering : enters s = true
  · cases s with
    | create q xid =>
        cases alone
        exact backed_createIn hr
    | createIn q dir xid =>
        cases alone
        exact backed_createIn hr
    | scan q during | sweep q during =>
        obtain ⟨rfl, rfl⟩ := alone
        exact ((scanned_scan h.sound admitted.1).entered hr).2
    | hostSweep => exact alone.elim
    | _ => cases entering
  · exact absurd hr (not_entered (length_registries_step (Bool.not_eq_true _ ▸ entering)))

theorem unspent_step (allowed : Disciplined p w s) : Unspent p (w.step s).2 r ↔
    Unspent p w r ∧ ¬w.Ends s r ∨ Entered w (w.step s).2 p r := by
  have extended := extends_step w s
  constructor
  · rintro ⟨lt, own, unspent⟩
    by_cases old : r.index < w.registries.length
    · have own' := (extended.owner old).symm.trans own
      rw [spent_step old own' allowed, not_or] at unspent
      exact .inl ⟨⟨old, own', unspent.1⟩, unspent.2⟩
    · exact .inr ⟨Nat.le_of_not_lt old, lt, own⟩
  · rintro (⟨⟨lt, own, unspent⟩, stays⟩ | new)
    · refine ⟨Nat.lt_of_lt_of_le lt extended.registries, (extended.owner lt).trans own, ?_⟩
      rw [spent_step lt own allowed]
      exact fun spent => spent.elim unspent stays
    · exact ⟨new.2.1, new.2.2, not_spent_entered s new.1 new.2.1⟩

/-- The release of the last branch always deletes the file. -/
theorem deletes_of_ends (h : Backing p w) (own : (w.registry r).owner = p) (ends : w.Ends s r) :
    w.Deletes s r := by
  refine ⟨ends, ?_⟩
  obtain ⟨b, e⟩ := step_eq_releaseFrom ends.1
  obtain ⟨_, _, -, released, -⟩ := h.releaseFrom own ends.2 b
  rw [e]
  simp only [step, Prod.map_fst, released]
  rfl

theorem step (h : Backing p w) (allowed : Sheltered p w s) : Backing p (w.step s).2 where
  sound := h.sound_step allowed
  owned := by
    have spent (r : RegistryRef) (lt : r.index < w.registries.length)
        (own : (w.registry r).owner = p) (spent : ¬Unspent p w r) : (w.registry r).Spent := by
      by_contra unspent
      exact spent ⟨lt, own, unspent⟩
    refine (h.owned.step spent allowed.1).congr fun r => ?_
    rw [unspent_step allowed.1]
    refine or_congr_left (and_congr_right fun hr => not_congr ⟨And.left, fun ends => ?_⟩)
    exact h.deletes_of_ends hr.2.1 ends
  backed {r} hr := by
    rcases (unspent_step allowed.1).mp hr with ⟨old, stays⟩ | new
    · obtain ⟨place, inode, backed⟩ := h.backed old
      exact ⟨place, inode, h.kept allowed old backed stays⟩
    · exact h.backed_entered allowed new

end Backing

end InDoubt.World

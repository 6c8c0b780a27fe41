import InDoubt.Proofs.Backing
import InDoubt.Proofs.FileSystem.Holding
import InDoubt.Proofs.FileSystem.Writing

/-!
Who writes to which file. A created registry writes to the inode that it made, by a handle and not
by its path, so that neither what stands at the path later nor what other registries do matters: no
two registries hold one inode open, each holds the lock of its own until it is closed, and nobody
else's records go there (`sole_writer`). This holds of any number of processes, whatever is done to
the files between and during their steps.
-/

namespace InDoubt.World

open FileSystem

variable {u v w : World} {p : ProcessRef} {r r' : RegistryRef} {b : BranchRef} {s : Step}
  {inode : Nat} {written : Nat → Prop}

/-! What a run records and overwrites. -/

/-- What a step has recorded in a registry, if it answers well. -/
def logged (r : RegistryRef) (w : World) (s : Step) : List Locator :=
  match s, (w.step s).1 with
  | .record r' l, .done | .enlist r' l _, .branch _ => if r' = r then [l] else []
  | _, _ => []

/-- All that has been recorded in a registry, in order. -/
def recordings (r : RegistryRef) (steps : List Step) (start : World) : List Locator :=
  observe (fun w s ls => ls ++ logged r w s) steps start []

/-- The inodes of files that a step lets others write to: between two operations, or while a scan
goes on, which ends at once if the directory cannot be listed. -/
def overwritten (w : World) : Step → List Nat
  | .outside change => (w.files.written? change).toList
  | .scan p during | .sweep p during =>
      match w.files.registryFiles (w.process p).dir with
      | .ok _ => w.files.writtenIn during
      | .error _ => []
  | _ => []

theorem recordings_concat (r : RegistryRef) (past : List Step) (s : Step) (start : World) :
    recordings r (past ++ [s]) start = recordings r past start ++ logged r (after past start) s :=
  observe_concat ..

theorem logged_eq_nil (h : recordsIn? s ≠ some r) : logged r w s = [] := by
  unfold logged
  split
  all_goals first | rfl | exact if_neg fun same => h (congrArg some same)

/-- A registry with an open file records what it is asked to. -/
theorem logged_of_handle? (h : (w.registry r).handle? = some inode) (l : Locator) :
    logged r w (.record r l) = [l] ∧ ∀ node, logged r w (.enlist r l node) = [l] := by
  have succeeds : (w.record r l).1 = .ok () := record_eq_ok_iff.mpr (.inr (by rw [h]; rfl))
  constructor
  · simp [logged, step, succeeds, Answer.of]
  · intro node
    obtain ⟨f, bad, -⟩ | ⟨-, e⟩ := enlist_cases w r l node
    · rw [succeeds] at bad
      cases bad
    · simp [logged, step, e, Answer.of]

/-! What a step does to open files. -/

/-- The same files are open and locked, and only some inodes are written. -/
structure KeepsOpen (w v : World) (written : Nat → Prop) : Prop where
  handle : ∀ r, (v.registry r).handle? = (w.registry r).handle?
  files : Spares w.files v.files written

namespace KeepsOpen

theorem of_eq (registries : v.registries = w.registries) (files : v.files = w.files) :
    KeepsOpen w v written :=
  ⟨fun r => congrArg Registry.handle? (registry_congr registries r), files ▸ .refl _⟩

theorem trans (h : KeepsOpen u v written) (k : KeepsOpen v w written) : KeepsOpen u w written :=
  ⟨fun r => (k.handle r).trans (h.handle r), h.files.trans k.files⟩

theorem tree {files : FileSystem} (h : Spares w.files files written) :
    KeepsOpen w { w with files } written :=
  ⟨fun _ => rfl, h⟩

/-- A registry that is entered without an open file is none that holds one. -/
theorem enter {g : Registry} (registries : v.registries = w.registries ++ [g])
    (shut : g.handle? = none) (files : v.files = w.files) : KeepsOpen w v written where
  handle r := by
    by_cases old : r.index < w.registries.length
    · rw [registry_append registries old]
    · rw [registry_of_le (Nat.le_of_not_lt old)]
      by_cases new : r.index < v.registries.length
      · rw [eq_new registries (Nat.le_of_not_lt old) new, registry_append_new registries, shut]
        rfl
      · rw [registry_of_le (Nat.le_of_not_lt new)]
  files := files ▸ .refl _

/-- Registries are changed in what is not their open file. -/
theorem update {f : Registry → Registry} (registries : v.registries = w.registries.modify r.index f)
    (keeps : ∀ g, (f g).handle? = g.handle?) (files : Spares w.files v.files written) :
    KeepsOpen w v written where
  handle r' := by
    rw [registry_congr (w := w.updateRegistry r f) registries]
    exact part_updateRegistry Registry.handle? keeps r'
  files := files

end KeepsOpen

theorem keepsOpen_scan (p : ProcessRef) (during : List FileStep) :
    KeepsOpen w (w.scan p during).2 (· ∈ w.overwritten (.scan p during)) := by
  cases listed : w.files.registryFiles (w.process p).dir with
  | error f =>
      simp only [World.scan, listed]
      exact .of_eq rfl rfl
  | ok ids =>
      simp only [World.scan, overwritten, listed]
      refine recoverAll_induction (I := fun v => KeepsOpen w v (· ∈ w.files.writtenIn during)) ?_
        (.tree (.applyAll ..))
      intro v id _ _ h
      refine h.trans ?_
      obtain ⟨_, files, -, rfl | ⟨-, rfl⟩, e⟩ | ⟨l, ls, -, e⟩ :=
        recover_cases v p (w.process p).dir id <;> rw [e]
      · exact .of_eq rfl rfl
      · exact .tree (.unlinkUnlocked ..)
      · exact .enter (registries_adopt ..) rfl rfl

theorem keepsOpen_hostSweep : KeepsOpen w w.hostSweep.2 (fun _ => False) := by
  refine sweepEach_induction (I := fun v => KeepsOpen w v fun _ => False) ?_ (.of_eq rfl rfl)
  intro v p _ h
  refine h.trans ⟨(keepsOpen_scan p []).handle, (keepsOpen_scan p []).files.mono ?_⟩
  intro inode here
  simp only [overwritten] at here
  split at here <;> simp [writtenIn] at here

theorem keepsOpen_record (r : RegistryRef) (l : Locator) :
    KeepsOpen w (w.record r l).2 ((w.registry r).handle? = some ·) := by
  refine .update (registries_record ..) (fun _ => rfl) ?_
  rw [files_record]
  split
  · rename_i inode e
    exact .setContent inode _ e
  · exact .refl _

/-- The files of some registries are closed, which frees their locks. -/
structure Closes (w v : World) (closed : RegistryRef → Prop) : Prop where
  shut : ∀ {r}, closed r → (v.registry r).handle? = none
  handle : ∀ {r}, ¬closed r → (v.registry r).handle? = (w.registry r).handle?
  contents : v.files.contents = w.files.contents
  locked : ∀ {inode}, v.files.isLocked inode = true ↔ w.files.isLocked inode = true ∧
    ∀ r, closed r → (w.registry r).handle? ≠ some inode

theorem closes_releaseFrom (one : (w.registry r).count = 1) :
    Closes w (w.releaseFrom r b).2 (· = r) := by
  have hr : r.index < w.registries.length := lt_of_count_ne_zero (by omega)
  have freed (inode : Nat) : (w.files.unlock (w.registry r).handle?.toList).isLocked inode = true ↔
      w.files.isLocked inode = true ∧ ∀ r', r' = r → (w.registry r').handle? ≠ some inode := by
    simp [isLocked_unlock]
  have files : Spares (w.files.unlock (w.registry r).handle?.toList) (w.releaseFrom r b).2.files
      (fun _ => False) ∧ (w.releaseFrom r b).2.files.contents = w.files.contents := by
    rw [releaseFrom_of_eq one]
    split
    · rename_i e
      obtain ⟨_, _, -, -, -, -, rfl⟩ := unlink_eq_ok_iff.mp e
      exact ⟨.unlink e, rfl⟩
    · exact ⟨.refl _, rfl⟩
    · exact ⟨.refl _, rfl⟩
  refine ⟨?_, ?_, files.2, fun {inode} => ?_⟩
  · rintro _ rfl
    rw [registry_releaseFrom hr, if_pos rfl, Registry.handle?_released, if_pos one]
  · intro r' ne
    by_cases old : r'.index < w.registries.length
    · rw [registry_releaseFrom old, if_neg (Ne.symm ne)]
    · have gone := Nat.le_of_not_lt old
      rw [registry_of_le gone, registry_of_le]
      rwa [length_registries_releaseFrom]
  · rw [files.1.isLocked, freed]

theorem keepsOpen_releaseFrom (more : (w.registry r).count ≠ 1) :
    KeepsOpen w (w.releaseFrom r b).2 written := by
  rw [releaseFrom_of_ne more]
  exact .update (r := r) (f := fun g => { g with count := g.count - 1 }) rfl (fun _ => rfl)
    (.refl _)

theorem closes_crash (w : World) (p : ProcessRef) :
    Closes w (w.crash p) (fun r => (w.registry r).owner = p) where
  shut {r} own := by
    by_cases old : r.index < w.registries.length
    · rw [registry_crash w p r old, if_pos own, Registry.handle?_closed]
    · rw [registry_of_le (by simpa [crash] using old)]
      rfl
  handle {r} other := by
    by_cases old : r.index < w.registries.length
    · rw [registry_crash w p r old, if_neg other]
    · rw [registry_of_le (Nat.le_of_not_lt old), registry_of_le (by simpa [crash] using old)]
  contents := rfl
  locked {inode} := by
    have held : inode ∈ (w.registries.filter fun g => decide (g.owner = p)).filterMap
        Registry.handle? ↔ ∃ r, (w.registry r).owner = p ∧ (w.registry r).handle? = some inode := by
      simp only [List.mem_filterMap, List.mem_filter, decide_eq_true_eq]
      constructor
      · rintro ⟨g, ⟨mem, own⟩, holds⟩
        obtain ⟨i, lt, rfl⟩ := List.getElem_of_mem mem
        exact ⟨⟨i⟩, by simpa [registry, lt] using ⟨own, holds⟩⟩
      · rintro ⟨r, own, holds⟩
        refine ⟨_, ⟨?_, own⟩, holds⟩
        have lt : r.index < w.registries.length := by
          by_contra old
          rw [registry_of_le (Nat.le_of_not_lt old)] at holds
          cases holds
        simp [registry, lt]
    simp only [crash, isLocked_unlock, held, not_exists, not_and]

/-- One registry is entered, with an empty file of its own that it holds open and has locked. -/
structure OpensNew (w v : World) (g : Registry) (inode : Nat) : Prop where
  registries : v.registries = w.registries ++ [g]
  handle : g.handle? = some inode
  fresh : w.files.contents.length ≤ inode
  allocated : inode < v.files.contents.length
  empty : v.files.content inode = []
  content : ∀ {i}, i < w.files.contents.length → v.files.content i = w.files.content i
  locked : ∀ i, v.files.isLocked i = true ↔ i = inode ∨ w.files.isLocked i = true

theorem opensNew_createIn (w : World) (p : ProcessRef) (dir : String) (xid : Xid) :
    KeepsOpen w (w.createIn p dir xid).2 written ∨
      ∃ g inode, OpensNew w (w.createIn p dir xid).2 g inode := by
  have ready : Spares w.files (w.files.makeDirectories (Utf8.encode dir)).2 fun _ => False :=
    .makeDirectories ..
  obtain ⟨_, files, rfl | rfl, e⟩ | ⟨tree, inode, made, -, e', e'', e⟩ :=
    createIn_cases w p dir xid <;> rw [e]
  · exact .inl (.of_eq rfl rfl)
  · exact .inl (.tree (.makeDirectories ..))
  · obtain ⟨place, -, -, rfl, rfl⟩ := createNew_eq_ok_iff.mp e''
    rw [e'] at ready
    have made : Spares tree (tree.putNewFile place []) fun _ => False := .putNewFile ..
    have empty : (tree.putNewFile place []).content tree.contents.length = [] :=
      content_putNewFile_new
    refine .inr ⟨_, tree.contents.length, rfl, rfl, ready.numbered, ?_, empty, ?_, fun i => ?_⟩
    · simp [enter, putNewFile, lock]
    · intro i lt
      exact (ready.trans made).content lt not_false
    · have same : (tree.putNewFile place []).isLocked i = w.files.isLocked i := ready.isLocked i
      rw [← same]
      exact isLocked_lock

/-- All that a step can do to open files. -/
theorem step_open (w : World) (s : Step) :
    KeepsOpen w (w.step s).2 (fun inode => inode ∈ w.overwritten s ∨ Writes w s inode) ∨
      recordsIn? s = none ∧ ((∃ closed, Closes w (w.step s).2 closed) ∨
        ∃ g inode, OpensNew w (w.step s).2 g inode) := by
  cases s with
  | outside change =>
      refine .inl ?_
      rw [step_outside]
      refine ⟨fun _ => rfl, ?_⟩
      exact (Spares.apply ..).mono fun e => .inl (by simp [overwritten, e])
  | crash p => exact .inr ⟨rfl, .inl ⟨_, closes_crash w p⟩⟩
  | create p xid | createIn p dir xid =>
      rcases opensNew_createIn w p _ xid with keeps | new
      · exact .inl keeps
      · exact .inr ⟨rfl, .inr new⟩
  | record r l =>
      obtain ⟨handle, files⟩ := keepsOpen_record (w := w) r l
      exact .inl ⟨handle, files.mono fun e => .inr ⟨r, rfl, e⟩⟩
  | enlist r l node =>
      obtain ⟨handle, files⟩ := keepsOpen_record (w := w) r l
      refine .inl ⟨fun r' => ?_, ?_⟩
      · rw [← handle r']
        exact congrArg Registry.handle? (registry_congr (registries_enlist ..) r')
      · rw [files_step_enlist]
        exact files.mono fun e => .inr ⟨r, rfl, e⟩
  | release b =>
      by_cases one : (w.registry (w.branch b).registry).count = 1
      · exact .inr ⟨rfl, .inl ⟨_, closes_releaseFrom one⟩⟩
      · exact .inl (keepsOpen_releaseFrom one)
  | releaseFrom r b =>
      by_cases one : (w.registry r).count = 1
      · exact .inr ⟨rfl, .inl ⟨_, closes_releaseFrom one⟩⟩
      · exact .inl (keepsOpen_releaseFrom one)
  | scan p during | sweep p during =>
      obtain ⟨handle, files⟩ := keepsOpen_scan (w := w) p during
      exact .inl ⟨handle, files.mono .inl⟩
  | hostSweep =>
      obtain ⟨handle, files⟩ := keepsOpen_hostSweep (w := w)
      exact .inl ⟨handle, files.mono False.elim⟩
  | openLog config node | relocate p base | bind r l node | mark b | doubtVia r b | register p
  | unregister p | claim p id | unclaim p id | doubt p bs | settle p b =>
      exact .inl (.of_eq (registries_step rfl) (files_step rfl))

/-! No inode has two writers. -/

/-- An inode is locked exactly if a registry holds it open, and then only one does. -/
structure SoleWriters (w : World) : Prop where
  numbered : ∀ {r inode}, (w.registry r).handle? = some inode → inode < w.files.contents.length
  single : ∀ {r r' inode}, (w.registry r).handle? = some inode →
    (w.registry r').handle? = some inode → r = r'
  locked : ∀ inode, w.files.isLocked inode = true ↔ ∃ r, (w.registry r).handle? = some inode

namespace SoleWriters

theorem kept (h : SoleWriters w) (keeps : KeepsOpen w v written) : SoleWriters v where
  numbered holds := Nat.lt_of_lt_of_le (h.numbered (keeps.handle _ ▸ holds)) keeps.files.numbered
  single holds holds' := h.single (keeps.handle _ ▸ holds) (keeps.handle _ ▸ holds')
  locked inode := by
    simp only [keeps.files.isLocked, h.locked, keeps.handle]

theorem closes {closed : RegistryRef → Prop} (h : SoleWriters w) (shuts : Closes w v closed) :
    SoleWriters v := by
  have earlier {r : RegistryRef} {inode : Nat} (holds : (v.registry r).handle? = some inode) :
      ¬closed r ∧ (w.registry r).handle? = some inode := by
    have stays : ¬closed r := fun gone => by
      rw [shuts.shut gone] at holds
      cases holds
    exact ⟨stays, shuts.handle stays ▸ holds⟩
  refine ⟨fun holds => ?_, fun holds holds' => h.single (earlier holds).2 (earlier holds').2,
    fun inode => ?_⟩
  · rw [shuts.contents]
    exact h.numbered (earlier holds).2
  · rw [shuts.locked, h.locked]
    constructor
    · rintro ⟨⟨r, holds⟩, others⟩
      exact ⟨r, (shuts.handle fun gone => others r gone holds).trans holds⟩
    · rintro ⟨r, holds⟩
      obtain ⟨stays, before⟩ := earlier holds
      refine ⟨⟨r, before⟩, fun r' gone holds' => stays ?_⟩
      exact h.single before holds' ▸ gone

theorem opens {g : Registry} (h : SoleWriters w) (new : OpensNew w v g inode) : SoleWriters v := by
  have last := registry_append_new new.registries
  have holds_iff {r : RegistryRef} {i : Nat} : (v.registry r).handle? = some i ↔
      (r = ⟨w.registries.length⟩ ∧ i = inode) ∨ (w.registry r).handle? = some i := by
    by_cases old : r.index < w.registries.length
    · rw [registry_append new.registries old]
      refine (or_iff_right ?_).symm
      rintro ⟨rfl, -⟩
      exact Nat.lt_irrefl _ old
    · rw [registry_of_le (w := w) (Nat.le_of_not_lt old)]
      by_cases there : r.index < v.registries.length
      · obtain rfl := eq_new new.registries (Nat.le_of_not_lt old) there
        have unheld : (default : Registry).handle? = none := rfl
        simp [last, new.handle, unheld, eq_comm]
      · rw [registry_of_le (Nat.le_of_not_lt there)]
        refine (or_iff_right ?_).symm
        rintro ⟨rfl, -⟩
        simp [new.registries] at there
  have apart {r : RegistryRef} : (w.registry r).handle? ≠ some inode := fun holds =>
    Nat.not_lt.mpr new.fresh (h.numbered holds)
  refine ⟨fun {r i} holds => ?_, fun {r r' i} holds holds' => ?_, fun i => ?_⟩
  · rcases holds_iff.mp holds with ⟨-, rfl⟩ | before
    · exact new.allocated
    · exact Nat.lt_trans (Nat.lt_of_lt_of_le (h.numbered before) new.fresh) new.allocated
  · rcases holds_iff.mp holds with ⟨rfl, rfl⟩ | before <;>
      rcases holds_iff.mp holds' with ⟨rfl, e⟩ | before'
    · rfl
    · exact absurd before' apart
    · exact absurd (e ▸ before) apart
    · exact h.single before before'
  · rw [new.locked, h.locked]
    simp only [holds_iff, exists_or]
    simp

theorem step (h : SoleWriters w) (s : Step) : SoleWriters (w.step s).2 := by
  obtain keeps | ⟨-, ⟨_, shuts⟩ | ⟨_, _, new⟩⟩ := step_open w s
  · exact h.kept keeps
  · exact h.closes shuts
  · exact h.opens new

/-- The file that a registry holds open gets what is recorded in that registry, and nothing else
unless others write to it. -/
theorem content_step (h : SoleWriters w) (handle : (w.registry r).handle? = some inode)
    (alone : inode ∉ w.overwritten s) : (w.step s).2.files.content inode =
      w.files.content inode ++ recordBytes (logged r w s) := by
  have lt := h.numbered handle
  have idle (other : recordsIn? s = none) : logged r w s = [] :=
    logged_eq_nil (by simp [other])
  obtain keeps | ⟨other, ⟨_, shuts⟩ | ⟨_, _, new⟩⟩ := step_open w s
  · by_cases writes : Writes w s inode
    · obtain ⟨r', into, handle'⟩ := writes
      obtain rfl := h.single handle handle'
      cases s <;> simp only [recordsIn?, Option.some.injEq, reduceCtorEq] at into <;> subst into
      · rw [(logged_of_handle? handle _).1, recordBytes_singleton]
        simp only [World.step, Prod.map_snd, id_eq, files_record, handle]
        exact content_appendTo_self lt
      · rw [(logged_of_handle? handle _).2, recordBytes_singleton]
        simp only [World.step, Prod.map_snd, id_eq, files_enlist, files_record, handle]
        exact content_appendTo_self lt
    · rw [logged_eq_nil fun into => writes ⟨r, into, handle⟩, recordBytes_nil, List.append_nil]
      exact keeps.files.content lt (not_or.mpr ⟨alone, writes⟩)
  · rw [idle other, recordBytes_nil, List.append_nil]
    exact congrArg (List.getD · _ _) shuts.contents
  · rw [idle other, recordBytes_nil, List.append_nil]
    exact new.content lt

end SoleWriters

/-- An open file was open before, or the registry and the file are new. -/
theorem handle?_step_eq_some (holds : ((w.step s).2.registry r).handle? = some inode) :
    (w.registry r).handle? = some inode ∨ w.registries.length ≤ r.index ∧
      w.files.contents.length ≤ inode ∧ (w.step s).2.files.content inode = [] := by
  obtain keeps | ⟨-, ⟨closed, shuts⟩ | ⟨g, i, new⟩⟩ := step_open w s
  · exact .inl (keeps.handle r ▸ holds)
  · by_cases gone : closed r
    · rw [shuts.shut gone] at holds
      cases holds
    · exact .inl (shuts.handle gone ▸ holds)
  · by_cases old : r.index < w.registries.length
    · exact .inl (registry_append new.registries old ▸ holds)
    · have ge := Nat.le_of_not_lt old
      have lt : r.index < (w.step s).2.registries.length := by
        by_contra missing
        rw [registry_of_le (Nat.le_of_not_lt missing)] at holds
        cases holds
      rw [eq_new new.registries ge lt, registry_append_new new.registries, new.handle] at holds
      cases holds
      exact .inr ⟨ge, new.fresh, new.empty⟩

theorem numbered_step (w : World) (s : Step) :
    w.files.contents.length ≤ (w.step s).2.files.contents.length := by
  obtain keeps | ⟨-, ⟨_, shuts⟩ | ⟨_, _, new⟩⟩ := step_open w s
  · exact keeps.files.numbered
  · exact Nat.le_of_eq (congrArg List.length shuts.contents.symm)
  · exact Nat.le_of_lt (Nat.lt_of_le_of_lt new.fresh new.allocated)

/-- A file that no registry holds open stays as it is, unless others write to it. -/
theorem content_step_of_unheld (lt : inode < w.files.contents.length)
    (unheld : ∀ r, (w.registry r).handle? ≠ some inode) (alone : inode ∉ w.overwritten s) :
    (w.step s).2.files.content inode = w.files.content inode := by
  obtain keeps | ⟨-, ⟨_, shuts⟩ | ⟨_, _, new⟩⟩ := step_open w s
  · exact keeps.files.content lt (not_or.mpr ⟨alone, fun ⟨r, _, handle⟩ => unheld r handle⟩)
  · exact congrArg (List.getD · _ _) shuts.contents
  · exact new.content lt

/-- Nothing is recorded in a registry that is not there. -/
theorem logged_of_le (admitted : w.Admits s) (ge : w.registries.length ≤ r.index) :
    logged r w s = [] := by
  refine logged_eq_nil fun into => ?_
  cases s <;> simp only [recordsIn?, Option.some.injEq, reduceCtorEq] at into <;> subst into
  all_goals exact Nat.not_lt.mpr ge admitted.1

/-- Nothing is recorded in a created registry once it has been closed. -/
theorem logged_of_closed (live : (w.registry r).isLive = true)
    (closed : (w.registry r).handle? = none) : logged r w s = [] := by
  have refused (l : Locator) : (w.record r l).1 ≠ .ok () := by
    rw [Ne, record_eq_ok_iff, closed]
    unfold Registry.isLive at live
    split at live <;> rename_i e <;> simp_all
  by_cases into : recordsIn? s = some r
  · cases s <;> simp only [recordsIn?, Option.some.injEq, reduceCtorEq] at into
    · rename_i r' l
      subst r'
      cases e : (w.record r l).1 with
      | ok _ => exact absurd e (refused l)
      | error f => simp [logged, step, e, Answer.of]
    · rename_i r' l node
      subst r'
      obtain ⟨f, -, e⟩ | ⟨succeeds, -⟩ := enlist_cases w r l node
      · simp [logged, step, e, Answer.of]
      · exact absurd succeeds (refused l)
  · exact logged_eq_nil into

/-! What the files hold that registries have made. -/

/-- A registry has held an inode open at some point of a run. -/
def Held (r : RegistryRef) (inode : Nat) (steps : List Step) (start : World) : Prop :=
  Sometime (fun w s => ((w.step s).2.registry r).handle? = some inode) steps start

/-- Others have written to an inode at some point of a run. -/
def Tampered (inode : Nat) (steps : List Step) (start : World) : Prop :=
  Sometime (fun w s => inode ∈ w.overwritten s) steps start

instance (r : RegistryRef) (inode : Nat) (steps : List Step) (start : World) :
    Decidable (Held r inode steps start) :=
  inferInstanceAs (Decidable (Sometime _ _ _))

instance (inode : Nat) (steps : List Step) (start : World) :
    Decidable (Tampered inode steps start) :=
  inferInstanceAs (Decidable (Sometime _ _ _))

/-- A file that a registry has made is nobody else's, also when it has been closed, and holds what
was recorded in that registry. -/
structure Authored (past : List Step) (start w : World) : Prop where
  sole : SoleWriters w
  unborn : ∀ {r}, w.registries.length ≤ r.index → recordings r past start = []
  held : ∀ {r inode}, (w.registry r).handle? = some inode → Held r inode past start
  live : ∀ {r inode}, Held r inode past start → (w.registry r).isLive = true ∧
    ((w.registry r).handle? = some inode ∨ (w.registry r).handle? = none)
  numbered : ∀ {r inode}, Held r inode past start → inode < w.files.contents.length
  single : ∀ {r r' inode}, Held r inode past start → Held r' inode past start → r = r'
  content : ∀ {r inode}, Held r inode past start → ¬Tampered inode past start →
    w.files.content inode = recordBytes (recordings r past start)

namespace Authored

variable {start : World} {past : List Step}

theorem lt (h : Authored past start w) (held : Held r inode past start) :
    r.index < w.registries.length := by
  by_contra missing
  have live := (h.live held).1
  rw [registry_of_le (Nat.le_of_not_lt missing)] at live
  cases live

theorem held_concat (h : Authored past start (after past start)) :
    Held r inode (past ++ [s]) start ↔ Held r inode past start ∨
      (((after past start).step s).2.registry r).handle? = some inode ∧
        (after past start).registries.length ≤ r.index ∧
        (after past start).files.contents.length ≤ inode ∧
        ((after past start).step s).2.files.content inode = [] := by
  unfold Held
  rw [sometime_concat]
  constructor
  · rintro (before | now)
    · exact .inl before
    · rcases handle?_step_eq_some now with before | new
      · exact .inl (h.held before)
      · exact .inr ⟨now, new⟩
  · rintro (before | new)
    · exact .inl before
    · exact .inr new.1

theorem step (h : Authored past start (after past start)) (admitted : (after past start).Admits s) :
    Authored (past ++ [s]) start ((after past start).step s).2 := by
  have extended := extends_step (after past start) s
  have sole := h.sole.step s
  refine ⟨sole, fun {r} ge => ?_, fun {r inode} holds => ?_, fun {r inode} held => ?_,
    fun {r inode} held => ?_, fun {r r' inode} held held' => ?_, fun {r inode} held alone => ?_⟩
  · have ge' := Nat.le_trans extended.registries ge
    rw [recordings_concat, h.unborn ge', logged_of_le admitted ge']
    rfl
  · exact sometime_concat.mpr (.inr holds)
  · rcases h.held_concat.mp held with before | ⟨now, -⟩
    · obtain ⟨live, holding⟩ := h.live before
      refine ⟨(extended.isLive (h.lt before)).trans live, ?_⟩
      cases now : (((after past start).step s).2.registry r).handle? with
      | none => exact .inr rfl
      | some i =>
          rcases handle?_step_eq_some now with same | ⟨ge, -⟩
          · exact .inl (by simpa [same] using holding)
          · exact absurd (h.lt before) (Nat.not_lt.mpr ge)
    · refine ⟨?_, .inl now⟩
      unfold Registry.handle? at now
      unfold Registry.isLive
      split at now <;> simp_all
  · rcases h.held_concat.mp held with before | ⟨now, -⟩
    · exact Nat.lt_of_lt_of_le (h.numbered before) (numbered_step _ s)
    · exact sole.numbered now
  · rcases h.held_concat.mp held with before | ⟨now, -, fresh, -⟩ <;>
      rcases h.held_concat.mp held' with before' | ⟨now', -, fresh', -⟩
    · exact h.single before before'
    · exact absurd (h.numbered before) (Nat.not_lt.mpr fresh')
    · exact absurd (h.numbered before') (Nat.not_lt.mpr fresh)
    · exact sole.single now now'
  · unfold Tampered at alone
    rw [sometime_concat, not_or] at alone
    rw [recordings_concat, recordBytes_append]
    rcases h.held_concat.mp held with before | ⟨now, ge, -, empty⟩
    · obtain ⟨live, holding | closed⟩ := h.live before
      · rw [h.sole.content_step holding alone.2, h.content before alone.1]
      · have unheld (r' : RegistryRef) :
            ((after past start).registry r').handle? ≠ some inode := by
          intro holds
          obtain rfl := h.single before (h.held holds)
          rw [closed] at holds
          cases holds
        rw [content_step_of_unheld (h.numbered before) unheld alone.2, h.content before alone.1,
          logged_of_closed live closed, recordBytes_nil, List.append_nil]
    · rw [empty, h.unborn ge, logged_of_le admitted ge]
      rfl

end Authored

/-- In a world in which no process has been started no file is open, whatever files there are. -/
theorem soleWriters_ofFiles (changes : List FileStep) :
    SoleWriters (ofFiles (FileSystem.empty.applyAll changes)) := by
  have unheld (r : RegistryRef) :
      ((ofFiles (FileSystem.empty.applyAll changes)).registry r).handle? = none := by
    rw [registry_of_le (Nat.zero_le _)]
    rfl
  refine ⟨fun holds => ?_, fun holds => ?_, fun inode => ?_⟩
  · rw [unheld] at holds
    cases holds
  · rw [unheld] at holds
    cases holds
  · have free : (ofFiles (FileSystem.empty.applyAll changes)).files.isLocked inode = false :=
      (Spares.applyAll .empty changes).isLocked inode
    simp [free, unheld]

theorem authored_along {changes : List FileStep} {steps : List Step}
    (admitted : Along Admits steps (ofFiles (FileSystem.empty.applyAll changes))) :
    let start := ofFiles (FileSystem.empty.applyAll changes)
    Authored steps start (after steps start) := by
  intro start
  refine along_induction (I := fun past w => Authored past start w) ?_ ?_ steps admitted
  · have unheld (r : RegistryRef) : (start.registry r).handle? = none := by
      rw [registry_of_le (Nat.zero_le _)]
      rfl
    refine ⟨soleWriters_ofFiles changes, fun _ => rfl, fun holds => ?_, False.elim, False.elim,
      False.elim, False.elim⟩
    rw [unheld] at holds
    cases holds
  · exact fun past s _ admits h => h.step admits

/-- At every point of a run of any number of processes, whatever is done to the files: no two
registries hold one file open; the files that are held open are those that are locked; and a file
that is held open has the records of its registry, in order, unless others have written to it. -/
theorem sole_writer (changes : List FileStep) (steps : List Step)
    (admitted : Along Admits steps (ofFiles (FileSystem.empty.applyAll changes))) :
    let start := ofFiles (FileSystem.empty.applyAll changes)
    let w := after steps start
    (∀ {r r' inode}, (w.registry r).handle? = some inode →
      (w.registry r').handle? = some inode → r = r') ∧
    (∀ inode, w.files.isLocked inode = true ↔ ∃ r, (w.registry r).handle? = some inode) ∧
    ∀ {r inode}, (w.registry r).handle? = some inode → ¬Tampered inode steps start →
      w.files.content inode = recordBytes (recordings r steps start) := by
  intro start w
  have authored : Authored steps start w := authored_along admitted
  exact ⟨authored.sole.single, authored.sole.locked,
    fun holds alone => authored.content (authored.held holds) alone⟩

/-- The file of a registry is renamed, another process creates one at its path, to which somebody
writes, and the renamed file is unlinked during a scan. -/
def parted : List Step :=
  let path := Utf8.encode (joinPath (Config.dir {}) Xid.sample.name)
  [.openLog {} "n", .openLog {} "m", .create ⟨0⟩ .sample, .enlist ⟨0⟩ .sample "n",
    .outside (.rename path (Utf8.encode "aside")), .create ⟨1⟩ .sample,
    .outside (.append path [0x21]), .scan ⟨0⟩ [.unlink (Utf8.encode "aside")],
    .record ⟨0⟩ .sample]

/-- The first registry still has its file to itself, with both of its records. -/
theorem sole_writer_parted :
    let start := ofFiles (FileSystem.empty.applyAll [])
    let w := after parted start
    Along Admits parted start ∧ (w.registry ⟨0⟩).handle? = some 0 ∧
      (w.registry ⟨1⟩).handle? = some 1 ∧ w.files.isLocked 0 = true ∧
      ¬Tampered 0 parted start ∧
      w.files.content 0 = recordBytes [.sample, .sample] := by
  intro start w
  have admitted : Along Admits parted start := by decide +kernel
  have holds : (w.registry ⟨0⟩).handle? = some 0 := by decide +kernel
  have untouched : ¬Tampered 0 parted start := by decide +kernel
  obtain ⟨-, locked, content⟩ := sole_writer [] parted admitted
  have made : recordings ⟨0⟩ parted start = [.sample, .sample] := by decide +kernel
  refine ⟨admitted, holds, by decide +kernel, (locked 0).mpr ⟨⟨0⟩, holds⟩, untouched, ?_⟩
  rw [content holds untouched, made]

end InDoubt.World

import InDoubt.Proofs.Culling
import InDoubt.Proofs.FileSystem.Paving
import InDoubt.Proofs.Identity

/-!
All that the creation of a registry does, at any point of a run. A creation that is refused leaves
new directories behind at most (`Refuses`). One that succeeds found nothing at its path, and enters
one registry with one empty file that no other registry holds open (`Creates`). There is no third
outcome.
-/

namespace InDoubt.World

open FileSystem

variable {w v : World} {p : ProcessRef} {r : RegistryRef} {dir : String} {xid : Xid} {inode : Nat}

/-- A creation is refused. Nothing is changed but the tree, in which directories may have been made
on the way to `dir`; none are if the process had the identifier. -/
structure Refuses (p : ProcessRef) (dir : String) (xid : Xid) (w : World) (f : Failure)
    (v : World) : Prop where
  failure : ∃ cause, f = .createFailed (joinPath dir xid.name) cause ∧
    (cause = .alreadyOpen ↔ xid.name ∈ (w.process p).openIds)
  paved : Paves (Utf8.encode dir) w.files v.files
  rest : v = { w with files := v.files }
  owned : xid.name ∈ (w.process p).openIds → v = w

/-- A creation succeeds, with a new file under the number `inode`. -/
structure Creates (p : ProcessRef) (dir : String) (xid : Xid) (w : World) (r : RegistryRef)
    (inode : Nat) (v : World) : Prop where
  free : xid.name ∉ (w.process p).openIds
  /-- Nothing stood at the path, not even a link. -/
  vacant : ∀ {place}, w.files.locateEntry (Utf8.encode (joinPath dir xid.name)) = .ok place →
    w.files.node? place = none
  /-- Besides directories, the file is all that has been entered. -/
  filed : ∃ tree place, Paves (Utf8.encode dir) w.files tree ∧ tree.node? place = none ∧
    v.files.entries = (place, .file inode) :: tree.entries ∧
    HomeAt v.files (Utf8.encode (joinPath dir xid.name)) place inode
  fresh : inode = w.files.contents.length
  contents : v.files.contents = w.files.contents ++ [[]]
  unlocked : w.files.isLocked inode = false
  locked : v.files.locked = inode :: w.files.locked
  alone : ∀ {r'}, (v.registry r').handle? = some inode ↔ r' = r
  ref : r = ⟨w.registries.length⟩
  registries : v.registries =
    w.registries ++ [⟨p, xid.name, joinPath dir xid.name, .created (some inode), 0⟩]
  number : v.processes.length = w.processes.length
  process : ∀ q, v.process q =
    if q = p then { w.process p with openIds := (w.process p).openIds.insert xid.name }
    else w.process q
  branches : v.branches = w.branches
  callbacks : v.callbacks = w.callbacks

/-- What a creation answers, and the world that it leaves. -/
inductive Creation (p : ProcessRef) (dir : String) (xid : Xid) (w : World) :
    Except Failure RegistryRef × World → Prop
  | refused {f : Failure} {v : World} (h : Refuses p dir xid w f v) :
      Creation p dir xid w (.error f, v)
  | created {r : RegistryRef} {inode : Nat} {v : World} (h : Creates p dir xid w r inode v) :
      Creation p dir xid w (.ok r, v)

theorem Creation.refuses {outcome : Except Failure RegistryRef × World} {f : Failure}
    (h : Creation p dir xid w outcome) (answer : outcome.1 = .error f) :
    Refuses p dir xid w f outcome.2 := by
  cases h with
  | refused h => exact Except.error.inj answer ▸ h
  | created => cases answer

theorem Creation.creates {outcome : Except Failure RegistryRef × World}
    (h : Creation p dir xid w outcome) (answer : outcome.1 = .ok r) :
    ∃ inode, Creates p dir xid w r inode outcome.2 := by
  cases h with
  | refused => cases answer
  | created h => exact ⟨_, Except.ok.inj answer ▸ h⟩

theorem refuses_owned (own : xid.name ∈ (w.process p).openIds) :
    Refuses p dir xid w (.createFailed (joinPath dir xid.name) .alreadyOpen) w :=
  ⟨⟨_, rfl, iff_of_true rfl own⟩, .refl .., rfl, fun _ => rfl⟩

theorem refuses_paved {tree : FileSystem} {e : SystemError}
    (free : xid.name ∉ (w.process p).openIds) (paved : Paves (Utf8.encode dir) w.files tree) :
    Refuses p dir xid w (.createFailed (joinPath dir xid.name) (.system e))
      { w with files := tree } :=
  ⟨⟨_, rfl, iff_of_false nofun free⟩, paved, rfl, fun own => absurd own free⟩

/-- The registry has been entered with a file that did not stand in the tree before. -/
theorem creates_enter {tree made : FileSystem} (sole : SoleWriters w) (runs : w.Runs p)
    (free : xid.name ∉ (w.process p).openIds) (paved : Paves (Utf8.encode dir) w.files tree)
    (new : tree.createNew (Utf8.encode (joinPath dir xid.name)) = .ok (inode, made))
    (sole' : SoleWriters (w.enter p (made.lock inode) xid.name (joinPath dir xid.name) inode)) :
    Creates p dir xid w ⟨w.registries.length⟩ inode
      (w.enter p (made.lock inode) xid.name (joinPath dir xid.name) inode) := by
  have held := xid.holdable_name
  obtain ⟨stands, -, home, -⟩ := HomeAt.of_createNew new (endsInSlash_joinPath dir held.2 held.1.1)
  obtain ⟨place, located, nothing, rfl, rfl⟩ := createNew_eq_ok_iff.mp new
  have fresh : tree.contents.length = w.files.contents.length := congrArg _ paved.contents
  have alters : Alters tree (tree.putNewFile place []) (fun _ => False) fun _ => False :=
    .createNew new
  obtain rfl : place = stands :=
    Except.ok.inj ((locateEntry_kept alters.ways located).symm.trans home.located)
  have vacant {before : Place}
      (led : w.files.locateEntry (Utf8.encode (joinPath dir xid.name)) = .ok before) :
      w.files.node? before = none := by
    obtain rfl : before = place :=
      Except.ok.inj ((locateEntry_kept paved.ways led).symm.trans located)
    exact paved.free nothing
  have unlocked : w.files.isLocked tree.contents.length = false := by
    refine eq_false_of_ne_true fun locked => ?_
    obtain ⟨r, handle⟩ := (sole.locked _).mp locked
    exact Nat.lt_irrefl _ (fresh ▸ sole.numbered handle)
  have mine : ((w.enter p ((tree.putNewFile place []).lock tree.contents.length) xid.name
      (joinPath dir xid.name) tree.contents.length).registry ⟨w.registries.length⟩).handle? =
      some tree.contents.length := by
    rw [registry_append_new (w := w) rfl]
    rfl
  have filed : (tree.putNewFile place []).entries = (place, .file tree.contents.length) ::
      tree.entries := entries_put_of_free nothing
  refine ⟨free, vacant, ⟨tree, place, paved, nothing, filed, home.congr rfl⟩, fresh,
    congrArg (· ++ [[]]) paved.contents, unlocked, congrArg (_ :: ·) paved.locked, ?_, rfl, rfl,
    by simp [enter], fun q => ?_, rfl, rfl⟩
  · exact ⟨fun handle => sole'.single handle mine, fun same => same ▸ mine⟩
  · split
    · rename_i same
      subst same
      exact process_updateProcess_self runs.1 _
    · rename_i other
      exact process_updateProcess_of_ne other _

theorem creation (sole : SoleWriters w) (runs : w.Runs p) (dir : String) (xid : Xid) :
    Creation p dir xid w (w.createIn p dir xid) := by
  by_cases own : xid.name ∈ (w.process p).openIds
  · rw [createIn_of_mem own]
    exact .refused (refuses_owned own)
  · have paved := paves_makeDirectories w.files (Utf8.encode dir)
    generalize made : w.files.makeDirectories (Utf8.encode dir) = outcome at paved
    obtain ⟨⟨e⟩ | ⟨⟩, tree⟩ := outcome
    · rw [createIn_of_failed own (.inl made)]
      exact .refused (refuses_paved own paved)
    · cases new : tree.createNew (Utf8.encode (joinPath dir xid.name)) with
      | error e =>
          rw [createIn_of_failed own (.inr ⟨made, new⟩)]
          exact .refused (refuses_paved own paved)
      | ok entry =>
          have after : SoleWriters (w.createIn p dir xid).2 := sole.step (.createIn p dir xid)
          rw [createIn_of_made own made new] at after ⊢
          exact .created (creates_enter sole runs own paved new after)

/-- At every point of a run of any number of processes, whatever is done to the files, a creation in
the directory of the log or any other is refused and has at most made directories, or it enters one
registry with a new empty file that it alone holds open, where nothing stood. -/
theorem creation_atomic (changes : List FileStep) (steps : List Step)
    (runs : (after steps (ofFiles (FileSystem.empty.applyAll changes))).Runs p) (xid : Xid) :
    let w := after steps (ofFiles (FileSystem.empty.applyAll changes))
    (∀ dir, Creation p dir xid w (w.createIn p dir xid)) ∧
      Creation p (w.process p).dir xid w (w.create p xid) := by
  intro w
  have sole : SoleWriters w := (soleWriters_ofFiles changes).after steps
  exact ⟨fun dir => creation sole runs dir xid, creation sole runs (w.process p).dir xid⟩

/-- Two logs share a directory, and one of them has a registry. -/
def sharing : List Step := [.openLog {} "n", .openLog {} "m", .create ⟨0⟩ .sample]

/-- For the same transaction either log is refused, and for one whose name is too long with new
directories left behind. For another transaction the second log gets a registry. -/
theorem creation_atomic_sharing :
    let w := after sharing (ofFiles (FileSystem.empty.applyAll []))
    let path := joinPath "./xa-recovery" Xid.sample.name
    w.Runs ⟨0⟩ ∧ w.Runs ⟨1⟩ ∧
      Refuses ⟨0⟩ "./xa-recovery" .sample w (.createFailed path .alreadyOpen)
        (w.create ⟨0⟩ .sample).2 ∧
      Refuses ⟨1⟩ "./xa-recovery" .sample w (.createFailed path (.system .alreadyExists))
        (w.create ⟨1⟩ .sample).2 ∧
      (w.create ⟨1⟩ .sample).2 = w ∧
      (∃ v, Refuses ⟨1⟩ "x/y" .longest w
          (.createFailed (joinPath "x/y" Xid.longest.name) (.system .nameTooLong)) v ∧
        v.files.entries.length = w.files.entries.length + 2) ∧
      ∃ v, Creates ⟨1⟩ "./xa-recovery" { Xid.sample with formatId := 2 } w ⟨1⟩ 1 v := by
  intro w path
  have runs : w.Runs ⟨0⟩ := by decide +kernel
  have runs' : w.Runs ⟨1⟩ := by decide +kernel
  obtain ⟨-, first⟩ := creation_atomic [] sharing runs .sample
  obtain ⟨-, second⟩ := creation_atomic [] sharing runs' .sample
  obtain ⟨long, -⟩ := creation_atomic [] sharing runs' .longest
  obtain ⟨-, other⟩ := creation_atomic [] sharing runs' { Xid.sample with formatId := 2 }
  obtain ⟨inode, creates⟩ := other.creates (r := ⟨1⟩) (by decide +kernel)
  obtain rfl : inode = 1 := creates.fresh.trans (by decide +kernel)
  exact ⟨runs, runs', first.refuses (by decide +kernel),
    second.refuses (by decide +kernel), by decide +kernel,
    ⟨_, (long "x/y").refuses (by decide +kernel), by decide +kernel⟩, _, creates⟩

end InDoubt.World

import InDoubt.Proofs.Lifetime
import InDoubt.Proofs.Retention
import InDoubt.Proofs.Twins

/-!
The end of a registry's life. Its handles are released once each, in any order, while its log marks
handles that are left and scans its directory. Up to the last release nothing happens to the file,
the claim and the lock, and no scan finds the file. Each handle takes its mentions in doubt with it,
so that the world is, but for the count, what the other steps alone would have made of it
(`Midway`). The last release takes the file, the claim and the lock away, and nothing else is then
left of the registry (`life_cycle`).
-/

namespace InDoubt.World

open FileSystem

variable {u v w x y : World} {p q : ProcessRef} {r r' : RegistryRef} {b last : BranchRef}
  {s birth : Step} {place : Place} {inode : Nat} {out hs : List BranchRef}
  {past mid work first : List Step}

/-- A registry is entered by its log, and lives on through some steps. -/
structure Began (p : ProcessRef) (r : RegistryRef) (u : World) (birth : Step) (mid : List Step) :
    Prop where
  runs : u.Runs p
  begins : Begins p birth
  entered : Entered u (u.step birth).2 p r
  minded : Along (Minds p r) mid (u.step birth).2

/-- The handles that are released in a run, each time that they are. -/
def releasedIn (steps : List Step) : List BranchRef := steps.filterMap releases?

/-- A scan or a sweep of a log, or a sweep by the host if that has registered no other log. -/
def Sweeps (p : ProcessRef) (w : World) (s : Step) : Prop :=
  Looks p s ∨ s = .hostSweep ∧ ∀ q ∈ w.callbacks, q = p

/-- A run that leaves one handle of a registry to be released. The others are released once each,
none of them is marked after its release, and the log is scanned and swept in between. -/
structure Unwinds (p : ProcessRef) (r : RegistryRef) (w : World) (work : List Step)
    (last : BranchRef) : Prop where
  steps : ∀ s ∈ work, Sweeps p w s ∨ (∃ b, s = .release b) ∨
    ∃ b, s = .mark b ∧ b.index < w.branches.length
  once : (releasedIn work ++ [last]).Perm (w.handlesOf r)
  unreleased : ∀ {first b}, first ++ [.mark b] <+: work → b ∉ releasedIn first

/-- The step is about one of these handles. -/
def concerns (hs : List BranchRef) : Step → Bool
  | .release b | .mark b => b ∈ hs
  | _ => false

/-- The steps of a run that are about none of these handles. -/
def others (hs : List BranchRef) (steps : List Step) : List Step :=
  steps.filter fun s => !concerns hs s

/-! Before the last release. -/

/-- A registry of which some handles have been released, but not all. The world `v` is what the
other steps alone have made of `w`. -/
structure Midway (p : ProcessRef) (r : RegistryRef) (w : World) (place : Place) (inode : Nat)
    (out : List BranchRef) (x v : World) : Prop where
  orderly : Orderly x
  entered : r.index < w.registries.length
  extended : Extends w x
  lives : Lives p r x place inode
  count : (x.registry r).count + out.length = (w.handlesOf r).length
  handle : (x.registry r).handle? = (w.registry r).handle?
  content : x.files.content inode = w.files.content inode
  handles : x.handlesOf r = w.handlesOf r
  mine : ∀ b ∈ out, b ∈ w.handlesOf r
  callbacks : x.callbacks = w.callbacks
  settled : ∀ b ∈ out, b ∉ (x.process p).inDoubt
  twins : Twins p r (w.handlesOf r) x v

/-- Branches of other registries add no handles. -/
theorem handlesOf_append {bs : List Branch} (e : v.branches = w.branches ++ bs)
    (other : ∀ b ∈ bs, b.registry ≠ r) : v.handlesOf r = w.handlesOf r := by
  unfold handlesOf
  rw [e, List.length_append, List.range_add, List.map_append, List.filter_append]
  have old : ((List.range w.branches.length).map BranchRef.mk).filter
        (fun b => (v.branch b).registry = r) =
      ((List.range w.branches.length).map BranchRef.mk).filter
        (fun b => (w.branch b).registry = r) := by
    refine List.filter_congr fun b mem => ?_
    obtain ⟨i, lt, rfl⟩ := List.mem_map.mp mem
    rw [branch_append e (List.mem_range.mp lt)]
  have new : (((List.range bs.length).map (w.branches.length + ·)).map BranchRef.mk).filter
      (fun b => (v.branch b).registry = r) = [] := by
    refine List.filter_eq_nil_iff.mpr fun b mem => ?_
    simp only [List.mem_map, List.mem_range] at mem
    obtain ⟨_, ⟨i, lt, rfl⟩, rfl⟩ := mem
    have added : v.branch ⟨w.branches.length + i⟩ = bs[i] := by simp [World.branch, e, lt]
    rw [added]
    simpa using other _ (List.getElem_mem _)
  rw [old, new, List.append_nil]

namespace Midway

/-- The file is where it was, also in the other world. -/
theorem home (h : Midway p r w place inode out x v) :
    HomeAt v.files (Utf8.encode (w.registry r).path) place inode := by
  rw [← h.extended.path h.entered, ← h.twins.files]
  exact h.lives.backed.home

/-- A created registry holds its file open from the start. -/
theorem held (h : Midway p r w place inode out x v) (live : (w.registry r).isLive = true) :
    (w.registry r).handle? = some inode := by
  rw [← h.handle]
  exact h.lives.backed.handle ((h.extended.isLive h.entered).trans live)

theorem index_lt (h : Midway p r w place inode out x v) (mem : b ∈ out) :
    b.index < x.branches.length :=
  Nat.lt_of_lt_of_le (mem_handlesOf_iff.mp (h.mine b mem)).1 h.extended.branches.length_le

/-- A release of one of the handles is one from the registry. -/
theorem release_eq (h : Midway p r w place inode out x v) (mine : b ∈ w.handlesOf r) :
    x.release b = x.releaseFrom r b := by
  obtain ⟨lt, own⟩ := mem_handlesOf_iff.mp mine
  rw [World.release, h.extended.branch lt, own]

theorem count_ne_one (h : Midway p r w place inode out x v)
    (left : out.length + 1 < (w.handlesOf r).length) : (x.registry r).count ≠ 1 := by
  have count := h.count
  omega

/-- Nothing has been released yet. -/
theorem start (h : Lives p r w place inode) (orderly : Orderly w)
    (counted : w.handles r = (w.registry r).count) : Midway p r w place inode [] w w :=
  ⟨orderly, h.entered, .refl w, h, by rw [length_handlesOf, counted]; rfl, rfl, rfl, rfl, nofun,
    rfl, nofun, .refl h.runs.1⟩

theorem look (h : Midway p r w place inode out x v) :
    Midway p r w place inode out (x.scan p []).2 (v.scan p []).2 := by
  have minds : Minds p r x (.scan p []) := ⟨h.lives.runs, nofun, nofun, .inl ⟨rfl, rfl⟩⟩
  have scanned := scanned_scan h.orderly.sound h.lives.runs.1
  have gathers := Gathers.scan h.lives.runs.1 h.lives.claimed
  have same : (x.scan p []).2.registry r = x.registry r :=
    (grown_scan p []).registry h.lives.entered
  have callbacks : (x.scan p []).2.callbacks = x.callbacks :=
    scan_induction (I := fun v => v.callbacks = x.callbacks) (fun _ => id) (fun _ => id) [] rfl
  refine ⟨h.orderly.scan p [], h.entered, h.extended.trans scanned.extended,
    h.lives.step h.orderly.sound minds, ?_, ?_, ?_, ?_, h.mine, callbacks.trans h.callbacks,
    fun b mem listed => ?_, h.twins.scan []⟩
  · rw [same, h.count]
  · rw [same, h.handle]
  · rw [← h.content]
    exact congrArg (List.getD · _ _) scanned.contents
  · obtain ⟨bs, e, new⟩ := gathers.branches
    refine (handlesOf_append e fun b mem own => ?_).trans h.handles
    exact Nat.not_lt.mpr (new b mem).1 (own ▸ h.lives.entered)
  · obtain ⟨bs, e, new⟩ := gathers.inDoubt
    rw [e] at listed
    refine (List.mem_append.mp listed).elim (h.settled b mem) fun made => ?_
    exact Nat.not_lt.mpr (new b made).1 (h.index_lt mem)

/-- The host sweeps the log as often as it has been registered. -/
theorem hostSweep (h : Midway p r w place inode out x v) (alone : ∀ q ∈ w.callbacks, q = p) :
    Midway p r w place inode out x.hostSweep.2 v.hostSweep.2 := by
  unfold World.hostSweep
  rw [← h.twins.callbacks, h.callbacks]
  generalize w.callbacks = ps at alone
  induction ps generalizing x v with
  | nil => exact h
  | cons q rest ih =>
      obtain rfl := alone q List.mem_cons_self
      exact ih h.look fun q mem => alone q (List.mem_cons_of_mem _ mem)

/-- A handle that is left is marked, or one of another registry. -/
theorem mark (h : Midway p r w place inode out x v) (unreleased : b ∉ out)
    (twins : Twins p r (w.handlesOf r) (x.mark b) y) :
    Midway p r w place inode out (x.mark b) y := by
  have claimed : (x.registry r).id ∈ ((x.step (.mark b)).2.process p).openIds :=
    (openIds_doubt _ _ p).symm ▸ h.lives.claimed
  have lives : Lives p r (x.step (.mark b)).2 place inode :=
    h.lives.keep nofun (fun ends => nomatch ends.1) h.lives.backed.home claimed
  refine ⟨h.orderly.step (.mark b), h.entered, h.extended.trans (extends_step x (.mark b)), lives,
    h.count, h.handle, h.content, h.handles, h.mine, h.callbacks, fun other mem listed => ?_,
    twins⟩
  rcases mem_inDoubt_updateProcess listed with old | ⟨owner, new⟩
  · exact h.settled other mem old
  · subst owner
    refine (List.mem_append.mp new).elim (h.settled other mem) fun marked => ?_
    exact unreleased (List.mem_singleton.mp marked ▸ mem)

/-- One more handle is released, and others are left. -/
theorem release (h : Midway p r w place inode out x v) (mine : b ∈ w.handlesOf r)
    (left : out.length + 1 < (w.handlesOf r).length) :
    Midway p r w place inode (out ++ [b]) (x.release b).2 v := by
  have e := h.release_eq mine
  have more := h.count_ne_one left
  have stays : ¬x.Ends (.release b) r := fun ends => more ends.2
  have twins : Twins p r (w.handlesOf r) (x.release b).2 v :=
    e ▸ h.twins.releaseOne h.lives.owner more mine
  have files : (x.release b).2.files = x.files := by rw [e, releaseFrom_of_ne more]; rfl
  have callbacks : (x.release b).2.callbacks = x.callbacks := by
    rw [e, releaseFrom_of_ne more]
    rfl
  have runs : Step.release b ≠ .crash p := by simp
  have branches : (x.release b).2.branches = x.branches ++ [] := by
    rw [e, branches_releaseFrom, List.append_nil]
  have handles : (x.release b).2.handlesOf r = x.handlesOf r :=
    handlesOf_append branches fun _ mem => absurd mem List.not_mem_nil
  have claimed : (x.registry r).id ∈ ((x.release b).2.process p).openIds := by
    rw [e]
    exact mem_openIds_releaseFrom.mpr ⟨h.lives.claimed, fun last => more last.1⟩
  have lives : Lives p r (x.step (.release b)).2 place inode :=
    h.lives.keep runs stays (files.symm ▸ h.lives.backed.home) claimed
  have released : (x.release b).2.registry r = (x.registry r).released := by
    rw [e, registry_releaseFrom h.lives.entered, if_pos rfl]
  refine ⟨h.orderly.step (.release b), h.entered, h.extended.trans (extends_step x (.release b)),
    lives, ?_, ?_, ?_, handles.trans h.handles, ?_, callbacks.trans h.callbacks, ?_, twins⟩
  · have count := h.count
    rw [released, Registry.count_released, List.length_append, List.length_singleton]
    omega
  · rw [released, Registry.handle?_released, if_neg more, h.handle]
  · rw [files, h.content]
  · exact fun other mem => (List.mem_append.mp mem).elim (h.mine other) fun new =>
      List.mem_singleton.mp new ▸ mine
  · intro other mem listed
    rw [e, inDoubt_releaseFrom h.lives.owner] at listed
    obtain ⟨listed, ne⟩ := List.mem_filter.mp listed
    refine (List.mem_append.mp mem).elim (fun old => h.settled other old listed) fun new => ?_
    exact of_decide_eq_true ne (List.mem_singleton.mp new)

end Midway

theorem releasedIn_concat (first : List Step) (s : Step) :
    releasedIn (first ++ [s]) = releasedIn first ++ (releases? s).toList := by
  rw [releasedIn, List.filterMap_append]
  cases h : releases? s <;> simp [releasedIn, h]

theorem others_concat (first : List Step) (s : Step) :
    others hs (first ++ [s]) = others hs first ++ if concerns hs s then [] else [s] := by
  rw [others, List.filter_append]
  cases h : concerns hs s <;> simp [others, h]

/-- A handle that is released before the last one is not the only one left. -/
theorem Unwinds.more (h : Unwinds p r w work last) (before : first ++ [.release b] <+: work) :
    b ∈ w.handlesOf r ∧ (releasedIn first).length + 1 < (w.handlesOf r).length := by
  obtain ⟨rest, rfl⟩ := before
  have all := h.once
  simp only [releasedIn, List.filterMap_append, List.filterMap_cons, releases?] at all ⊢
  refine ⟨all.mem_iff.mp (by simp), ?_⟩
  rw [← all.length_eq]
  simp only [List.length_append, List.length_cons, List.length_nil, List.filterMap_nil]
  omega

/-- At every point before the last release, what has been done is as told. -/
theorem midway_of_prefix (h : Lives p r w place inode) (orderly : Orderly w)
    (counted : w.handles r = (w.registry r).count) (unwinds : Unwinds p r w work last)
    (before : first <+: work) :
    Midway p r w place inode (releasedIn first) (after first w)
      (after (others (w.handlesOf r) first) w) := by
  induction first using List.reverseRecOn with
  | nil => exact .start h orderly counted
  | append_singleton first s ih =>
      have midway := ih ((List.prefix_append ..).trans before)
      have mem : s ∈ work := before.subset (by simp)
      have known := unwinds.steps s mem
      rw [releasedIn_concat, others_concat, after_append, after_append]
      rcases known with (looks | ⟨rfl, alone⟩) | ⟨b, rfl⟩ | ⟨b, rfl, lt⟩
      · have quiet : releases? s = none ∧ concerns (w.handlesOf r) s = false := by
          obtain rfl | rfl := looks <;> exact ⟨rfl, rfl⟩
        simp only [quiet, Option.toList_none, List.append_nil, Bool.false_eq_true, if_false,
          after_cons, after_nil, world_of_looks looks]
        exact midway.look
      · have quiet : releases? .hostSweep = none ∧ concerns (w.handlesOf r) .hostSweep = false :=
          ⟨rfl, rfl⟩
        simp only [quiet, Option.toList_none, List.append_nil, Bool.false_eq_true, if_false,
          after_cons, after_nil]
        exact midway.hostSweep alone
      · obtain ⟨mine, left⟩ := unwinds.more before
        have out : releases? (.release b) = some b := rfl
        have concerned : concerns (w.handlesOf r) (.release b) = true := decide_eq_true mine
        simp only [out, Option.toList_some, concerned, if_true, after_cons, after_nil]
        exact midway.release mine left
      · have quiet : releases? (.mark b) = none := rfl
        simp only [quiet, Option.toList_none, List.append_nil, after_cons, after_nil]
        have same : (after first w).branch b = w.branch b := midway.extended.branch lt
        refine midway.mark (unwinds.unreleased before) ?_
        by_cases mine : b ∈ w.handlesOf r
        · have concerned : concerns (w.handlesOf r) (.mark b) = true := decide_eq_true mine
          simp only [concerned, if_true]
          have own : ((after first w).branch b).registry = r :=
            same ▸ (mem_handlesOf_iff.mp mine).2
          rw [World.mark, doubtVia, own, midway.lives.owner]
          exact midway.twins.doubtOne mine
        · have concerned : concerns (w.handlesOf r) (.mark b) = false := decide_eq_false mine
          simp only [concerned, Bool.false_eq_true, if_false, after_cons, after_nil]
          exact midway.twins.mark b

/-- While handles of a registry are left, its file is where it was, with what it held, and is locked
if the registry was created. Its identifier is owned, no scan would recover it, and the registry has
the handles that it had. -/
structure Kept (p : ProcessRef) (r : RegistryRef) (w : World) (inode : Nat) (x : World) : Prop where
  file : x.files.inodeAt (Utf8.encode (w.registry r).path) = .ok inode
  content : x.files.content inode = w.files.content inode
  locked : (w.registry r).isLive = true → x.files.isLocked inode = true
  claimed : (w.registry r).id ∈ (x.process p).openIds
  unrecovered : ∀ {o}, (x.scan p []).1 = .ok o →
    ∀ r' ∈ o.recovered, ((x.scan p []).2.registry r').id ≠ (w.registry r).id
  handles : x.handlesOf r = w.handlesOf r ∧ (x.scan p []).2.handlesOf r = w.handlesOf r

theorem Midway.kept (h : Midway p r w place inode out x v) (sole : SoleWriters x) :
    Kept p r w inode x := by
  have id := h.extended.id h.entered
  refine ⟨?_, h.content, fun live => ?_, id ▸ h.lives.claimed, fun scanned r' mem => ?_, h.handles,
    h.look.handles⟩
  · rw [← h.extended.path h.entered]
    exact h.lives.backed.home.inodeAt
  · exact (sole.locked inode).mpr ⟨r, h.handle.trans (h.held live)⟩
  · obtain ⟨ge, lt, -⟩ := (mem_recovered_scan scanned).mp mem
    rw [← id]
    exact (Gathers.scan h.lives.runs.1 h.lives.claimed).entered ge lt

/-! The last release. -/

/-- After all handles of a registry have been released: its file, claim and lock are gone and none
of its handles is in doubt, and everything else is as it is in `v`. -/
structure Ended (p : ProcessRef) (r : RegistryRef) (w : World) (place : Place) (inode : Nat)
    (v y : World) : Prop where
  gone : y.files.inodeAt (Utf8.encode (w.registry r).path) = .error .notFound
  unlocked : (w.registry r).isLive = true → y.files.isLocked inode = false
  spent : (y.registry r).Spent
  files : y.files = (v.files.unlock (w.registry r).handle?.toList).remove place
  entered : y.registries.length = v.registries.length
  registry : ∀ {r'}, r' ≠ r → y.registry r' = v.registry r'
  branches : y.branches = v.branches
  callbacks : y.callbacks = v.callbacks
  started : y.processes.length = v.processes.length
  process : ∀ {q}, q ≠ p → y.process q = v.process q
  log : y.process p =
    { v.process p with
      openIds := (v.process p).openIds.erase (w.registry r).id
      inDoubt := (v.process p).inDoubt.filter (· ∉ w.handlesOf r) }

namespace Midway

/-- The count of a registry says how many handles are left, and the last release deletes the
file. -/
theorem releaseFrom_last (h : Midway p r w place inode out x v)
    (all : (out ++ [last]).Perm (w.handlesOf r)) :
    let gone := (v.files.unlock (w.registry r).handle?.toList).remove place
    (x.registry r).count = 1 ∧ x.releaseFrom r last =
      (.ok (), ((x.retire r gone).unclaim p (w.registry r).id).2.settle p last) := by
  intro gone
  have one : (x.registry r).count = 1 := by
    have total := all.length_eq
    have count := h.count
    simp only [List.length_append, List.length_singleton] at total
    omega
  have home : HomeAt (v.files.unlock (w.registry r).handle?.toList)
      (Utf8.encode (w.registry r).path) place inode := h.home.congr rfl
  refine ⟨one, ?_⟩
  rw [releaseFrom_of_eq one]
  simp only [h.twins.files, h.handle, h.extended.path h.entered, home.unlink, h.lives.owner,
    h.extended.id h.entered, gone]

/-- Of what is in doubt, the last handle is all that is left of the registry. -/
theorem inDoubt_last (h : Midway p r w place inode out x v)
    (all : (out ++ [last]).Perm (w.handlesOf r)) :
    (x.process p).inDoubt.filter (· ≠ last) =
      (v.process p).inDoubt.filter (· ∉ w.handlesOf r) := by
  rw [← h.twins.inDoubt]
  refine List.filter_congr fun b listed => ?_
  have left : b ≠ last ↔ b ∉ w.handlesOf r := by
    rw [← all.mem_iff, List.mem_append, List.mem_singleton, not_or]
    exact (and_iff_right fun mem => h.settled b mem listed).symm
  simp [left]

/-- The last release deletes the file, and leaves of everything else what the other steps made. -/
theorem finish (h : Midway p r w place inode out x v)
    (all : (out ++ [last]).Perm (w.handlesOf r)) :
    (x.step (.release last)).1 = .done ∧ Ended p r w place inode v (x.step (.release last)).2 := by
  have mine : last ∈ w.handlesOf r := all.subset (by simp)
  have e : x.step (.release last) = x.step (.releaseFrom r last) := by
    simp only [step, h.release_eq mine]
  obtain ⟨one, released⟩ := h.releaseFrom_last all
  have ends : x.Ends (.releaseFrom r last) r := ⟨rfl, one⟩
  have spent := spent_of_ends ends
  rw [e]
  simp only [step, Prod.map, id_eq] at spent ⊢
  rw [released] at spent ⊢
  let gone := (v.files.unlock (w.registry r).handle?.toList).remove place
  let freed := ((x.retire r gone).unclaim p (w.registry r).id).2
  have home : HomeAt (v.files.unlock (w.registry r).handle?.toList)
      (Utf8.encode (w.registry r).path) place inode := h.home.congr rfl
  have running : p.index < freed.processes.length := by
    simpa [freed, unclaim, retire] using h.lives.runs.1
  have freed_log : freed.process p =
      { x.process p with openIds := (x.process p).openIds.erase (w.registry r).id } :=
    process_updateProcess_self (w := x.retire r gone) h.lives.runs.1 _
  refine ⟨rfl, home.inodeAt_remove, fun live => ?_, spent, rfl, ?_, fun {r'} ne => ?_,
    h.twins.branches, h.twins.callbacks, ?_, fun {q} ne => ?_, ?_⟩
  · have closed : ¬(v.files.unlock (w.registry r).handle?.toList).isLocked inode = true := by
      simp [isLocked_unlock, h.held live]
    exact Bool.not_eq_true _ ▸ closed
  · exact (length_registries_updateRegistry ..).trans h.twins.entered
  · exact (registry_updateRegistry_of_ne ne _).trans (h.twins.registry ne)
  · refine (length_processes_updateProcess ..).trans ((length_processes_updateProcess ..).trans ?_)
    exact h.twins.started
  · refine (process_updateProcess_of_ne ne _).trans ((process_updateProcess_of_ne ne _).trans ?_)
    exact h.twins.process ne
  · rw [settle, process_updateProcess_self running, freed_log, h.inDoubt_last all]
    exact congrArg (fun proc : Process => { proc with
      openIds := proc.openIds.erase (w.registry r).id
      inDoubt := (v.process p).inDoubt.filter (· ∉ w.handlesOf r) }) h.twins.log

/-- A release that is not the last answers well. -/
theorem answer (h : Midway p r w place inode out x v) (mine : b ∈ w.handlesOf r)
    (left : out.length + 1 < (w.handlesOf r).length) : (x.step (.release b)).1 = .done := by
  simp only [step, h.release_eq mine, releaseFrom_of_ne (h.count_ne_one left)]
  rfl

end Midway

/-- The transaction of a registry that has ended can be given a new one in its log. -/
theorem Ended.again (h : Ended p r w place inode v y) (home : HomeAt v.files
    (Utf8.encode (w.registry r).path) place inode) (sound : v.files.Sound) {xid : Xid}
    (path : (w.registry r).path = joinPath (v.process p).dir xid.name)
    (named : (w.registry r).id = xid.name) :
    (y.create p xid).1 = .ok ⟨y.registries.length⟩ := by
  have free : xid.name ∉ (y.process p).openIds := by simp [h.log, named]
  have dir : (y.process p).dir = (v.process p).dir := by rw [h.log]
  have closed : HomeAt (v.files.unlock (w.registry r).handle?.toList)
      (Utf8.encode (joinPath (v.process p).dir xid.name)) place inode := path ▸ home.congr rfl
  have sound' : (v.files.unlock (w.registry r).handle?.toList).Sound := sound.congr rfl rfl
  obtain ⟨made, new⟩ := closed.createNew_remove sound' xid.holdable_name
  rw [← h.files] at made new
  rw [World.create, dir, createIn_of_made free made new]

/-- A registry that has begun lives, and has as many handles as it counts. -/
theorem Began.lives (h : Began p r u birth mid) (orderly : Orderly u) (bound : Bound u) :
    ∃ place inode, Lives p r (after (birth :: mid) u) place inode ∧
      (after (birth :: mid) u).handles r = ((after (birth :: mid) u).registry r).count := by
  obtain ⟨⟨place, inode, lives⟩, counted⟩ :=
    lives_entered orderly.sound bound h.runs h.begins h.entered
  have admitted : u.Admits birth := by
    rcases h.begins with ⟨xid, rfl⟩ | rfl | rfl <;> exact h.runs
  have bound' := bound_step bound admitted
  have later := lives_along lives (orderly.step birth) bound' counted h.minded
  exact ⟨place, inode, later⟩

/-- A registry that has been created bears the name of its transaction. -/
theorem Began.named {xid : Xid} (h : Began p r u (.create p xid) mid) :
    ((after (.create p xid :: mid) u).registry r).id = xid.name := by
  obtain ⟨made, new⟩ := registry_createIn_new h.entered.1 h.entered.2.1
  have later := (extends_after (u.step (.create p xid)).2 mid).id h.entered.2.1
  exact later.trans (congrArg Registry.id new)

/-- The life of a registry to its end. In whatever state a log is that alone uses its directory, a
registry that it creates or recovers counts its handles; it is kept, by whatever other steps, until
the last of them is released, in whatever order; and then nothing of it is left, and the rest is
what the other steps have made of it. Its transaction can be given a new registry at once. -/
theorem life_cycle (changes : List FileStep)
    (admitted : Along Admits past (ofFiles (FileSystem.empty.applyAll changes)))
    (began : Began p r (after past (ofFiles (FileSystem.empty.applyAll changes))) birth mid) :
    let w := after (past ++ birth :: mid) (ofFiles (FileSystem.empty.applyAll changes))
    ∃ place inode, HomeAt w.files (Utf8.encode (w.registry r).path) place inode ∧
      (w.registry r).count = (w.handlesOf r).length ∧
      ∀ {work last}, Unwinds p r w work last →
        (∀ {first}, first <+: work → Kept p r w inode (after first w)) ∧
        (∀ {first b}, first ++ [.release b] <+: work ++ [.release last] →
          ((after first w).step (.release b)).1 = .done) ∧
        Ended p r w place inode (after (others (w.handlesOf r) work) w)
          (after (work ++ [.release last]) w) ∧
        ∀ {xid}, birth = .create p xid →
          ((after (work ++ [.release last]) w).create p xid).1 =
            .ok ⟨(after (work ++ [.release last]) w).registries.length⟩ := by
  intro w
  have orderly : Orderly w := (Orderly.ofFiles changes).after _
  have sole : SoleWriters w := (soleWriters_ofFiles changes).after _
  obtain ⟨place, inode, lives, counted⟩ : ∃ place inode, Lives p r w place inode ∧
      w.handles r = (w.registry r).count := by
    rw [show w = _ from after_append ..]
    exact began.lives ((Orderly.ofFiles changes).after past) (bound_along admitted)
  refine ⟨place, inode, lives.backed.home, by rw [length_handlesOf, counted], ?_⟩
  intro work last unwinds
  have midway {first : List Step} (before : first <+: work) :=
    midway_of_prefix lives orderly counted unwinds before
  have whole := midway (List.prefix_refl work)
  obtain ⟨done, ended⟩ := whole.finish unwinds.once
  have last_step : after (work ++ [.release last]) w = ((after work w).step (.release last)).2 := by
    simp only [after_append, after_cons, after_nil]
  rw [last_step]
  refine ⟨fun before => (midway before).kept (sole.after _), fun {first b} before => ?_, ended, ?_⟩
  · rcases List.prefix_concat_iff.mp before with whole | before
    · obtain ⟨rfl, same⟩ := List.append_inj' whole rfl
      cases same
      exact done
    · obtain ⟨mine, left⟩ := unwinds.more before
      exact (midway ((List.prefix_append ..).trans before)).answer mine left
  · rintro xid rfl
    have named : (w.registry r).id = xid.name := by
      rw [show w = _ from after_append ..]
      exact began.named
    refine ended.again whole.home (whole.twins.files ▸ whole.orderly.sound) ?_ named
    have dir : ((after work w).process p).dir = _ := whole.twins.part Process.dir fun _ => rfl
    rw [← dir, ← named, ← whole.extended.path lives.entered, ← whole.extended.id lives.entered]
    exact whole.lives.homed

/-- A transaction has had a registry, whose only branch has been released, and others have left a
file. -/
def finished : List Step :=
  [.openLog {} "n", .create ⟨0⟩ .sample, .enlist ⟨0⟩ .sample "n", .release ⟨0⟩,
    .outside (.write (Utf8.encode "./xa-recovery/a") (Utf8.encode (Record.encode .sample)))]

/-- The transaction gets another registry and three branches, which are released last to first but
for the second, with marks, a sweep and a scan in between. The sweep has recovered the file that was
left, and its branch is all that is in doubt at the end. -/
theorem life_cycle_renewed :
    let start := ofFiles (FileSystem.empty.applyAll [])
    let enlisting : List Step :=
      [.enlist ⟨1⟩ .sample "n", .enlist ⟨1⟩ .sample "n", .enlist ⟨1⟩ .sample "n"]
    let w := after (finished ++ .create ⟨0⟩ .sample :: enlisting) start
    let work : List Step := [.mark ⟨1⟩, .mark ⟨2⟩, .release ⟨3⟩, .sweep ⟨0⟩ [], .mark ⟨1⟩,
      .release ⟨1⟩, .scan ⟨0⟩ [], .mark ⟨2⟩]
    let y := after (work ++ [.release ⟨2⟩]) w
    Along Admits finished start ∧
      Began ⟨0⟩ ⟨1⟩ (after finished start) (.create ⟨0⟩ .sample) enlisting ∧
      Unwinds ⟨0⟩ ⟨1⟩ w work ⟨2⟩ ∧
      (∃ inode, ∀ first, first <+: work → Kept ⟨0⟩ ⟨1⟩ w inode (after first w)) ∧
      (y.process ⟨0⟩).inDoubt = [⟨4⟩] ∧ (y.create ⟨0⟩ .sample).1 = .ok ⟨3⟩ := by
  intro start enlisting w work y
  have admitted : Along Admits finished start := by decide +kernel
  have began : Began ⟨0⟩ ⟨1⟩ (after finished start) (.create ⟨0⟩ .sample) enlisting := by
    refine ⟨by decide +kernel, .inl ⟨_, rfl⟩,
      ⟨by decide +kernel, by decide +kernel, by decide +kernel⟩, ?_⟩
    exact ⟨⟨by decide +kernel, nofun, nofun, trivial⟩, ⟨by decide +kernel, nofun, nofun, trivial⟩,
      ⟨by decide +kernel, nofun, nofun, trivial⟩, trivial⟩
  have unwinds : Unwinds ⟨0⟩ ⟨1⟩ w work ⟨2⟩ := by
    refine ⟨?_, by decide +kernel, ?_⟩
    · intro s mem
      simp only [work, List.mem_cons, List.not_mem_nil, or_false] at mem
      rcases mem with rfl | rfl | rfl | rfl | rfl | rfl | rfl | rfl
      · exact .inr (.inr ⟨_, rfl, by decide +kernel⟩)
      · exact .inr (.inr ⟨_, rfl, by decide +kernel⟩)
      · exact .inr (.inl ⟨_, rfl⟩)
      · exact .inl (.inl (.inr rfl))
      · exact .inr (.inr ⟨_, rfl, by decide +kernel⟩)
      · exact .inr (.inl ⟨_, rfl⟩)
      · exact .inl (.inl (.inl rfl))
      · exact .inr (.inr ⟨_, rfl, by decide +kernel⟩)
    · intro first b before
      obtain ⟨rest, e⟩ := before
      simp only [work, List.append_assoc, List.cons_append, List.nil_append,
        List.append_eq_cons_iff, List.cons_eq_append_iff, List.cons.injEq, Step.mark.injEq,
        reduceCtorEq, false_and, and_false, List.nil_eq, List.append_eq_nil_iff, exists_const,
        or_false, ↓existsAndEq, true_and, false_or] at e
      rcases e with
        ⟨rfl, rfl, -⟩ | ⟨_, rfl, ⟨rfl, rfl, -⟩ | ⟨_, rfl, ⟨rfl, rfl, -⟩ | ⟨rfl, rfl, -⟩⟩⟩
        <;> decide
  obtain ⟨place, inode, -, -, along⟩ := life_cycle [] admitted began
  obtain ⟨kept, -, -, again⟩ := along unwinds
  have entered : y.registries.length = 3 := by decide +kernel
  have renewed : (y.create ⟨0⟩ .sample).1 = .ok ⟨3⟩ := entered ▸ again rfl
  exact ⟨admitted, began, unwinds, ⟨inode, fun _ => kept⟩, by decide +kernel, renewed⟩

end InDoubt.World

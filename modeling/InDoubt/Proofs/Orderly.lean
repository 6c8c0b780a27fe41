import InDoubt.Proofs.Backing

/-!
What holds of the files and the registries whatever is done, by any number of processes and by
others. The tree is sound, and the path of a registry is that of its identifier in some directory,
which is a name that a directory can hold. Branches that are in doubt have been made.
-/

namespace InDoubt.World

open FileSystem

variable {v w : World} {p : ProcessRef} {r : RegistryRef} {b : BranchRef} {s : Step}
  {dir id path : String}

/-- The path of a registry ends in its identifier. -/
def Registered (w : World) (r : RegistryRef) : Prop :=
  ∃ dir, (w.registry r).path = joinPath dir (w.registry r).id ∧ Holdable (w.registry r).id

structure Orderly (w : World) : Prop where
  sound : w.files.Sound
  registered : ∀ {r}, r.index < w.registries.length → Registered w r

namespace Orderly

/-- No registry is entered. -/
theorem keep (h : Orderly w) (extended : Extends w v)
    (same : v.registries.length = w.registries.length) (sound : v.files.Sound) : Orderly v where
  sound := sound
  registered {r} lt := by
    rw [same] at lt
    unfold Registered
    rw [extended.id lt, extended.path lt]
    exact h.registered lt

/-- One registry is entered. -/
theorem enter (h : Orderly w) {g : Registry} (registries : v.registries = w.registries ++ [g])
    (registered : ∃ dir, g.path = joinPath dir g.id ∧ Holdable g.id) (sound : v.files.Sound) :
    Orderly v where
  sound := sound
  registered {r} lt := by
    unfold Registered
    by_cases old : r.index < w.registries.length
    · rw [registry_append registries old]
      exact h.registered old
    · rw [eq_new registries (Nat.le_of_not_lt old) lt, registry_append_new registries]
      exact registered

theorem createIn (h : Orderly w) (p : ProcessRef) (dir : String) (xid : Xid) :
    Orderly (w.createIn p dir xid).2 := by
  have sound := sound_createIn (p := p) h.sound dir xid
  obtain ⟨_, files, -, e⟩ | ⟨_, inode, made, -, -, -, e⟩ := createIn_cases w p dir xid <;>
    rw [e] at sound ⊢
  · exact h.keep (.of_eq rfl rfl rfl) rfl sound
  · exact h.enter rfl ⟨dir, rfl, xid.holdable_name⟩ sound

theorem scan (h : Orderly w) (p : ProcessRef) (during : List FileStep) :
    Orderly (w.scan p during).2 := by
  simp only [World.scan]
  split
  · exact h
  · rename_i ids listed
    refine recoverAll_induction (I := Orderly) ?_ ?_
    · intro v id mem _ k
      obtain ⟨_, files, -, rfl | ⟨-, rfl⟩, e⟩ | ⟨l, ls, -, e⟩ :=
        recover_cases v p (w.process p).dir id <;> rw [e]
      · exact k.keep (.of_eq rfl rfl rfl) rfl k.sound
      · exact k.keep (.of_eq rfl rfl rfl) rfl (k.sound.unlinkUnlocked _)
      · obtain ⟨_, _, -, held, -⟩ := opens_of_mem_registryFiles h.sound listed mem
        exact k.enter (registries_adopt ..) ⟨_, rfl, held⟩ k.sound
    · exact h.keep (.of_eq rfl rfl rfl) rfl (h.sound.applyAll during)

theorem releaseFrom (h : Orderly w) (r : RegistryRef) (b : BranchRef) :
    Orderly (w.releaseFrom r b).2 := by
  refine h.keep (extends_releaseFrom ..) length_registries_releaseFrom ?_
  by_cases one : (w.registry r).count = 1
  · have closed : (w.files.unlock (w.registry r).handle?.toList).Sound := h.sound.congr rfl rfl
    rw [releaseFrom_of_eq one]
    split
    · rename_i e
      exact closed.unlink e
    · exact closed
    · exact closed
  · rw [releaseFrom_of_ne one]
    exact h.sound

/-- Whatever a step is, it leaves the tree sound and enters no registry without a name. -/
theorem step (h : Orderly w) (s : Step) : Orderly (w.step s).2 := by
  have extended := extends_step w s
  have keep (entering : enters s = false) (sound : (w.step s).2.files.Sound) :
      Orderly (w.step s).2 :=
    h.keep extended (length_registries_step entering) sound
  have clerical (quiet : isClerical s = true) : (w.step s).2.files.Sound := by
    rw [files_step quiet]
    exact h.sound
  cases s with
  | outside change =>
      refine keep rfl ?_
      rw [step_outside]
      exact h.sound.apply change
  | create p xid | createIn p dir xid => exact h.createIn p _ xid
  | scan p during | sweep p during => exact h.scan p during
  | hostSweep => exact sweepEach_induction (I := Orderly) (fun _ k => k.scan ..) h
  | record r l => exact keep rfl (sound_record h.sound l)
  | enlist r l node =>
      refine keep rfl ?_
      rw [files_step_enlist]
      exact sound_record h.sound l
  | release b => exact h.releaseFrom _ b
  | releaseFrom r b => exact h.releaseFrom r b
  | crash p => exact keep rfl (h.sound.congr rfl rfl)
  | openLog config node | relocate p base | bind r l node | mark b | doubtVia r b | register p
  | unregister p | claim p id | unclaim p id | doubt p bs | settle p b =>
      exact keep rfl (clerical rfl)

theorem after (h : Orderly w) (steps : List Step) : Orderly (after steps w) := by
  induction steps generalizing w with
  | nil => exact h
  | cons s rest ih => exact ih (h.step s)

theorem ofFiles (changes : List FileStep) :
    Orderly (World.ofFiles (FileSystem.empty.applyAll changes)) :=
  ⟨Sound.empty.applyAll changes, fun lt => absurd lt (Nat.not_lt_zero _)⟩

end Orderly

/-! Branches in doubt. -/

/-- The branches that are listed as in doubt exist. -/
def Listed (w : World) : Prop := ∀ p, ∀ b ∈ (w.process p).inDoubt, b.index < w.branches.length

theorem mem_inDoubt_updateProcess {f : Process → Process} {q : ProcessRef}
    (h : b ∈ ((w.updateProcess q f).process p).inDoubt) :
    b ∈ (w.process p).inDoubt ∨ p = q ∧ b ∈ (f (w.process q)).inDoubt := by
  by_cases self : p = q
  · subst self
    by_cases there : p.index < w.processes.length
    · rw [process_updateProcess_self there] at h
      exact .inr ⟨rfl, h⟩
    · rw [process_of_le (by simpa using there)] at h
      cases h
  · rw [process_updateProcess_of_ne self] at h
    exact .inl h

namespace Listed

/-- What is listed was listed before, or has been made since. -/
theorem keep (h : Listed w) (branches : w.branches <+: v.branches)
    (origin : ∀ p, ∀ b ∈ (v.process p).inDoubt,
      b ∈ (w.process p).inDoubt ∨ b.index < v.branches.length) : Listed v := fun p b mem =>
  (origin p b mem).elim (fun old => Nat.lt_of_lt_of_le (h p b old) branches.length_le) id

theorem of_processes (h : Listed w) (branches : w.branches <+: v.branches)
    (processes : v.processes = w.processes) : Listed v :=
  h.keep branches fun p _ mem => .inl (process_congr processes p ▸ mem)

/-- One process lists no more than it did. -/
theorem updateProcess (h : Listed w) (q : ProcessRef) {f : Process → Process}
    (fewer : ∀ b ∈ (f (w.process q)).inDoubt, b ∈ (w.process q).inDoubt) :
    Listed (w.updateProcess q f) := by
  refine h.keep (List.prefix_refl _) fun p b mem => .inl ?_
  rcases mem_inDoubt_updateProcess mem with old | ⟨rfl, new⟩
  · exact old
  · exact fewer b new

theorem doubt (h : Listed w) (q : ProcessRef) {bs : List BranchRef}
    (made : ∀ b ∈ bs, b.index < w.branches.length) : Listed (w.doubt q bs) := by
  refine h.keep (List.prefix_refl _) fun p b mem => ?_
  rcases mem_inDoubt_updateProcess mem with old | ⟨rfl, new⟩
  · exact .inl old
  · exact (List.mem_append.mp new).imp_right (made b)

theorem settle (h : Listed w) (q : ProcessRef) (b : BranchRef) : Listed (w.settle q b) :=
  h.updateProcess q fun _ mem => (List.mem_filter.mp mem).1

theorem unclaim (h : Listed w) (q : ProcessRef) (id : String) : Listed (w.unclaim q id).2 :=
  h.updateProcess q fun _ mem => mem

theorem createIn (h : Listed w) (p : ProcessRef) (dir : String) (xid : Xid) :
    Listed (w.createIn p dir xid).2 := by
  obtain ⟨_, _, -, e⟩ | ⟨_, _, _, -, -, -, e⟩ := createIn_cases w p dir xid <;> rw [e]
  · exact h.of_processes (List.prefix_refl _) rfl
  · refine Listed.updateProcess ?_ p fun _ => id
    exact h.of_processes (List.prefix_refl _) rfl

theorem releaseFrom (h : Listed w) (r : RegistryRef) (b : BranchRef) :
    Listed (w.releaseFrom r b).2 := by
  have retired (files : FileSystem) : Listed (w.retire r files) :=
    h.of_processes (List.prefix_refl _) rfl
  by_cases one : (w.registry r).count = 1
  · rw [releaseFrom_of_eq one]
    split
    · exact ((retired _).unclaim _ _).settle _ b
    · exact ((retired _).unclaim _ _).settle _ b
    · exact (retired _).settle _ b
  · rw [releaseFrom_of_ne one]
    have counted : Listed (w.updateRegistry r fun g => { g with count := g.count - 1 }) :=
      h.of_processes (List.prefix_refl _) rfl
    exact counted.settle _ b

theorem scan (h : Listed w) (p : ProcessRef) (during : List FileStep) :
    Listed (w.scan p during).2 := by
  refine scan_induction (I := Listed)
    (fun _ h => h.of_processes (List.prefix_refl _) rfl) ?_ during h
  intro v id path l ls _ h
  refine h.keep ⟨_, rfl⟩ fun q b mem => ?_
  rw [process_congr (w := v.updateProcess p _) (processes_adopt ..)] at mem
  rcases mem_inDoubt_updateProcess mem with old | ⟨rfl, new⟩
  · exact .inl old
  · rcases List.mem_append.mp new with old | new
    · exact .inl old
    · obtain ⟨i, lt, rfl⟩ := List.mem_map.mp new
      refine .inr ?_
      rw [branches_adopt, List.length_append, List.length_map]
      exact Nat.add_lt_add_left (List.mem_range.mp lt) _

theorem unregister (h : Listed w) (p : ProcessRef) : Listed (w.unregister p) := by
  unfold World.unregister
  split
  · refine Listed.updateProcess ?_ p fun _ => id
    exact h.of_processes (List.prefix_refl _) rfl
  · exact h

/-- Only branches that exist are put in doubt. -/
theorem step (h : Listed w) (admitted : w.Admits s) : Listed (w.step s).2 := by
  have same {v : World} (branches : w.branches <+: v.branches)
      (processes : v.processes = w.processes) : Listed v := h.of_processes branches processes
  cases s with
  | outside change =>
      rw [step_outside]
      exact same (List.prefix_refl _) rfl
  | openLog config node =>
      refine h.keep (List.prefix_refl _) fun q b mem => ?_
      have kept : ((w.openLog config node).2.process q).inDoubt = (w.process q).inDoubt :=
        part_openLog (·.inDoubt) rfl q
      exact .inl (kept ▸ mem)
  | crash q =>
      have alone : (w.crash q).processes = ((w.unregister q).updateProcess q
          fun proc => { proc with inDoubt := [], running := false }).processes := rfl
      have ended := (h.unregister q).updateProcess q
        (f := fun proc => { proc with inDoubt := [], running := false }) (by simp)
      exact ended.of_processes (List.prefix_refl _) alone
  | relocate q base =>
      simp only [World.step, relocate]
      split
      · exact h
      · exact h.updateProcess q fun _ => id
  | create q xid | createIn q dir xid => exact h.createIn q _ xid
  | record r l => exact same (extends_record w r l).branches (processes_record ..)
  | enlist r l node => exact same (extends_enlist w r l node).branches (processes_enlist ..)
  | bind r l node => exact same ⟨_, rfl⟩ rfl
  | release b => exact h.releaseFrom _ b
  | releaseFrom r b => exact h.releaseFrom r b
  | mark b => exact h.doubt _ fun _ mem => List.mem_singleton.mp mem ▸ admitted.1
  | doubtVia r b => exact h.doubt _ fun _ mem => List.mem_singleton.mp mem ▸ admitted.2.1
  | doubt q bs => exact h.doubt q fun b mem => (admitted.2 b mem).1
  | settle q b => exact h.settle q b
  | scan q during | sweep q during => exact h.scan q during
  | hostSweep => exact sweepEach_induction (I := Listed) (fun _ k => k.scan _ _) h
  | register q => exact h.updateProcess q fun _ => id
  | unregister q => exact h.unregister q
  | claim q id => exact h.updateProcess q fun _ mem => mem
  | unclaim q id => exact h.unclaim q id

end Listed

theorem listed_along {files : FileSystem} {steps : List Step}
    (h : Along Admits steps (ofFiles files)) : Listed (World.after steps (ofFiles files)) := by
  refine along_induction (I := fun _ => Listed) ?_ (fun _ _ _ admitted k => k.step admitted) steps h
  intro p b mem
  rw [process_of_le (Nat.zero_le _)] at mem
  cases mem

end InDoubt.World

import InDoubt.Proofs.Growth

/-!
What a step does to a registry that exists: `registry_step` says it once for all steps. A registry
counts what is recorded in it and released from it, its last release closes it, and so does a crash
of its process. No other step touches it.
-/

namespace InDoubt

/-- The registry after the release of one of its branches. -/
def Registry.released (g : Registry) : Registry :=
  if g.count = 1 then { g.closed with count := 0 } else { g with count := g.count - 1 }

/-- The registry after one more branch has been recorded. -/
def Registry.recorded (g : Registry) : Registry := { g with count := g.count + 1 }

namespace Registry

variable (g : Registry)

@[simp] theorem count_recorded : g.recorded.count = g.count + 1 := rfl

@[simp] theorem handle?_recorded : g.recorded.handle? = g.handle? := rfl

@[simp] theorem count_released : g.released.count = g.count - 1 := by
  unfold released
  split <;> simp [*]

@[simp] theorem handle?_released :
    g.released.handle? = if g.count = 1 then none else g.handle? := by
  unfold released
  split
  · exact g.handle?_closed
  · rfl

end Registry

namespace World

variable {u v w : World} {p : ProcessRef} {r r' : RegistryRef} {b : BranchRef} {s : Step}

/-- Registries are entered, none of them spent, and no others are touched. -/
def Grown (w v : World) : Prop :=
  ∃ gs, v.registries = w.registries ++ gs ∧ ∀ g ∈ gs, ¬g.Spent

namespace Grown

theorem refl (w : World) : Grown w w := ⟨[], (List.append_nil _).symm, nofun⟩

theorem one {g : Registry} (e : v.registries = w.registries ++ [g]) (fresh : ¬g.Spent) :
    Grown w v :=
  ⟨[g], e, by simpa using fresh⟩

theorem trans (h : Grown u v) (k : Grown v w) : Grown u w := by
  obtain ⟨gs, e, fresh⟩ := h
  obtain ⟨gs', e', fresh'⟩ := k
  refine ⟨gs ++ gs', by rw [e', e, List.append_assoc], fun g hg => ?_⟩
  rcases List.mem_append.mp hg with hg | hg
  · exact fresh g hg
  · exact fresh' g hg

theorem registry (h : Grown w v) (hr : r.index < w.registries.length) :
    v.registry r = w.registry r := by
  obtain ⟨gs, e, -⟩ := h
  exact registry_append e hr

theorem not_spent (h : Grown w v) (ge : w.registries.length ≤ r.index)
    (lt : r.index < v.registries.length) : ¬(v.registry r).Spent := by
  obtain ⟨gs, e, fresh⟩ := h
  rw [e, List.length_append] at lt
  have inside : r.index - w.registries.length < gs.length := by omega
  have : v.registry r = gs[r.index - w.registries.length] := by
    rw [World.registry, e, List.getD_append_right _ _ _ _ ge, List.getD_eq_getElem]
  rw [this]
  exact fresh _ (List.getElem_mem _)

end Grown

theorem grown_createIn (p : ProcessRef) (dir : String) (xid : Xid) :
    Grown w (w.createIn p dir xid).2 := by
  obtain ⟨_, _, -, e⟩ | ⟨_, inode, _, -, -, -, e⟩ := createIn_cases w p dir xid <;> rw [e]
  · exact .refl w
  · exact .one rfl (by simp [Registry.Spent, Registry.handle?])

theorem grown_scan (p : ProcessRef) (during : List FileStep) : Grown w (w.scan p during).2 :=
  scan_induction (I := Grown w) (fun _ h => h)
    (fun _ h => h.trans (.one rfl (by simp [Registry.Spent]))) during (.refl w)

theorem grown_hostSweep : Grown w w.hostSweep.2 :=
  sweepEach_induction (I := Grown w) (fun _ h => h.trans (grown_scan ..)) (.refl w)

theorem registry_record (hr : r.index < w.registries.length) (l : Locator) :
    (w.record r' l).2.registry r =
      if r' = r then (w.registry r).recorded else w.registry r := by
  rw [registry_congr (w := w.updateRegistry r' Registry.recorded) (registries_record ..)]
  split
  · subst r'
    exact registry_updateRegistry_self hr _
  · rename_i ne
    exact registry_updateRegistry_of_ne (Ne.symm ne) _

theorem registry_releaseFrom (hr : r.index < w.registries.length) :
    (w.releaseFrom r' b).2.registry r =
      if r' = r then (w.registry r).released else w.registry r := by
  have retired (files : FileSystem) : (w.retire r' files).registry r =
      if r' = r then { (w.registry r).closed with count := 0 } else w.registry r := by
    split
    · subst r'
      exact registry_updateRegistry_self (w := { w with files }) hr _
    · rename_i ne
      exact registry_updateRegistry_of_ne (w := { w with files }) (Ne.symm ne) _
  by_cases one : (w.registry r').count = 1
  · have last : (w.releaseFrom r' b).2.registry r =
        if r' = r then { (w.registry r).closed with count := 0 } else w.registry r := by
      rw [releaseFrom_of_eq one]
      split <;> simp only [settle, unclaim, registry_updateProcess, retired]
    rw [last]
    split
    · subst r'
      rw [Registry.released, if_pos one]
    · rfl
  · rw [releaseFrom_of_ne one]
    simp only [settle, registry_updateProcess]
    split
    · subst r'
      rw [registry_updateRegistry_self hr, Registry.released, if_neg one]
    · rename_i ne
      exact registry_updateRegistry_of_ne (Ne.symm ne) _

/-- All that a step can do to a registry. -/
theorem registry_step (hr : r.index < w.registries.length) (s : Step) :
    (w.step s).2.registry r =
      if recordsIn? s = some r then (w.registry r).recorded
      else if w.releasesFrom? s = some r then (w.registry r).released
      else if s = .crash (w.registry r).owner then (w.registry r).closed
      else w.registry r := by
  cases s with
  | outside change =>
      rw [step_outside]
      rfl
  | crash p =>
      simp only [step, registry_crash w p r hr, recordsIn?, releasesFrom?, Step.crash.injEq]
      simp [eq_comm]
  | create p xid =>
      simp only [recordsIn?, releasesFrom?]
      exact (grown_createIn p (w.process p).dir xid).registry hr
  | createIn p dir xid =>
      simp only [recordsIn?, releasesFrom?]
      exact (grown_createIn p dir xid).registry hr
  | record r' l =>
      simp only [step, Prod.map_snd, id_eq, registry_record hr, recordsIn?, releasesFrom?]
      simp
  | enlist r' l node =>
      simp only [step, Prod.map_snd, id_eq, registry_congr (registries_enlist w r' l node),
        registry_record hr, recordsIn?, releasesFrom?]
      simp
  | release b =>
      simp only [step, Prod.map_snd, id_eq, release, registry_releaseFrom hr, recordsIn?,
        releasesFrom?]
      simp
  | releaseFrom r' b =>
      simp only [step, Prod.map_snd, id_eq, registry_releaseFrom hr, recordsIn?, releasesFrom?]
      simp
  | scan p during | sweep p during =>
      simp only [recordsIn?, releasesFrom?]
      exact (grown_scan p during).registry hr
  | hostSweep =>
      simp only [recordsIn?, releasesFrom?]
      exact grown_hostSweep.registry hr
  | openLog config node | relocate p base | bind r' l node | mark b | doubtVia r' b | register p
  | unregister p | claim p id | unclaim p id | doubt p bs | settle p b =>
      exact registry_congr (registries_step rfl) r

theorem lt_of_ends (h : w.Ends s r) : r.index < w.registries.length :=
  lt_of_count_ne_zero (by rw [h.2]; exact Nat.one_ne_zero)

/-- One more for what is recorded in a registry, one less for what is released from it. -/
def tally (r : RegistryRef) (w : World) (s : Step) (n : Nat) : Nat :=
  if recordsIn? s = some r then n + 1
  else if w.releasesFrom? s = some r then n - 1
  else n

theorem count_step (hr : r.index < w.registries.length) (s : Step) :
    ((w.step s).2.registry r).count = tally r w s (w.registry r).count := by
  rw [registry_step hr, tally]
  split
  · rfl
  · split
    · exact Registry.count_released _
    · split
      · exact Registry.count_closed _
      · rfl

/-- The last release of a registry spends it, whether or not its file can be deleted. -/
theorem spent_of_ends (h : w.Ends s r) : ((w.step s).2.registry r).Spent := by
  have unrecorded : recordsIn? s ≠ some r := fun into => by
    have := h.1
    cases s <;> simp [recordsIn?] at into <;> simp [releasesFrom?] at this
  rw [registry_step (lt_of_ends h), if_neg unrecorded, if_pos h.1]
  simp [Registry.Spent, h.2]

/-- The steps that may enter registries. -/
def enters : Step → Bool
  | .create _ _ | .createIn _ _ _ | .scan _ _ | .sweep _ _ | .hostSweep => true
  | _ => false

theorem length_registries_step (h : enters s = false) :
    (w.step s).2.registries.length = w.registries.length := by
  have clerical (quiet : isClerical s = true) :
      (w.step s).2.registries.length = w.registries.length := by rw [registries_step quiet]
  cases s with
  | create _ _ | createIn _ _ _ | scan _ _ | sweep _ _ | hostSweep => cases h
  | outside change => rw [step_outside]
  | crash p => simp [step, crash]
  | record r' l => simp [step, registries_record]
  | enlist r' l node => simp [step, registries_enlist, registries_record]
  | release b => exact length_registries_releaseFrom
  | releaseFrom r' b => exact length_registries_releaseFrom
  | openLog config node | relocate p base | bind r' l node | mark b | doubtVia r' b | register p
  | unregister p | claim p id | unclaim p id | doubt p bs | settle p b =>
      exact clerical rfl

/-- A registry that a step enters has a branch or an open file. -/
theorem not_spent_entered (s : Step) (ge : w.registries.length ≤ r.index)
    (lt : r.index < (w.step s).2.registries.length) : ¬((w.step s).2.registry r).Spent := by
  by_cases h : enters s = true
  · cases s with
    | create p xid => exact (grown_createIn p (w.process p).dir xid).not_spent ge lt
    | createIn p dir xid => exact (grown_createIn p dir xid).not_spent ge lt
    | scan p during | sweep p during => exact (grown_scan p during).not_spent ge lt
    | hostSweep => exact grown_hostSweep.not_spent ge lt
    | _ => cases h
  · have := length_registries_step (w := w) (Bool.not_eq_true _ ▸ h)
    omega

/-- A release is a release from the registry that it names. -/
theorem step_eq_releaseFrom (h : w.releasesFrom? s = some r) :
    ∃ b, w.step s = w.step (.releaseFrom r b) := by
  cases s <;> simp only [releasesFrom?, Option.some.injEq, reduceCtorEq] at h
  all_goals exact h ▸ ⟨_, rfl⟩

/-- A registry keeps its file open, unless a step ends it or its process crashes. -/
theorem handle?_step_of_not_ends (hr : r.index < w.registries.length) (stays : ¬w.Ends s r)
    (runs : s ≠ .crash (w.registry r).owner) :
    ((w.step s).2.registry r).handle? = (w.registry r).handle? := by
  rw [registry_step hr, if_neg runs]
  split
  · rfl
  · split
    · rename_i out
      rw [Registry.handle?_released, if_neg fun one => stays ⟨out, one⟩]
    · rfl

end World

end InDoubt

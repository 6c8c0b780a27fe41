import InDoubt.Proofs.Counting
import InDoubt.Proofs.Ownership

/-!
The open set along a run. As long as nobody claims or frees identifiers by hand and nothing is
recorded in a registry that has been spent, each step frees the identifiers of the registries that
it deletes and claims those of the registries that it enters (`Ownership.step`). Along a run a
registry is deleted only once, since it is spent from then on, so that the open set is at every
point the set of identifiers of the registries not yet deleted (`openIds_exact`).
-/

namespace InDoubt.World

variable {v w : World} {p q : ProcessRef} {r : RegistryRef} {b : BranchRef} {s : Step}
  {kept : RegistryRef → Prop}

/-- A step that leaves the open set of a process to the operations on registries: nobody claims or
frees an identifier directly, the process does not crash, and nothing is recorded in a registry of
its own that has been spent. Everything else may happen, also in other processes. -/
def Disciplined (p : ProcessRef) (w : World) (s : Step) : Prop :=
  w.Admits s ∧
    match s with
    | .crash q | .claim q _ | .unclaim q _ => q ≠ p
    | .record r _ | .enlist r _ _ => (w.registry r).owner = p → ¬(w.registry r).Spent
    | _ => True

instance (p : ProcessRef) (w : World) : (s : Step) → Decidable (Disciplined p w s)
  | .crash q | .claim q _ | .unclaim q _ => inferInstanceAs (Decidable (_ ∧ q ≠ p))
  | .record r _ | .enlist r _ _ =>
      inferInstanceAs (Decidable (_ ∧ ((w.registry r).owner = p → ¬(w.registry r).Spent)))
  | .outside _ | .openLog _ _ | .relocate _ _ | .create _ _ | .createIn _ _ _ | .bind _ _ _
  | .release _ | .releaseFrom _ _ | .mark _ | .doubtVia _ _ | .scan _ _ | .sweep _ _ | .register _
  | .unregister _ | .hostSweep | .doubt _ _ | .settle _ _ => inferInstanceAs (Decidable (_ ∧ True))

theorem not_deletes (h : w.releasesFrom? s = none) : ¬w.Deletes s r := by
  rintro ⟨⟨e, -⟩, -⟩
  simp [h] at e

theorem not_entered (h : v.registries.length = w.registries.length) : ¬Entered w v p r := by
  rintro ⟨ge, lt, -⟩
  omega

namespace Ownership

/-- Neither entered nor deleted: the registries that are kept stay the same. -/
theorem quiet (h : Ownership w p kept) (extended : Extends w v)
    (same : ∀ id, id ∈ (v.process p).openIds ↔ id ∈ (w.process p).openIds)
    (entered : v.registries.length = w.registries.length) (deleted : ∀ r, ¬w.Deletes s r) :
    Ownership v p fun r => kept r ∧ ¬w.Deletes s r ∨ Entered w v p r :=
  (h.keep extended same).congr fun r => by simp [deleted, not_entered entered]

theorem createIn (h : Ownership w p kept) (running : w.Runs q) (dir : String) (xid : Xid) :
    Ownership (w.createIn q dir xid).2 p fun r =>
      kept r ∨ Entered w (w.createIn q dir xid).2 p r := by
  have extended := extends_createIn w q dir xid
  obtain ⟨_, files, -, e⟩ | ⟨_, inode, made, free, -, -, e⟩ := createIn_cases w q dir xid
  · rw [e] at extended ⊢
    exact (h.keep extended fun _ => .rfl).congr fun r => by simp [not_entered]
  · rw [e] at extended ⊢
    refine (h.enter rfl extended free fun id => ?_).congr fun r => ?_
    · exact mem_openIds_updateProcess running.1 (fun _ => rfl) id
    · rw [entered_append (.refl w) rfl]
      simp [not_entered]

theorem adopt (h : Ownership v p kept) (running : q.index < v.processes.length) {id : String}
    (free : id ∉ (v.process q).openIds) (path : String) (ls : List Locator) :
    Ownership (v.adopt q id path ls).2 p fun r =>
      kept r ∨ r = ⟨v.registries.length⟩ ∧ q = p := by
  exact h.enter (registries_adopt ..) (extends_adopt ..) free fun other =>
    mem_openIds_adopt running

theorem scan (h : Ownership w p kept) (running : q.index < w.processes.length)
    (during : List FileStep) : Ownership (w.scan q during).2 p fun r =>
      kept r ∨ Entered w (w.scan q during).2 p r := by
  refine (scan_induction
    (I := fun v => Extends w v ∧ Ownership v p fun r => kept r ∨ Entered w v p r)
    ?_ ?_ during ⟨.refl w, h.congr fun r => by simp [not_entered]⟩).2
  · rintro v files ⟨extended, hv⟩
    have more : Extends v { v with files } := .of_eq rfl rfl rfl
    exact ⟨extended.trans more, hv.keep more fun _ => .rfl⟩
  · rintro v id path l ls free ⟨extended, hv⟩
    refine ⟨extended.trans (extends_adopt ..), ?_⟩
    have there : q.index < v.processes.length := Nat.lt_of_lt_of_le running extended.processes
    refine (hv.adopt there free path (l :: ls)).congr fun r => ?_
    rw [entered_append extended (registries_adopt ..), or_assoc]

theorem hostSweep (h : Ownership w p kept) (running : ∀ q ∈ w.callbacks, w.Runs q) :
    Ownership w.hostSweep.2 p fun r => kept r ∨ Entered w w.hostSweep.2 p r := by
  refine (sweepEach_induction
    (I := fun v => Extends w v ∧ Ownership v p fun r => kept r ∨ Entered w v p r)
    ?_ ⟨.refl w, h.congr fun r => by simp [not_entered]⟩).2
  rintro v q hq ⟨extended, hv⟩
  have more := extends_scan v q []
  have there : q.index < v.processes.length :=
    Nat.lt_of_lt_of_le (running q hq).1 extended.processes
  refine ⟨extended.trans more, (hv.scan there []).congr fun r => ?_⟩
  rw [entered_trans extended more, or_assoc]

end Ownership

/-! The registries that a scan enters are those that it reports. -/

theorem mem_recovered_recoverAll {dir : String} {ids : List String} :
    r ∈ (recoverAll q dir ids w).1.recovered ↔ Entered w (recoverAll q dir ids w).2 q r := by
  induction ids generalizing w with
  | nil => simp [recoverAll, not_entered]
  | cons id rest ih =>
      simp only [recoverAll]
      split
      · exact ih
      · obtain ⟨outcome, files, other, -, e⟩ | ⟨l, ls, -, e⟩ := recover_cases w q dir id
        · have same : (outcome.addTo (recoverAll q dir rest { w with files }).1).recovered =
              (recoverAll q dir rest { w with files }).1.recovered := by
            cases outcome with
            | nothing => rfl
            | failed f => rfl
            | recovered r => exact absurd rfl (other r)
          rw [e, same]
          exact ih
        · rw [e, entered_trans (extends_adopt ..) (extends_recoverAll ..),
            entered_append (.refl w) (registries_adopt ..)]
          simp [Recovery.addTo, not_entered, ih]

theorem mem_recovered_scan {during : List FileStep} {report : ScanReport}
    (h : (w.scan q during).1 = .ok report) :
    r ∈ report.recovered ↔ Entered w (w.scan q during).2 q r := by
  simp only [World.scan] at h ⊢
  split at h
  · cases h
  · cases h
    exact mem_recovered_recoverAll

theorem deletes_releaseFrom_iff {r' : RegistryRef} :
    w.Deletes (.releaseFrom r b) r' ↔
      r = r' ∧ (w.registry r).count = 1 ∧ (w.releaseFrom r b).1 = .ok () := by
  simp only [Deletes, Ends, releasesFrom?, Option.some.injEq, and_assoc]
  refine and_congr_right fun e => ?_
  subst e
  refine and_congr_right fun _ => ?_
  simp only [step, Prod.map, Answer.of]
  split <;> rename_i h <;> simp [h]

theorem Ownership.releaseFrom (h : Ownership w p kept)
    (spent : ∀ r, r.index < w.registries.length → (w.registry r).owner = p → ¬kept r →
      (w.registry r).Spent) :
    Ownership (w.releaseFrom r b).2 p fun r' => kept r' ∧ ¬w.Deletes (.releaseFrom r b) r' := by
  have extended := extends_releaseFrom w r b
  by_cases del : w.Deletes (.releaseFrom r b) r ∧ (w.registry r).owner = p
  · obtain ⟨del, own⟩ := del
    obtain ⟨-, one, released⟩ := deletes_releaseFrom_iff.mp del
    have hr : kept r := by
      by_contra unspent
      have := (spent r (lt_of_count_ne_zero (by omega)) own unspent).1
      omega
    refine (h.erase extended hr fun id => ?_).congr fun r' => ?_
    · rw [mem_openIds_releaseFrom]
      simp [one, released, own]
    · rw [deletes_releaseFrom_iff]
      simp [one, released, eq_comm]
  · refine (h.keep extended fun id => ?_).congr fun r' => ?_
    · rw [mem_openIds_releaseFrom, and_iff_left_iff_imp]
      rintro - ⟨one, released, own, -⟩
      exact del ⟨deletes_releaseFrom_iff.mpr ⟨rfl, one, released⟩, own⟩
    · refine (and_iff_left_of_imp fun hr' gone => del ?_).symm
      obtain ⟨rfl, -⟩ := deletes_releaseFrom_iff.mp gone
      exact ⟨gone, (h.known hr').2⟩

/-- A step of a disciplined run frees the identifiers of the registries that it deletes and claims
those of the registries that it enters. -/
theorem Ownership.step (h : Ownership w p kept)
    (spent : ∀ r, r.index < w.registries.length → (w.registry r).owner = p → ¬kept r →
      (w.registry r).Spent)
    (allowed : Disciplined p w s) :
    Ownership (w.step s).2 p fun r =>
      kept r ∧ ¬w.Deletes s r ∨ Entered w (w.step s).2 p r := by
  have extended := extends_step w s
  obtain ⟨admitted, discipline⟩ := allowed
  have nothing (e : w.releasesFrom? s = none) {v : World}
      (h : Ownership v p fun r => kept r ∨ Entered w v p r) :
      Ownership v p fun r => kept r ∧ ¬w.Deletes s r ∨ Entered w v p r :=
    h.congr fun r => by simp [not_deletes e]
  have releases {r : RegistryRef} {b : BranchRef}
      (del : ∀ r', w.Deletes s r' ↔ w.Deletes (.releaseFrom r b) r')
      (e : (w.step s).2 = (w.releaseFrom r b).2) :
      Ownership (w.step s).2 p fun r' =>
        kept r' ∧ ¬w.Deletes s r' ∨ Entered w (w.step s).2 p r' := by
    have len : (w.step s).2.registries.length = w.registries.length := by
      rw [e, length_registries_releaseFrom]
    rw [e]
    exact (h.releaseFrom spent).congr fun r' => by simp [del, not_entered, e ▸ len]
  have clerical (quiet : isClerical s = true) (e : w.releasesFrom? s = none)
      (openIds : ((w.step s).2.process p).openIds = (w.process p).openIds) :
      Ownership (w.step s).2 p fun r =>
        kept r ∧ ¬w.Deletes s r ∨ Entered w (w.step s).2 p r :=
    h.quiet extended (fun id => iff_of_eq (congrArg (id ∈ ·) openIds))
      (congrArg List.length (registries_step quiet)) fun _ => not_deletes e
  cases s with
  | outside change =>
      refine h.quiet extended ?_ ?_ fun _ => not_deletes rfl <;> rw [step_outside]
      exact fun _ => .rfl
  | openLog config node => exact clerical rfl rfl (openIds_openLog ..)
  | crash q =>
      refine h.quiet extended (fun id => ?_) ?_ fun _ => not_deletes rfl
      · simp only [step, openIds_crash discipline]
      · simp [step, crash]
  | relocate q base => exact clerical rfl rfl (openIds_relocate ..)
  | create q xid => exact nothing rfl (h.createIn admitted (w.process q).dir xid)
  | createIn q dir xid => exact nothing rfl (h.createIn admitted dir xid)
  | record r l =>
      refine h.quiet extended (fun id => ?_) ?_ fun _ => not_deletes rfl
      · simp only [step, Prod.map_snd, id_eq, process_congr (processes_record w r l)]
      · simp [step, registries_record]
  | enlist r l node =>
      refine h.quiet extended (fun id => ?_) ?_ fun _ => not_deletes rfl
      · simp only [step, Prod.map_snd, id_eq, process_congr (processes_enlist w r l node)]
      · simp [step, registries_enlist, registries_record]
  | release b => exact releases (fun _ => .rfl) rfl
  | releaseFrom r b => exact releases (fun _ => .rfl) rfl
  | scan q during => exact nothing rfl (h.scan admitted.1 during)
  | sweep q during => exact nothing rfl (h.scan admitted.1 during)
  | hostSweep => exact nothing rfl (h.hostSweep admitted)
  | bind r l node => exact clerical rfl rfl rfl
  | mark b | doubtVia r b | doubt q bs => exact clerical rfl rfl (openIds_doubt ..)
  | settle q b => exact clerical rfl rfl (openIds_settle ..)
  | register q => exact clerical rfl rfl (openIds_register ..)
  | unregister q => exact clerical rfl rfl (openIds_unregister ..)
  | claim q id | unclaim q id =>
      have apart := process_updateProcess_of_ne (w := w) (Ne.symm discipline)
      exact clerical rfl rfl (congrArg Process.openIds (apart _))

/-! Along a run. -/

/-- What releases have taken to zero in a run exists at its end. -/
theorem lt_of_ended {steps : List Step} (h : Sometime (Ends · · r) steps w) :
    r.index < (after steps w).registries.length := by
  induction steps generalizing w with
  | nil => exact h.elim
  | cons s rest ih =>
      rcases h with now | later
      · exact Nat.lt_of_lt_of_le (lt_of_ends now) (extends_after w (s :: rest)).registries
      · exact ih later

theorem ended_of_deleted {steps : List Step} (h : Sometime (Deletes · · r) steps w) :
    Sometime (Ends · · r) steps w :=
  h.mono fun _ _ => And.left

/-- A disciplined step spends the registry of the process that it ends, and no other. -/
theorem spent_step (hr : r.index < w.registries.length) (own : (w.registry r).owner = p)
    (allowed : Disciplined p w s) :
    ((w.step s).2.registry r).Spent ↔ (w.registry r).Spent ∨ w.Ends s r := by
  rw [registry_step hr]
  split
  · rename_i into
    have unspent : ¬(w.registry r).Spent := by
      cases s <;> simp only [recordsIn?, reduceCtorEq, Option.some.injEq] at into
      all_goals exact into ▸ allowed.2 (into ▸ own)
    have unended : ¬w.Ends s r := by
      cases s <;> simp_all [recordsIn?, Ends, releasesFrom?]
    have filled : ¬(w.registry r).recorded.Spent := fun h => by simp [Registry.Spent] at h
    simp [unspent, unended, filled]
  · split
    · rename_i out
      simp only [Registry.Spent, Registry.count_released, Registry.handle?_released, Ends, out,
        true_and]
      by_cases one : (w.registry r).count = 1
      · simp [one]
      · simp only [one, if_false, or_false]
        exact and_congr_left fun _ => by omega
    · rename_i out
      have unended : ¬w.Ends s r := fun h => out h.1
      split
      · rename_i crashed
        subst crashed
        exact absurd own allowed.2
      · simp [unended]

/-- A release that deletes enters no registry. -/
theorem not_entered_of_deletes (h : w.Deletes s r) {r' : RegistryRef} :
    ¬Entered w (w.step s).2 q r' := by
  apply not_entered
  cases s with
  | release b => exact length_registries_releaseFrom
  | releaseFrom r'' b => exact length_registries_releaseFrom
  | _ => exact absurd h (not_deletes rfl)

/-- The file of a registry, once it is closed, is deleted by a step or was gone. -/
def Unlinks (w : World) (s : Step) (r : RegistryRef) : Prop :=
  let closed := w.files.unlock (w.registry r).handle?.toList
  let path := Utf8.encode (w.registry r).path
  closed.unlink path = .ok (w.step s).2.files ∨
    closed.unlink path = .error .notFound ∧ (w.step s).2.files = closed

theorem unlinks_releaseFrom (h : (w.registry r).count = 1) :
    w.Unlinks (.releaseFrom r b) r ↔ (w.releaseFrom r b).1 = .ok () := by
  simp only [Unlinks, step, Prod.map_snd, id_eq, releaseFrom_of_eq h]
  split <;> rename_i e
  · simp [e, settle, unclaim, retire]
  · simp [e, settle, unclaim, retire]
  · rename_i error other
    have : error ≠ .notFound := other
    simp [e, this]

theorem deletes_iff_unlinks : w.Deletes s r ↔ w.Ends s r ∧ w.Unlinks s r := by
  have releases {r' : RegistryRef} {b : BranchRef} :
      w.Deletes (.releaseFrom r' b) r ↔
        w.Ends (.releaseFrom r' b) r ∧ w.Unlinks (.releaseFrom r' b) r := by
    simp only [deletes_releaseFrom_iff, Ends, releasesFrom?, Option.some.injEq, and_assoc]
    refine and_congr_right fun e => ?_
    subst e
    exact and_congr_right fun one => (unlinks_releaseFrom one).symm
  cases s with
  | release b => exact releases (b := b)
  | releaseFrom r' b => exact releases
  | _ => exact ⟨fun h => absurd h (not_deletes rfl), fun h => by simp [Ends, releasesFrom?] at h⟩

/-- What a process can rely on while its open set holds the identifiers of the registries that it
owns. -/
structure Exclusive (w : World) (p : ProcessRef) (owned : RegistryRef → Prop) : Prop where
  /-- No identifier of theirs is created anew. -/
  refused : ∀ {r} (dir : String) {xid : Xid}, owned r → (w.registry r).id = xid.name →
    w.createIn p dir xid = (.error (.createFailed (joinPath dir xid.name) .alreadyOpen), w)
  /-- A creation that fails claims nothing. -/
  unclaimed : ∀ {dir : String} {xid : Xid} {f : Failure}, (w.createIn p dir xid).1 = .error f →
    ((w.createIn p dir xid).2.process p).openIds = (w.process p).openIds
  /-- A scan that fails changes nothing. -/
  unscanned : ∀ {during : List FileStep} {f : Failure}, (w.scan p during).1 = .error f →
    (w.scan p during).2 = w
  /-- A scan recovers none of their identifiers. -/
  foreign : ∀ {during : List FileStep} {report : ScanReport}, (w.scan p during).1 = .ok report →
    ∀ r ∈ report.recovered, ∀ r', owned r' →
      ((w.scan p during).2.registry r).id ≠ (w.registry r').id
  /-- A scan claims the identifiers that it recovers and no others. -/
  claimed : ∀ {during : List FileStep} {report : ScanReport}, (w.scan p during).1 = .ok report →
    ∀ id, id ∈ ((w.scan p during).2.process p).openIds ↔
      id ∈ (w.process p).openIds ∨
        ∃ r ∈ report.recovered, ((w.scan p during).2.registry r).id = id
  /-- An identifier is freed by the last release that deletes the file, or finds it gone. -/
  freed : ∀ {s : Step}, Disciplined p w s → ∀ id,
    id ∈ (w.process p).openIds ∧ id ∉ ((w.step s).2.process p).openIds ↔
      ∃ r, owned r ∧ (w.registry r).id = id ∧ w.Ends s r ∧ w.Unlinks s r

theorem Ownership.exclusive (h : Ownership w p kept) (running : w.Runs p)
    (spent : ∀ r, r.index < w.registries.length → (w.registry r).owner = p → ¬kept r →
      (w.registry r).Spent) : Exclusive w p kept where
  refused _ _ hr e := createIn_of_mem (e ▸ (h.mem_iff _).mpr ⟨_, hr, rfl⟩)
  unclaimed {dir xid f} e := by
    obtain ⟨_, files, -, e'⟩ | ⟨_, inode, made, -, -, -, e'⟩ := createIn_cases w p dir xid
    · rw [e']
      rfl
    · rw [e'] at e
      cases e
  unscanned {during f} e := by
    simp only [World.scan] at e ⊢
    split
    · rfl
    · rename_i ids listed
      rw [listed] at e
      cases e
  foreign {during report} e r hr r' hr' same := by
    have entered := (mem_recovered_scan e).mp hr
    have old := (h.known hr').1
    have later := h.scan running.1 during
    rw [← (extends_scan w p during).id old] at same
    have := later.distinct (.inr entered) (.inl hr') same
    have := entered.1
    subst r
    omega
  claimed {during report} e id := by
    rw [(h.scan running.1 during).mem_iff, h.mem_iff]
    constructor
    · rintro ⟨r, hr | hr, same⟩
      · exact .inl ⟨r, hr, by rw [← (extends_scan w p during).id (h.known hr).1, same]⟩
      · exact .inr ⟨r, (mem_recovered_scan e).mpr hr, same⟩
    · rintro (⟨r, hr, same⟩ | ⟨r, hr, same⟩)
      · exact ⟨r, .inl hr, by rw [(extends_scan w p during).id (h.known hr).1, same]⟩
      · exact ⟨r, .inr ((mem_recovered_scan e).mp hr), same⟩
  freed {s} allowed id := by
    have later := h.step spent allowed
    have extended := extends_step w s
    simp only [← deletes_iff_unlinks]
    constructor
    · rintro ⟨before, free⟩
      obtain ⟨r, hr, same⟩ := (h.mem_iff id).mp before
      refine ⟨r, hr, same, ?_⟩
      by_contra still
      refine free ((later.mem_iff id).mpr ⟨r, .inl ⟨hr, still⟩, ?_⟩)
      rw [extended.id (h.known hr).1, same]
    · rintro ⟨r, hr, same, gone⟩
      refine ⟨(h.mem_iff id).mpr ⟨r, hr, same⟩, fun kept' => ?_⟩
      obtain ⟨r', ⟨hr', still⟩ | new, same'⟩ := (later.mem_iff id).mp kept'
      · rw [extended.id (h.known hr').1] at same'
        exact still (h.distinct hr hr' (same.trans same'.symm) ▸ gone)
      · exact not_entered_of_deletes gone new

variable {files : FileSystem} {past steps : List Step} {start : World}

/-- Along a disciplined run the registries of the process that are spent are those whose count a
release has taken to zero. -/
theorem spent_iff_ended (h : Along (Disciplined p) steps (ofFiles files))
    (hr : r.index < (after steps (ofFiles files)).registries.length)
    (own : ((after steps (ofFiles files)).registry r).owner = p) :
    ((after steps (ofFiles files)).registry r).Spent ↔
      Sometime (Ends · · r) steps (ofFiles files) := by
  refine along_induction
    (I := fun past w => r.index < w.registries.length → (w.registry r).owner = p →
      ((w.registry r).Spent ↔ Sometime (Ends · · r) past (ofFiles files)))
    (fun lt => absurd lt (Nat.not_lt_zero _)) ?_ steps h hr own
  intro past s _ allowed ih lt own
  have extended := extends_step (after past (ofFiles files)) s
  rw [sometime_concat]
  by_cases old : r.index < (after past (ofFiles files)).registries.length
  · have own' := (extended.owner old).symm.trans own
    rw [spent_step old own' allowed, ih old own']
  · have fresh := not_spent_entered s (Nat.le_of_not_lt old) lt
    refine iff_of_false fresh fun ended => ?_
    rcases ended with earlier | now
    · exact old (lt_of_ended earlier)
    · exact old (lt_of_ends now)

/-- The registries of a process that it has created or recovered in a run and not deleted. -/
def Undeleted (p : ProcessRef) (steps : List Step) (start : World) (r : RegistryRef) : Prop :=
  r.index < (after steps start).registries.length ∧
    ((after steps start).registry r).owner = p ∧ ¬Sometime (Deletes · · r) steps start

theorem spent_of_not_undeleted (h : Along (Disciplined p) steps (ofFiles files))
    (hr : r.index < (after steps (ofFiles files)).registries.length)
    (own : ((after steps (ofFiles files)).registry r).owner = p)
    (deleted : ¬Undeleted p steps (ofFiles files) r) :
    ((after steps (ofFiles files)).registry r).Spent := by
  refine (spent_iff_ended h hr own).mpr (ended_of_deleted ?_)
  by_contra never
  exact deleted ⟨hr, own, never⟩

theorem undeleted_concat :
    Undeleted p (past ++ [s]) start r ↔
      Undeleted p past start r ∧ ¬(after past start).Deletes s r ∨
        Entered (after past start) ((after past start).step s).2 p r := by
  have extended := extends_step (after past start) s
  simp only [Undeleted, sometime_concat, after_append, after_cons, after_nil, not_or]
  constructor
  · rintro ⟨lt, own, never, still⟩
    by_cases old : r.index < (after past start).registries.length
    · exact .inl ⟨⟨old, by rw [← extended.owner old, own], never⟩, still⟩
    · exact .inr ⟨Nat.le_of_not_lt old, lt, own⟩
  · rintro (⟨⟨lt, own, never⟩, still⟩ | new)
    · have later := Nat.lt_of_lt_of_le lt extended.registries
      exact ⟨later, by rw [extended.owner lt, own], never, still⟩
    · exact ⟨new.2.1, new.2.2,
        fun gone => Nat.not_lt_of_le new.1 (lt_of_ended (ended_of_deleted gone)),
        fun gone => Nat.not_lt_of_le new.1 (lt_of_ends gone.1)⟩

/-- Along a disciplined run the process owns what it has not deleted. -/
theorem ownership_along (h : Along (Disciplined p) steps (ofFiles files)) :
    Ownership (after steps (ofFiles files)) p (Undeleted p steps (ofFiles files)) := by
  refine along_induction
    (I := fun past w => Ownership w p (Undeleted p past (ofFiles files))) ?_ ?_ steps h
  · exact .of_nothing (fun _ hr => Nat.not_lt_zero _ hr.1) OpenSet.not_mem_empty
  · intro past s earlier allowed owned
    exact (owned.step (fun _ => spent_of_not_undeleted earlier) allowed).congr fun _ =>
      undeleted_concat.symm

/-- At every point of a disciplined run the open set of the process holds the identifiers of the
registries that it has created or recovered and not deleted, and no two of them have the same one.
Nobody else gets them, and they are freed by the release that deletes the file. -/
theorem openIds_exact (h : Along (Disciplined p) steps (ofFiles files)) :
    let w := after steps (ofFiles files)
    let undeleted := Undeleted p steps (ofFiles files)
    (∀ id, id ∈ (w.process p).openIds ↔ ∃ r, undeleted r ∧ (w.registry r).id = id) ∧
      (∀ r r', undeleted r → undeleted r' → (w.registry r).id = (w.registry r').id → r = r') ∧
      (w.Runs p → Exclusive w p undeleted) := by
  have owned := ownership_along h
  exact ⟨owned.mem_iff, fun _ _ => owned.distinct,
    fun running => owned.exclusive running fun _ => spent_of_not_undeleted h⟩

/-- The file of a registry is deleted by others and found gone by the last release; then the
identifier is created once more. -/
def foundGone : List Step :=
  [.openLog {} "n", .create ⟨0⟩ .sample, .enlist ⟨0⟩ .sample "n",
    .outside (.unlink (Utf8.encode (joinPath "./xa-recovery" Xid.sample.name))),
    .scan ⟨0⟩ [], .release ⟨0⟩, .create ⟨0⟩ .sample]

theorem openIds_exact_foundGone :
    let w := after foundGone (ofFiles .empty)
    Along (Disciplined ⟨0⟩) foundGone (ofFiles .empty) ∧
      (w.process ⟨0⟩).openIds.ids = [Xid.sample.name] ∧
      Exclusive w ⟨0⟩ (Undeleted ⟨0⟩ foundGone (ofFiles .empty)) := by
  have allowed : Along (Disciplined ⟨0⟩) foundGone (ofFiles .empty) := by decide +kernel
  exact ⟨allowed, by decide +kernel, (openIds_exact allowed).2.2 (by decide +kernel)⟩

end InDoubt.World

import InDoubt.Proofs.Culling
import InDoubt.Proofs.Handles
import InDoubt.Proofs.Relocation

/-!
The life of one registry. It is entered by a creation or a scan of its log, in whatever state that
has reached, and lives on its file from then on: the file stands at its path, the log owns its
identifier, and a created registry holds the file open (`Lives`). It keeps these through every step
of its log, and through what others do unless that takes the file or the claim away (`Minds`). As
long as it gets handles by recording branches only, it counts as many as it has.
-/

namespace InDoubt.World

open FileSystem

variable {v w : World} {p q : ProcessRef} {r r' : RegistryRef} {b : BranchRef} {s : Step}
  {place : Place} {inode : Nat} {id : String}

/-- The registry of a process that runs has its file, in the directory of the log and under its
identifier, which the process owns. -/
structure Lives (p : ProcessRef) (r : RegistryRef) (w : World) (place : Place) (inode : Nat) :
    Prop where
  entered : r.index < w.registries.length
  owner : (w.registry r).owner = p
  runs : w.Runs p
  homed : (w.registry r).path = joinPath (w.process p).dir (w.registry r).id
  backed : Backed w r place inode
  claimed : (w.registry r).id ∈ (w.process p).openIds

/-- A step that takes neither the file of a registry away nor its claim. -/
structure Leaves (p : ProcessRef) (r : RegistryRef) (w : World) (s : Step) : Prop where
  home : ∀ {place inode}, HomeAt w.files (Utf8.encode (w.registry r).path) place inode →
    HomeAt (w.step s).2.files (Utf8.encode (w.registry r).path) place inode
  claimed : (w.registry r).id ∈ (w.process p).openIds →
    (w.registry r).id ∈ ((w.step s).2.process p).openIds

/-- A step while a registry lives. Its process goes on, nothing is released from it, and it gets no
handle without a record or record without a handle. Scans of its log find the files as they were
listed. Of what else others do, or the log itself with other registries, only that is asked which
could take the file or the claim away. -/
def Minds (p : ProcessRef) (r : RegistryRef) (w : World) (s : Step) : Prop :=
  w.Admits s ∧ s ≠ .crash p ∧ w.releasesFrom? s ≠ some r ∧
    match s with
    | .record r' _ | .bind r' _ _ => r' ≠ r
    | .scan q during | .sweep q during => q = p ∧ during = [] ∨ Leaves p r w s
    | .outside _ | .hostSweep | .unclaim _ _ | .release _ | .releaseFrom _ _ => Leaves p r w s
    | _ => True

/-! What a scan enters. -/

/-- A scan that nobody disturbs enters nothing under an identifier that its process owns. -/
theorem Gathers.scan (running : p.index < w.processes.length)
    (owned : id ∈ (w.process p).openIds) : Gathers p (· ≠ id) w (w.scan p []).2 := by
  simp only [World.scan]
  split
  · exact .refl w
  · refine (recoverAll_induction
      (I := fun v => id ∈ (v.process p).openIds ∧ Gathers p (· ≠ id) w v) ?_ ⟨owned, .refl w⟩).2
    rintro v other - free ⟨mine, h⟩
    have ne : id ≠ other := by
      rintro rfl
      exact free mine
    have running' : p.index < v.processes.length := h.processes ▸ running
    exact ⟨(mem_openIds_recover running' ne).mpr mine, h.trans (.recover running' ne.symm)⟩

/-! Handles. -/

theorem handles_mono (extended : Extends w v) : w.handles r ≤ v.handles r :=
  extended.branches.sublist.countP_le

theorem handled_or (h : Bound w) (admitted : w.Admits s) :
    (∃ r l node, s = .bind r l node) ∨ s = .hostSweep ∨ Handled (recordsIn? s) w (w.step s).2 := by
  by_cases bound : ∃ r l node, s = .bind r l node
  · exact .inl bound
  · by_cases alone : s = .hostSweep
    · exact .inr (.inl alone)
    · exact .inr (.inr (handled_step h admitted (fun r l node e => bound ⟨r, l, node, e⟩) alone))

theorem bound_step (h : Bound w) (admitted : w.Admits s) : Bound (w.step s).2 := by
  obtain ⟨r, l, node, rfl⟩ | rfl | handled := handled_or h admitted
  · intro r' ge
    have apart : r ≠ r' := by
      rintro rfl
      exact Nat.not_lt.mpr ge admitted.1
    have made : (w.step (.bind r l node)).2.branches = w.branches ++ [⟨l, node, r⟩] := rfl
    simp [handles, made, List.countP_append, apart, ← h r' ge]
  · exact sweepEach_induction (I := Bound) (fun _ k => (handled_scan k []).bound) h
  · exact handled.bound

theorem bound_along {files : FileSystem} {steps : List Step}
    (h : Along Admits steps (ofFiles files)) : Bound (after steps (ofFiles files)) :=
  along_induction (I := fun _ => Bound) (fun _ _ => rfl)
    (fun _ _ _ admitted k => bound_step k admitted) steps h

/-- A registry gets handles by recording in it and by binding to it only. -/
theorem handles_step_le (h : Bound w) (admitted : w.Admits s) (lt : r.index < w.registries.length)
    (recorded : ∀ l node, s ≠ .bind r l node) :
    (w.step s).2.handles r ≤ w.handles r + if recordsIn? s = some r then 1 else 0 := by
  obtain ⟨r', l, node, rfl⟩ | rfl | handled := handled_or h admitted
  · have apart : r' ≠ r := by
      rintro rfl
      exact recorded l node rfl
    have made : (w.step (.bind r' l node)).2.branches = w.branches ++ [⟨l, node, r'⟩] := rfl
    simp [handles, made, List.countP_append, apart]
  · refine (sweepEach_induction (I := fun v => w.registries.length ≤ v.registries.length ∧
      Bound v ∧ v.handles r ≤ w.handles r) ?_ ⟨Nat.le_refl _, h, Nat.le_refl _⟩).2.2
    rintro v q - ⟨grown, bound, le⟩
    have handled : Handled none v (v.scan q []).2 := handled_scan bound []
    have more := handled.old (Nat.lt_of_lt_of_le lt grown)
    rw [if_neg (by simp)] at more
    have grown' := Nat.le_trans grown (extends_scan v q []).registries
    exact ⟨grown', handled.bound, Nat.le_trans more le⟩
  · exact handled.old lt

/-- A recovery makes a handle for each branch that its registry counts. -/
theorem handles_scan (h : Bound w) (during : List FileStep)
    (hr : Entered w (w.scan q during).2 p r) :
    (w.scan q during).2.handles r = ((w.scan q during).2.registry r).count := by
  refine (scan_induction (I := fun v => Extends w v ∧ Bound v ∧
      ∀ {r}, Entered w v p r → v.handles r = (v.registry r).count)
    (fun _ h => ⟨h.1.trans (.of_eq rfl rfl rfl), h.2⟩) ?_ during
    ⟨.refl w, h, fun hr => absurd hr (not_entered rfl)⟩).2.2 hr
  rintro v id path l ls - ⟨extended, bound, exactly⟩
  have entered := registries_adopt v q id path (l :: ls)
  refine ⟨extended.trans (extends_adopt ..), fun r ge => ?_, fun {r} hr => ?_⟩
  · rw [entered, List.length_append, List.length_singleton] at ge
    rw [handles_adopt, if_neg, bound r (by omega)]
    rintro rfl
    exact Nat.not_succ_le_self _ ge
  · rcases (entered_append extended entered).mp hr with old | ⟨rfl, -⟩
    · have apart : r ≠ ⟨v.registries.length⟩ := by
        rintro rfl
        exact Nat.lt_irrefl _ old.2.1
      rw [handles_adopt, if_neg apart, registry_append entered old.2.1, exactly old, Nat.add_zero]
    · rw [handles_adopt, if_pos rfl, registry_append_new entered, bound _ (Nat.le_refl _),
        Nat.zero_add]

/-! The registry is entered. -/

/-- A process that is still there and where it was runs as it did. -/
theorem Runs.keep (h : w.Runs p) (number : w.processes.length ≤ v.processes.length)
    (station : (v.process p).station = (w.process p).station) : v.Runs p :=
  ⟨Nat.lt_of_lt_of_le h.1 number, (congrArg (·.2.2) station).trans h.2⟩

theorem world_of_looks (looks : Looks p s) : (w.step s).2 = (w.scan p []).2 := by
  obtain rfl | rfl := looks <;> rfl

/-- What a creation enters is claimed, and has no branch yet. -/
theorem claimed_createIn (bound : Bound w) (runs : w.Runs p) {dir : String} {xid : Xid}
    (hr : Entered w (w.createIn p dir xid).2 p r) :
    ((w.createIn p dir xid).2.registry r).id ∈ ((w.createIn p dir xid).2.process p).openIds ∧
      (w.createIn p dir xid).2.handles r = ((w.createIn p dir xid).2.registry r).count := by
  obtain ⟨made, new⟩ := registry_createIn_new hr.1 hr.2.1
  rw [new]
  constructor
  · obtain ⟨_, files, -, e⟩ | ⟨_, inode, files, -, -, -, e⟩ := createIn_cases w p dir xid <;>
      rw [e] at hr ⊢
    · exact absurd hr (not_entered rfl)
    · exact (mem_openIds_updateProcess runs.1 (fun _ => rfl) _).mpr (.inr ⟨rfl, rfl⟩)
  · simp only [handles, branches_createIn]
    exact bound r hr.1

/-- A step with which a log enters registries: it creates one, or scans undisturbed. -/
def Begins (p : ProcessRef) (s : Step) : Prop := (∃ xid, s = .create p xid) ∨ Looks p s

/-- A registry that its log enters lives, and has as many handles as it counts. -/
theorem lives_entered (sound : w.files.Sound) (bound : Bound w) (runs : w.Runs p)
    (begins : Begins p s) (hr : Entered w (w.step s).2 p r) :
    (∃ place inode, Lives p r (w.step s).2 place inode) ∧
      (w.step s).2.handles r = ((w.step s).2.registry r).count := by
  have settled := settled_of_entered hr
  have runs' : (w.step s).2.Runs p :=
    runs.keep (Nat.le_of_eq settled.number.symm) (settled.station p)
  have there : ((w.step s).2.process p).dir = (w.process p).dir :=
    congrArg (·.1) (settled.station p)
  rcases begins with ⟨xid, rfl⟩ | looks
  · obtain ⟨place, inode, backed⟩ := Backing.backed_createIn hr
    obtain ⟨claimed, counted⟩ := claimed_createIn bound runs hr
    refine ⟨⟨place, inode, hr.2.1, hr.2.2, runs', ?_, backed, claimed⟩, counted⟩
    rw [there]
    exact path_createIn (fun _ => rfl) hr
  · rw [world_of_looks looks] at hr runs' there ⊢
    obtain ⟨claimed, place, inode, backed⟩ := (scanned_scan sound runs.1).entered hr
    refine ⟨⟨place, inode, hr.2.1, hr.2.2, runs', ?_, backed, claimed⟩, handles_scan bound [] hr⟩
    rw [there]
    exact path_scan p [] hr

/-! The registry lives on. -/

namespace Lives

theorem not_leftover (h : Lives p r w place inode) : ¬Leftover p w place := by
  rintro ⟨id, _, _, free, named, -⟩
  exact free (h.backed.id_eq named ▸ h.claimed)

/-- A registry lives on if its file and its claim stay and it is not ended. -/
theorem keep (h : Lives p r w place inode) (runs : s ≠ .crash p) (stays : ¬w.Ends s r)
    (home : HomeAt (w.step s).2.files (Utf8.encode (w.registry r).path) place inode)
    (claimed : (w.registry r).id ∈ ((w.step s).2.process p).openIds) :
    Lives p r (w.step s).2 place inode := by
  have extended := extends_step w s
  have station := station_step runs h.claimed
  have id := extended.id h.entered
  have path := extended.path h.entered
  have handle := handle?_step_of_not_ends h.entered stays (h.owner.symm ▸ runs)
  refine ⟨Nat.lt_of_lt_of_le h.entered extended.registries,
    (extended.owner h.entered).trans h.owner, h.runs.keep extended.processes station, ?_,
    ⟨path ▸ home, ?_, ?_⟩, id ▸ claimed⟩
  · rw [path, id, show ((w.step s).2.process p).dir = (w.process p).dir from congrArg (·.1) station]
    exact h.homed
  · rw [id]
    exact h.backed.named
  · rw [extended.isLive h.entered, handle]
    exact h.backed.handle

theorem home_step (h : Lives p r w place inode) (sound : w.files.Sound) (minds : Minds p r w s) :
    HomeAt (w.step s).2.files (Utf8.encode (w.registry r).path) place inode := by
  obtain ⟨-, -, -, leaves⟩ := minds
  have home := h.backed.home
  have clerical (quiet : isClerical s = true) :
      HomeAt (w.step s).2.files (Utf8.encode (w.registry r).path) place inode := by
    rw [files_step quiet]
    exact home
  cases s with
  | outside change | hostSweep | unclaim q id | release b | releaseFrom r' b =>
      exact leaves.home home
  | scan q during | sweep q during =>
      rcases leaves with ⟨rfl, rfl⟩ | leaves
      · exact home.kept (scanned_scan sound h.runs.1).alters h.not_leftover
      · exact leaves.home home
  | create q xid | createIn q dir xid => exact home.kept (alters_createIn _ xid) not_false
  | record r' l => exact home.kept (alters_record l) not_false
  | enlist r' l node =>
      rw [files_step_enlist]
      exact home.kept (alters_record l) not_false
  | crash q => exact home.congr rfl
  | openLog config node | relocate q base | bind r' l node | mark b | doubtVia r' b | register q
  | unregister q | claim q id | doubt q bs | settle q b => exact clerical rfl

theorem claimed_step (h : Lives p r w place inode) (sound : w.files.Sound)
    (minds : Minds p r w s) : (w.registry r).id ∈ ((w.step s).2.process p).openIds := by
  obtain ⟨admitted, runs, -, leaves⟩ := minds
  have same {v : World} (e : (v.process p).openIds = (w.process p).openIds) :
      (w.registry r).id ∈ (v.process p).openIds := e ▸ h.claimed
  have created {q : ProcessRef} (there : w.Runs q) (dir : String) (xid : Xid) :
      (w.registry r).id ∈ ((w.createIn q dir xid).2.process p).openIds := by
    obtain ⟨_, files, -, e⟩ | ⟨_, inode, files, -, -, -, e⟩ := createIn_cases w q dir xid <;> rw [e]
    · exact h.claimed
    · exact (mem_openIds_updateProcess there.1 (fun _ => rfl) _).mpr (.inl h.claimed)
  cases s with
  | outside change | hostSweep | unclaim q id | release b | releaseFrom r' b =>
      exact leaves.claimed h.claimed
  | scan q during | sweep q during =>
      rcases leaves with ⟨rfl, rfl⟩ | leaves
      · exact (scanned_scan sound h.runs.1).opens h.claimed
      · exact leaves.claimed h.claimed
  | create q xid => exact created admitted _ xid
  | createIn q dir xid => exact created admitted dir xid
  | claim q id => exact (mem_openIds_updateProcess admitted.1 (fun _ => rfl) _).mpr (.inl h.claimed)
  | crash q => exact same (openIds_crash fun self => runs (congrArg Step.crash self))
  | openLog config node => exact same (openIds_openLog ..)
  | record r' l => exact same (congrArg Process.openIds (process_congr (processes_record ..) p))
  | enlist r' l node =>
      exact same (congrArg Process.openIds (process_congr (processes_enlist ..) p))
  | relocate q base => exact same (openIds_relocate ..)
  | register q => exact same (openIds_register ..)
  | unregister q => exact same (openIds_unregister ..)
  | bind r' l node => exact h.claimed
  | mark b | doubtVia r' b | doubt q bs => exact same (openIds_doubt ..)
  | settle q b => exact same (openIds_settle ..)

/-- A registry lives on as long as nothing takes its file or its claim away. -/
theorem step (h : Lives p r w place inode) (sound : w.files.Sound) (minds : Minds p r w s) :
    Lives p r (w.step s).2 place inode :=
  h.keep minds.2.1 (fun ends => minds.2.2.1 ends.1) (h.home_step sound minds)
    (h.claimed_step sound minds)

/-- A branch that is recorded in a registry that lives gets a handle. -/
theorem handles_enlist (h : Lives p r w place inode) (l : Locator) (node : String) :
    (w.enlist r l node).2.handles r = w.handles r + 1 := by
  have writable : (w.registry r).origin = .recovered ∨ (w.registry r).handle?.isSome := by
    by_cases live : (w.registry r).isLive = true
    · exact .inr (by simp [h.backed.handle live])
    · refine .inl ?_
      unfold Registry.isLive at live
      split at live
      · exact absurd rfl live
      · assumption
  obtain ⟨_, failed, -⟩ | ⟨-, e⟩ := enlist_cases w r l node
  · rw [record_eq_ok_iff.mpr writable] at failed
    cases failed
  · simp [e, handles, List.countP_append]

theorem counted_step (h : Lives p r w place inode) (bound : Bound w) (minds : Minds p r w s)
    (counted : w.handles r = (w.registry r).count) :
    (w.step s).2.handles r = ((w.step s).2.registry r).count := by
  obtain ⟨admitted, -, unreleased, leaves⟩ := minds
  have unbound (l : Locator) (node : String) : s ≠ .bind r l node := by
    rintro rfl
    exact leaves rfl
  have most := handles_step_le bound admitted h.entered unbound
  rw [count_step h.entered, tally]
  by_cases into : recordsIn? s = some r
  · rw [if_pos into]
    cases s with
    | enlist r' l node =>
        cases into
        exact (h.handles_enlist l node).trans (congrArg (· + 1) counted)
    | record r' l =>
        cases into
        exact absurd rfl leaves
    | _ => cases into
  · rw [if_neg into] at most ⊢
    rw [if_neg unreleased, ← counted]
    exact Nat.le_antisymm most (handles_mono (extends_step w s))

end Lives

/-- What an entered registry has, it has until the end of its life. -/
theorem lives_along {mid : List Step} (h : Lives p r w place inode) (orderly : Orderly w)
    (bound : Bound w) (counted : w.handles r = (w.registry r).count)
    (minded : Along (Minds p r) mid w) :
    Lives p r (after mid w) place inode ∧
      (after mid w).handles r = ((after mid w).registry r).count := by
  induction mid generalizing w with
  | nil => exact ⟨h, counted⟩
  | cons s rest ih =>
      obtain ⟨minds, later⟩ := minded
      exact ih (h.step orderly.sound minds) (orderly.step s) (bound_step bound minds.1)
        (h.counted_step bound minds counted) later

end InDoubt.World

import InDoubt.Proofs.Scanning

/-!
Two worlds that differ in the account of one registry only: in its count, and in which of its
handles are in doubt (`Twins`). A scan of its log looks at neither, so it does the same to both of
them. Marking one of the handles changes one of the two at most in what they differ in, and so does
a release that is not the last.
-/

namespace InDoubt.World

variable {u v w : World} {p q : ProcessRef} {r r' : RegistryRef} {b : BranchRef}
  {hs : List BranchRef} {dir id path : String}

/-- The worlds are the same but for the count of a registry of the process, and for these handles
among those in doubt there. -/
structure Twins (p : ProcessRef) (r : RegistryRef) (hs : List BranchRef) (u v : World) : Prop where
  files : u.files = v.files
  branches : u.branches = v.branches
  callbacks : u.callbacks = v.callbacks
  entered : u.registries.length = v.registries.length
  registry : ∀ {r'}, r' ≠ r → u.registry r' = v.registry r'
  owner : (u.registry r).owner = (v.registry r).owner
  started : u.processes.length = v.processes.length
  running : p.index < u.processes.length
  process : ∀ {q}, q ≠ p → u.process q = v.process q
  log : { u.process p with inDoubt := [] } = { v.process p with inDoubt := [] }
  inDoubt : (u.process p).inDoubt.filter (· ∉ hs) = (v.process p).inDoubt.filter (· ∉ hs)

namespace Twins

theorem refl (running : p.index < w.processes.length) : Twins p r hs w w :=
  ⟨rfl, rfl, rfl, rfl, fun _ => rfl, rfl, rfl, running, fun _ => rfl, rfl, rfl⟩

theorem running' (h : Twins p r hs u v) : p.index < v.processes.length := h.started ▸ h.running

theorem tree (h : Twins p r hs u v) (files : FileSystem) :
    Twins p r hs { u with files } { v with files } :=
  ⟨rfl, h.branches, h.callbacks, h.entered, h.registry, h.owner, h.started, h.running, h.process,
    h.log, h.inDoubt⟩

/-- One process claims something in both worlds, and puts the same branches in doubt. -/
theorem updateProcess (h : Twins p r hs u v) (q : ProcessRef) (claims : OpenSet → OpenSet)
    (bs : List BranchRef) :
    let f (proc : Process) : Process :=
      { proc with openIds := claims proc.openIds, inDoubt := proc.inDoubt ++ bs }
    Twins p r hs (u.updateProcess q f) (v.updateProcess q f) := by
  intro f
  have others {q' : ProcessRef} (ne : q' ≠ p) :
      (u.updateProcess q f).process q' = (v.updateProcess q f).process q' := by
    by_cases self : q' = q
    · subst self
      by_cases there : q'.index < u.processes.length
      · rw [process_updateProcess_self there, process_updateProcess_self (h.started ▸ there),
          h.process ne]
      · rw [process_of_le (by simpa using there), process_of_le]
        simpa [h.started] using there
    · rw [process_updateProcess_of_ne self, process_updateProcess_of_ne self, h.process ne]
  have own : { (u.updateProcess q f).process p with inDoubt := [] } =
        { (v.updateProcess q f).process p with inDoubt := [] } ∧
      ((u.updateProcess q f).process p).inDoubt.filter (· ∉ hs) =
        ((v.updateProcess q f).process p).inDoubt.filter (· ∉ hs) := by
    by_cases self : p = q
    · subst self
      rw [process_updateProcess_self h.running, process_updateProcess_self h.running']
      refine
        ⟨congrArg (fun proc : Process => { proc with openIds := claims proc.openIds }) h.log, ?_⟩
      rw [List.filter_append, List.filter_append, h.inDoubt]
    · rw [process_updateProcess_of_ne self, process_updateProcess_of_ne self]
      exact ⟨h.log, h.inDoubt⟩
  exact ⟨h.files, h.branches, h.callbacks, h.entered, h.registry, h.owner, by simp [h.started],
    by simpa using h.running, others, own.1, own.2⟩

/-- The logs are the same in every part that is not the branches in doubt. -/
theorem part {α : Type} (h : Twins p r hs u v) (part : Process → α)
    (ignores : ∀ proc, part { proc with inDoubt := [] } = part proc) :
    part (u.process p) = part (v.process p) := by
  rw [← ignores, h.log, ignores]

theorem openIds (h : Twins p r hs u v) : (u.process p).openIds = (v.process p).openIds :=
  h.part Process.openIds fun _ => rfl

/-! What is done to both. -/

theorem doubt (h : Twins p r hs u v) (q : ProcessRef) (bs : List BranchRef) :
    Twins p r hs (u.doubt q bs) (v.doubt q bs) :=
  h.updateProcess q (·) bs

/-- The same branch is marked in both worlds. -/
theorem mark (h : Twins p r hs u v) (b : BranchRef) : Twins p r hs (u.mark b) (v.mark b) := by
  have branch : u.branch b = v.branch b := by simp only [World.branch, h.branches]
  have owner :
      (u.registry (v.branch b).registry).owner = (v.registry (v.branch b).registry).owner := by
    by_cases self : (v.branch b).registry = r
    · rw [self, h.owner]
    · rw [h.registry self]
  simp only [World.mark, doubtVia, branch, owner]
  exact h.doubt _ [b]

/-- A registry is entered in both worlds, with its branches. -/
theorem enter (h : Twins p r hs u v) (g : Registry) (bs : List Branch) :
    Twins p r hs { u with registries := u.registries ++ [g], branches := u.branches ++ bs }
      { v with registries := v.registries ++ [g], branches := v.branches ++ bs } := by
  let grown (w : World) : World :=
    { w with registries := w.registries ++ [g], branches := w.branches ++ bs }
  have entry (r' : RegistryRef) : (grown u).registry r' = (grown v).registry r' ∨
      (grown u).registry r' = u.registry r' ∧ (grown v).registry r' = v.registry r' := by
    by_cases old : r'.index < u.registries.length
    · exact .inr ⟨registry_append (v := grown u) rfl old,
        registry_append (v := grown v) rfl (h.entered ▸ old)⟩
    · have new := Nat.le_of_not_lt old
      refine .inl ?_
      simp only [World.registry, grown, List.getD_append_right _ _ _ _ new,
        List.getD_append_right _ _ _ _ (h.entered ▸ new), h.entered]
  refine ⟨h.files, congrArg (· ++ bs) h.branches, h.callbacks, by simp [h.entered],
    fun {r'} ne => ?_, ?_, h.started, h.running, h.process, h.log, h.inDoubt⟩
  · rcases entry r' with same | ⟨old, old'⟩
    · exact same
    · exact old.trans ((h.registry ne).trans old'.symm)
  · rcases entry r with same | ⟨old, old'⟩
    · exact congrArg Registry.owner same
    · exact (congrArg Registry.owner old).trans (h.owner.trans (congrArg Registry.owner old').symm)

theorem adopt (h : Twins p r hs u v) (id path : String) (ls : List Locator) :
    Twins p r hs (u.adopt p id path ls).2 (v.adopt p id path ls).2 := by
  have node : (u.process p).node = (v.process p).node := h.part Process.node fun _ => rfl
  have entered := h.enter ⟨p, id, path, .recovered, ls.length⟩
    (ls.map (Branch.mk · (v.process p).node ⟨v.registries.length⟩))
  have claimed := entered.updateProcess p (·.insert id)
    ((List.range ls.length).map fun i => BranchRef.mk (v.branches.length + i))
  have whole (w : World) (same : (w.process p).node = (v.process p).node)
      (registries : w.registries.length = v.registries.length)
      (branches : w.branches = v.branches) :
      (w.adopt p id path ls).2 = World.updateProcess
        { w with
          registries := w.registries ++ [⟨p, id, path, .recovered, ls.length⟩]
          branches := w.branches ++ ls.map (Branch.mk · (v.process p).node ⟨v.registries.length⟩) }
        p fun proc => { proc with
          openIds := proc.openIds.insert id
          inDoubt := proc.inDoubt ++
            (List.range ls.length).map fun i => BranchRef.mk (v.branches.length + i) } := by
    have processes := processes_adopt w p id path ls
    rw [branches] at processes
    rw [← same, ← registries, World.updateProcess]
    exact congrArg (fun ps => (⟨_, ps, _, _, _⟩ : World)) processes
  rw [whole u node h.entered h.branches, whole v rfl rfl rfl]
  exact claimed

theorem recover (h : Twins p r hs u v) (dir id : String) :
    Twins p r hs (u.recover p dir id).2 (v.recover p dir id).2 := by
  simp only [World.recover, h.files]
  split
  · exact h
  · exact h
  · exact h.tree _
  · exact h.adopt ..

theorem recoverAll (h : Twins p r hs u v) (dir : String) (ids : List String) :
    Twins p r hs (recoverAll p dir ids u).2 (recoverAll p dir ids v).2 := by
  induction ids generalizing u v with
  | nil => exact h
  | cons id rest ih =>
      simp only [World.recoverAll, h.openIds]
      split
      · exact ih h
      · exact ih (h.recover dir id)

/-- A scan does the same to both worlds. -/
theorem scan (h : Twins p r hs u v) (during : List FileStep) :
    Twins p r hs (u.scan p during).2 (v.scan p during).2 := by
  have dir : (u.process p).dir = (v.process p).dir := h.part Process.dir fun _ => rfl
  simp only [World.scan, h.files, dir]
  split
  · exact h
  · exact (h.tree _).recoverAll ..

/-! What is done to one of them. -/

/-- One of the handles is put in doubt. -/
theorem doubtOne (h : Twins p r hs u v) (mem : b ∈ hs) : Twins p r hs (u.doubt p [b]) v := by
  have listed : (u.doubt p [b]).process p =
      { u.process p with inDoubt := (u.process p).inDoubt ++ [b] } :=
    process_updateProcess_self h.running _
  refine ⟨h.files, h.branches, h.callbacks, h.entered, h.registry, h.owner,
    (length_processes_updateProcess ..).trans h.started, by simpa [World.doubt] using h.running,
    fun ne => (process_updateProcess_of_ne ne _).trans (h.process ne), ?_, ?_⟩
  · rw [listed]
    exact h.log
  · rw [listed, List.filter_append, ← h.inDoubt]
    simp [mem]

/-- One of the handles is released, and it is not the last. -/
theorem releaseOne (h : Twins p r hs u v) (own : (u.registry r).owner = p)
    (more : (u.registry r).count ≠ 1) (mem : b ∈ hs) : Twins p r hs (u.releaseFrom r b).2 v := by
  rw [releaseFrom_of_ne more, own]
  let counted := u.updateRegistry r fun g => { g with count := g.count - 1 }
  have settled : (counted.settle p b).process p =
      { u.process p with inDoubt := (u.process p).inDoubt.filter (· ≠ b) } :=
    process_updateProcess_self (w := counted) h.running _
  refine ⟨h.files, h.branches, h.callbacks, by simp [World.settle, h.entered], fun ne => ?_, ?_,
    (length_processes_updateProcess ..).trans h.started, by simpa [World.settle] using h.running,
    fun ne => (process_updateProcess_of_ne ne _).trans (h.process ne), ?_, ?_⟩
  · exact (registry_updateRegistry_of_ne ne _).trans (h.registry ne)
  · refine (part_updateRegistry (w := u) Registry.owner ?_ r).trans h.owner
    exact fun _ => rfl
  · rw [settled]
    exact h.log
  · rw [settled, ← h.inDoubt, List.filter_filter]
    refine List.filter_congr fun other _ => ?_
    by_cases same : other = b <;> simp [same, mem]

end Twins

end InDoubt.World

import InDoubt.Proofs.Faces
import InDoubt.Proofs.Counting
import InDoubt.Proofs.Orderly
import InDoubt.Proofs.Serving

/-!
Worlds in which a face is that of a client. What is done for one client is confined to it: other
registries, other identifiers and other branches in doubt stay as they are, and so do the contents
of all files but those that registries of the client hold open. The faces of the other clients are
theirs as before.
-/

namespace InDoubt

open FileSystem World

variable {ι : Type} {g : Stage ι} {v w : World} {i j : ι} {c c' : Client} {f : Face} {k n : Nat}
  {p : ProcessRef} {r r' : RegistryRef} {b : BranchRef} {inode : Nat} {id : String}
  {own : String → Prop}

namespace Client

/-- What a client has stays its own while registries and branches are only added. -/
theorem Owns.extends (h : c.Owns v p own) (extended : Extends v w)
    (dir : (w.process p).dir = (v.process p).dir) : c.Owns w p own where
  registries := h.registries
  registry mem := by
    obtain ⟨lt, owner, mine, path⟩ := h.registry mem
    refine ⟨Nat.lt_of_lt_of_le lt extended.registries, ?_, ?_, ?_⟩
    · rw [extended.owner lt, owner]
    · rwa [extended.id lt]
    · rw [extended.path lt, extended.id lt, dir, path]
  branches := h.branches
  branch mem := by
    obtain ⟨lt, mine⟩ := h.branch mem
    refine ⟨Nat.lt_of_lt_of_le lt extended.branches.length_le, ?_⟩
    rwa [extended.branch lt]

/-- A registry that is entered under an identifier of the client becomes its own. -/
theorem Owns.enter (h : c.Owns v p own) {x : Registry}
    (entered : w.registries = v.registries ++ [x]) (grown : Extends v w)
    (dir : (w.process p).dir = (v.process p).dir) (owner : x.owner = p) (mine : own x.id)
    (path : x.path = joinPath (v.process p).dir x.id) :
    Owns { c with registries := c.registries ++ [⟨v.registries.length⟩] } w p own := by
  have owns := h.extends grown dir
  refine ⟨?_, fun {r} mem => ?_, owns.branches, fun mem => ?_⟩
  · refine List.nodup_append.mpr ⟨h.registries, List.nodup_singleton _, ?_⟩
    rintro r mem r' mem' rfl
    rw [List.mem_singleton.mp mem'] at mem
    exact Nat.lt_irrefl _ (h.registry mem).1
  · rcases List.mem_append.mp mem with before | last
    · exact owns.registry before
    · rw [List.mem_singleton.mp last, registry_append_new entered, dir]
      exact ⟨by simp [entered], owner, mine, path⟩
  · exact ⟨(owns.branch mem).1, List.mem_append_left _ (owns.branch mem).2⟩

theorem Owns.bindings (h : c.Owns v p own) (extended : Extends v w) :
    c.bindings w = c.bindings v := by
  refine List.map_congr_left fun b mem => ?_
  rw [binding, binding, extended.branch (h.branch mem).1]

/-- The branches of a client are in the same positions once it has one more registry. -/
theorem Owns.bindings_enter (h : c.Owns v p own) (extended : Extends v w) (r : RegistryRef) :
    Client.bindings { c with registries := c.registries ++ [r] } w = c.bindings v := by
  rw [← h.bindings extended]
  refine List.map_congr_left fun b mem => ?_
  have mine : (w.branch b).registry ∈ c.registries := by
    rw [extended.branch (h.branch mem).1]
    exact (h.branch mem).2
  rw [binding, binding, List.idxOf_append_of_mem mine]

/-- The registry of a branch stands at its position. -/
theorem Owns.registry_of_branch (h : c.Owns v p own) (mem : b ∈ c.branches) :
    c.registries[c.registries.idxOf (v.branch b).registry]? = some (v.branch b).registry := by
  have mine := (h.branch mem).2
  rw [List.getElem?_eq_getElem (List.idxOf_lt_length_of_mem mine), List.getElem_idxOf]

end Client

namespace Stage

variable (g : Stage ι)

/-- The ledger of a registry at a position of its client. -/
def ledger (k : Nat) (x : Registry) : Ledger :=
  ⟨x.id, x.isLive, x.handle?.map (g.fileRef k), x.count⟩

/-- A client has held an inode open from the start. -/
def Held (i : ι) (inode : Nat) : Prop :=
  ∃ r ∈ (g.start.clients i).registries, (g.start.world.registry r).handle? = some inode

variable {g}

theorem ledger_retired (k : Nat) (x : Registry) : g.ledger k { x.closed with count := 0 } =
    { g.ledger k x with file := none, count := 0 } := by
  obtain ⟨_, _, _, origin, _⟩ := x
  cases origin <;> rfl

theorem fileRef_old (lt : inode < g.inodes) : g.fileRef k inode = .old inode := if_pos lt

theorem fileRef_own (ge : g.inodes ≤ inode) : g.fileRef k inode = .own k :=
  if_neg (Nat.not_lt.mpr ge)

end Stage

/-- What holds of the world all the time. The log runs in its directory; an inode that was there at
the start is held open by nobody who did not hold it then. -/
structure Grounded (g : Stage ι) (v : World) : Prop where
  orderly : Orderly v
  writers : SoleWriters v
  listed : Listed v
  extended : Extends g.start.world v
  running : v.Runs g.process
  dir : (v.process g.process).dir = g.dir
  numbered : g.inodes ≤ v.files.contents.length
  heirs : ∀ {r inode}, (v.registry r).handle? = some inode → inode < g.inodes →
    (g.start.world.registry r).handle? = some inode

/-- A step that neither starts, ends nor moves a process keeps all that. -/
theorem Grounded.step (h : Grounded g v) {s : Step} (admitted : v.Admits s)
    (settles : unsettles s = false) : Grounded g (v.step s).2 where
  orderly := h.orderly.step s
  writers := h.writers.step s
  listed := h.listed.step admitted
  extended := h.extended.trans (extends_step v s)
  running := (settled_step v settles).runs_iff.mpr h.running
  dir := (congrArg (·.1) ((settled_step v settles).station g.process)).trans h.dir
  numbered := Nat.le_trans h.numbered (numbered_step v s)
  heirs kth lt := by
    rcases handle?_step_eq_some kth with before | ⟨-, new, -⟩
    · exact h.heirs before lt
    · exact absurd (Nat.lt_of_lt_of_le lt (Nat.le_trans h.numbered new)) (Nat.lt_irrefl _)

/-- The face of a client in a world, apart from what stands in the directory. -/
structure Portrays (g : Stage ι) (v : World) (i : ι) (c : Client) (f : Face) : Prop where
  owns : c.Owns v g.process (g.own i)
  first : (g.start.clients i).registries <+: c.registries
  later : ∀ {r}, r ∈ c.registries → r ∈ (g.start.clients i).registries ∨
    g.start.world.registries.length ≤ r.index
  ledgers : ∀ k, f.registries[k]? = c.registries[k]?.map fun r => g.ledger k (v.registry r)
  bindings : f.branches = c.bindings v
  owned : ∀ {id}, g.own i id → (f.owned id = true ↔ id ∈ (v.process g.process).openIds)
  inDoubt : f.inDoubt = c.inDoubt v g.process
  opened : ∀ {k r inode}, c.registries[k]? = some r → (v.registry r).handle? = some inode →
    f.contents (g.fileRef k inode) = v.files.content inode
  held : ∀ {inode}, inode < g.inodes → g.Held i inode →
    f.contents (.old inode) = v.files.content inode

/-- What is done for one client changes nothing of what it does not have. -/
structure Confined (c : Client) (own : String → Prop) (p : ProcessRef) (v w : World) : Prop where
  extended : Extends v w
  dir : (w.process p).dir = (v.process p).dir
  registry : ∀ {r}, r.index < v.registries.length → r ∉ c.registries →
    w.registry r = v.registry r
  openIds : ∀ {id}, ¬own id → (id ∈ (w.process p).openIds ↔ id ∈ (v.process p).openIds)
  inDoubt : ∀ {bs : List BranchRef}, (∀ b ∈ bs, b ∉ c.branches) →
    (w.process p).inDoubt.filter (· ∈ bs) = (v.process p).inDoubt.filter (· ∈ bs)
  content : ∀ {inode}, inode < v.files.contents.length →
    (∀ r ∈ c.registries, (v.registry r).handle? ≠ some inode) →
    w.files.content inode = v.files.content inode

namespace Confined

/-- Registries and processes stay as they are, and no content changes. -/
theorem tree {files : FileSystem} (contents : ∀ {inode}, inode < v.files.contents.length →
    files.content inode = v.files.content inode) : Confined c own p v { v with files } where
  extended := .of_eq rfl rfl rfl
  dir := rfl
  registry _ _ := rfl
  openIds _ := Iff.rfl
  inDoubt _ := rfl
  content lt _ := contents lt

theorem record (mem : r ∈ c.registries) (l : Locator) :
    Confined c own p v (v.record r l).2 where
  extended := extends_record v r l
  dir := by rw [process_congr (processes_record v r l)]
  registry {r'} _ other := by
    have ne : r' ≠ r := fun e => other (e ▸ mem)
    rw [registry_congr (w := v.updateRegistry r _) (registries_record v r l),
      registry_updateRegistry_of_ne ne]
  openIds _ := by rw [process_congr (processes_record v r l)]
  inDoubt _ := by rw [process_congr (processes_record v r l)]
  content {inode} _ unheld := by
    rw [files_record]
    split
    · rename_i handle
      exact content_appendTo_of_ne fun e => unheld r mem (e ▸ handle)
    · rfl

theorem bind (r : RegistryRef) (l : Locator) (node : String) :
    Confined c own p v (v.bind r l node).2 where
  extended := .of_append [] [_] (by simp [World.bind, addBranch]) rfl (Nat.le_refl _)
  dir := rfl
  registry _ _ := rfl
  openIds _ := Iff.rfl
  inDoubt _ := rfl
  content _ _ := rfl

theorem doubt (mem : b ∈ c.branches) : Confined c own p v (v.doubt p [b]) where
  extended := .of_eq rfl rfl (length_processes_updateProcess ..)
  dir := congrArg (·.1) ((settled_doubt v p [b]).station p)
  registry _ _ := rfl
  openIds _ := by rw [openIds_doubt]
  inDoubt {bs} others := by
    have absent : b ∉ bs := fun mem' => others b mem' mem
    by_cases there : p.index < v.processes.length
    · rw [World.doubt, process_updateProcess_self there]
      simp [List.filter_append, absent]
    · rw [process_of_le (w := v) (Nat.le_of_not_lt there), process_of_le]
      simpa [World.doubt] using there
  content _ _ := rfl

theorem releaseFrom (owner : (v.registry r).owner = p) (mine : own (v.registry r).id)
    (mem : r ∈ c.registries) (mem' : b ∈ c.branches) :
    Confined c own p v (v.releaseFrom r b).2 where
  extended := extends_releaseFrom ..
  dir := congrArg (·.1) ((settled_releaseFrom v r b).station p)
  registry {r'} lt other := by
    have ne : r ≠ r' := fun e => other (e ▸ mem)
    rw [registry_releaseFrom lt, if_neg ne]
  openIds {id} other := by
    rw [mem_openIds_releaseFrom]
    refine and_iff_left ?_
    rintro ⟨-, -, -, rfl⟩
    exact other mine
  inDoubt {bs} others := by
    rw [inDoubt_releaseFrom owner, List.filter_filter]
    refine List.filter_congr fun b' _ => ?_
    by_cases same : b' = b
    · have absent : b ∉ bs := fun mem => others b mem mem'
      simp [same, absent]
    · simp [same]
  content {inode} _ _ := by
    by_cases one : (v.registry r).count = 1
    · exact congrArg (List.getD · _ _) (closes_releaseFrom one).contents
    · rw [releaseFrom_of_ne one]
      rfl

/-- A registry is entered under an identifier of the client. -/
theorem enter (mine : own id) {files : FileSystem} (path : String) (inode : Nat)
    (contents : ∀ {inode}, inode < v.files.contents.length →
      files.content inode = v.files.content inode) :
    Confined c own p v (v.enter p files id path inode) where
  extended := .of_append _ [] rfl (by simp [World.enter]) (by simp [World.enter])
  dir := by
    refine part_updateProcess (w := { v with files, registries := _ }) (·.dir) ?_ p
    exact fun _ => rfl
  registry {r} lt _ := registry_append (w := v) rfl lt
  openIds {other} ne := by
    by_cases there : p.index < v.processes.length
    · refine (mem_openIds_updateProcess (w := { v with files, registries := _ }) there
        (fun _ => rfl) other).trans (or_iff_left ?_)
      rintro ⟨-, rfl⟩
      exact ne mine
    · rw [process_of_le (w := v) (Nat.le_of_not_lt there), process_of_le]
      simpa [World.enter] using there
  inDoubt _ := by
    refine congrArg _ (part_updateProcess (w := { v with files, registries := _ }) (·.inDoubt) ?_ p)
    exact fun _ => rfl
  content lt _ := contents lt

end Confined

namespace Portrays

theorem length_registries (h : Portrays g v i c f) : f.registries.length = c.registries.length := by
  have past := h.ledgers c.registries.length
  have past' := h.ledgers f.registries.length
  rw [List.getElem?_eq_none (Nat.le_refl _)] at past past'
  rw [eq_comm, Option.map_eq_none_iff] at past'
  exact Nat.le_antisymm (List.getElem?_eq_none_iff.mp past) (List.getElem?_eq_none_iff.mp past')

theorem length_branches (h : Portrays g v i c f) : f.branches.length = c.branches.length := by
  rw [h.bindings, Client.bindings, List.length_map]

theorem ledger? (h : Portrays g v i c f) (kth : c.registries[k]? = some r) :
    f.registries[k]? = some (g.ledger k (v.registry r)) := by
  rw [h.ledgers, kth]
  rfl

/-- What a client has from the start stays at its position. -/
theorem getElem?_of_start (h : Portrays g v i c f)
    (kth : (g.start.clients i).registries[k]? = some r) : c.registries[k]? = some r := by
  obtain ⟨lt, rfl⟩ := List.getElem?_eq_some_iff.mp kth
  exact List.prefix_iff_getElem?.mp h.first k lt

/-- Two clients have no registry in common. -/
theorem registry_apart (h : Portrays g v i c f) {f' : Face} (h' : Portrays g v j c' f')
    (apart : ∀ {id}, g.own i id → ¬g.own j id) (mem : r ∈ c.registries) : r ∉ c'.registries :=
  fun mem' => apart (h.owns.registry mem).2.2.1 (h'.owns.registry mem').2.2.1

theorem branch_apart (h : Portrays g v i c f) {f' : Face} (h' : Portrays g v j c' f')
    (apart : ∀ {id}, g.own i id → ¬g.own j id) (mem : b ∈ c.branches) : b ∉ c'.branches :=
  fun mem' => h.registry_apart h' apart (h.owns.branch mem).2 (h'.owns.branch mem').2

/-- A client that held an inode at the start is the only one that may hold it. -/
theorem not_held (h : Portrays g v i c f) {f' : Face} (h' : Portrays g v j c' f')
    (apart : ∀ {id}, g.own i id → ¬g.own j id) (grounded : Grounded g v)
    (writers : SoleWriters g.start.world) (lt : inode < g.inodes) (held : g.Held i inode) :
    ∀ r ∈ c'.registries, (v.registry r).handle? ≠ some inode := by
  rintro r mem kth
  obtain ⟨r', mem', kth'⟩ := held
  obtain rfl := writers.single (grounded.heirs kth lt) kth'
  exact h.registry_apart h' apart (h.first.subset mem') mem

/-- The face of a client stays the same while others are served. -/
theorem frame (h : Portrays g v j c f) {f' : Face} (h' : Portrays g v i c' f')
    (apart : ∀ {id}, g.own j id → ¬g.own i id) (grounded : Grounded g v)
    (writers : SoleWriters g.start.world) (confined : Confined c' (g.own i) g.process v w) :
    Portrays g w j c f where
  owns := h.owns.extends confined.extended confined.dir
  first := h.first
  later := h.later
  ledgers k := by
    rw [h.ledgers]
    cases kth : c.registries[k]? with
    | none => rfl
    | some r =>
        have mem := List.mem_of_getElem? kth
        have same := confined.registry (h.owns.registry mem).1 (h.registry_apart h' apart mem)
        simp only [Option.map_some, Stage.ledger, same]
  bindings := h.bindings.trans (h.owns.bindings confined.extended).symm
  owned mine := (h.owned mine).trans (confined.openIds (apart mine)).symm
  inDoubt := by
    rw [h.inDoubt, Client.inDoubt, Client.inDoubt,
      confined.inDoubt fun b mem => h.branch_apart h' apart mem]
  opened {k r inode} kth handle := by
    have mem := List.mem_of_getElem? kth
    rw [confined.registry (h.owns.registry mem).1 (h.registry_apart h' apart mem)] at handle
    rw [h.opened kth handle, confined.content (grounded.writers.numbered handle)]
    rintro r' mem' handle'
    obtain rfl := grounded.writers.single handle handle'
    exact h.registry_apart h' apart mem mem'
  held lt mine := by
    rw [h.held lt mine, confined.content (Nat.lt_of_lt_of_le lt grounded.numbered)]
    exact h.not_held h' apart grounded writers lt mine

/-! What is done for the client itself. -/

/-- One registry of the client has changed. -/
theorem ledgers_modify (h : Portrays g v i c f) {change : Ledger → Ledger}
    (kth : c.registries[k]? = some r)
    (changed : g.ledger k (w.registry r) = change (g.ledger k (v.registry r)))
    (others : ∀ r' ∈ c.registries, r' ≠ r → w.registry r' = v.registry r') (n : Nat) :
    (f.modify k change).registries[n]? =
      c.registries[n]?.map fun r => g.ledger n (w.registry r) := by
  simp only [Face.modify, List.getElem?_modify, h.ledgers]
  cases kth' : c.registries[n]? with
  | none => rfl
  | some r' =>
      by_cases same : k = n
      · subst same
        obtain rfl := Option.some.inj (kth.symm.trans kth')
        simp [changed]
      · have other : r' ≠ r := by
          rintro rfl
          have lt := (List.getElem?_eq_some_iff.mp kth).1
          exact same (List.getElem?_inj lt h.owns.registries |>.mp (kth.trans kth'.symm))
        simp [same, Stage.ledger, others r' (List.mem_of_getElem? kth') other]

/-- Only the tree has changed, and no content in it. -/
theorem tree (h : Portrays g v i c f) {files : FileSystem}
    (contents : ∀ inode, files.content inode = v.files.content inode) :
    Portrays g { v with files } i c f where
  owns := h.owns.extends (.of_eq rfl rfl rfl) rfl
  first := h.first
  later := h.later
  ledgers := h.ledgers
  bindings := h.bindings
  owned := h.owned
  inDoubt := h.inDoubt
  opened kth handle := (h.opened kth handle).trans (contents _).symm
  held lt mine := (h.held lt mine).trans (contents _).symm

/-- One registry has changed, and opens no other file. -/
theorem update (h : Portrays g v i c f) (kth : c.registries[k]? = some r)
    {change : Registry → Registry} {change' : Ledger → Ledger}
    (keeps : ∀ x, (change x).identity = x.identity)
    (shuts : ∀ {x inode}, (change x).handle? = some inode → x.handle? = some inode)
    (changed : g.ledger k (change (v.registry r)) = change' (g.ledger k (v.registry r))) :
    Portrays g (v.updateRegistry r change) i c (f.modify k change') where
  owns := h.owns.extends (.of_update rfl keeps rfl rfl) rfl
  first := h.first
  later := h.later
  ledgers n := by
    refine h.ledgers_modify kth ?_ (fun _ _ other => registry_updateRegistry_of_ne other _) n
    rw [registry_updateRegistry_self (h.owns.registry (List.mem_of_getElem? kth)).1]
    exact changed
  bindings := h.bindings
  owned := h.owned
  inDoubt := h.inDoubt
  opened {n r' inode} kth' handle := by
    refine h.opened kth' ?_
    by_cases same : r' = r
    · subst same
      have lt := (h.owns.registry (List.mem_of_getElem? kth)).1
      rw [registry_updateRegistry_self lt] at handle
      exact shuts handle
    · rwa [registry_updateRegistry_of_ne same] at handle
  held := h.held

/-- Something has been written to the file that one registry holds open. -/
theorem append (h : Portrays g v i c f) (kth : c.registries[k]? = some r)
    (handle : (v.registry r).handle? = some inode) (allocated : inode < v.files.contents.length)
    (single : ∀ {r'}, (v.registry r').handle? = some inode → r' = r) (bytes : Bytes) :
    Portrays g { v with files := v.files.appendTo inode bytes } i c
      (f.append (g.fileRef k inode) bytes) where
  owns := h.owns.extends (.of_eq rfl rfl rfl) rfl
  first := h.first
  later := h.later
  ledgers := h.ledgers
  bindings := h.bindings
  owned := h.owned
  inDoubt := h.inDoubt
  opened {n r' inode'} kth' handle' := by
    simp only [Face.append]
    by_cases same : inode' = inode
    · subst same
      obtain rfl := single handle'
      have lt := (List.getElem?_eq_some_iff.mp kth).1
      obtain rfl : k = n := (List.getElem?_inj lt h.owns.registries).mp (kth.trans kth'.symm)
      rw [Function.update_self, content_appendTo_self allocated, h.opened kth handle]
    · have apart : g.fileRef n inode' ≠ g.fileRef k inode := by
        unfold Stage.fileRef
        split <;> split <;> simp only [ne_eq, reduceCtorEq, not_false_eq_true, FileRef.old.injEq,
          FileRef.own.injEq]
        · exact same
        · rintro rfl
          obtain rfl := Option.some.inj (kth.symm.trans kth')
          exact same (Option.some.inj (handle'.symm.trans handle))
      rw [Function.update_of_ne apart, content_appendTo_of_ne same]
      exact h.opened kth' handle'
  held {inode'} lt mine := by
    simp only [Face.append]
    by_cases same : inode' = inode
    · subst same
      rw [Stage.fileRef_old lt, Function.update_self, content_appendTo_self allocated,
        h.held lt mine]
    · have apart : FileRef.old inode' ≠ g.fileRef k inode := by
        unfold Stage.fileRef
        split <;> simp [same]
      rw [Function.update_of_ne apart, content_appendTo_of_ne same]
      exact h.held lt mine

/-- A branch has been made for a registry. -/
theorem bind (h : Portrays g v i c f) (listed : Listed v) (kth : c.registries[k]? = some r)
    (l : Locator) (node : String) :
    Portrays g (v.bind r l node).2 i { c with branches := c.branches ++ [⟨v.branches.length⟩] }
      (f.bind k l node) := by
  have mem := List.mem_of_getElem? kth
  have entered : (v.bind r l node).2.branches = v.branches ++ [⟨l, node, r⟩] := rfl
  have extended : Extends v (v.bind r l node).2 :=
    .of_append [] [⟨l, node, r⟩] (by simp [World.bind, addBranch]) entered (Nat.le_refl _)
  have owns := h.owns.extends extended rfl
  have new : (v.bind r l node).2.branch ⟨v.branches.length⟩ = ⟨l, node, r⟩ := by
    simp [branch, entered]
  have fresh : (⟨v.branches.length⟩ : BranchRef) ∉ c.branches := fun mem =>
    Nat.lt_irrefl _ (h.owns.branch mem).1
  refine { h with
    owns := ⟨owns.registries, owns.registry, ?_, fun {b} mem' => ?_⟩
    bindings := ?_
    inDoubt := ?_ }
  · exact List.nodup_append.mpr ⟨h.owns.branches, List.nodup_singleton _, fun b mem b' mem' e =>
      fresh (List.mem_singleton.mp mem' ▸ e ▸ mem)⟩
  · rcases List.mem_append.mp mem' with old | last
    · exact owns.branch old
    · obtain rfl := List.mem_singleton.mp last
      rw [new]
      exact ⟨by simp [entered], mem⟩
  · have position : c.registries.idxOf r = k := by
      obtain ⟨lt, rfl⟩ := List.getElem?_eq_some_iff.mp kth
      exact h.owns.registries.idxOf_getElem k lt
    have before := h.owns.bindings extended
    simp only [Client.bindings] at before
    simp only [Face.bind, h.bindings, Client.bindings, List.map_append, List.map_singleton]
    rw [← before]
    simp only [Client.binding, new, position]
    rfl
  · have unlisted : (⟨v.branches.length⟩ : BranchRef) ∉ (v.process g.process).inDoubt := fun mem =>
      Nat.lt_irrefl _ (listed _ _ mem)
    show f.inDoubt = _
    rw [h.inDoubt]
    simp only [Client.inDoubt]
    have same : (v.process g.process).inDoubt.filter (· ∈ c.branches ++ [⟨v.branches.length⟩]) =
        (v.process g.process).inDoubt.filter (· ∈ c.branches) := by
      refine List.filter_congr fun b mem => ?_
      have other : b ≠ ⟨v.branches.length⟩ := fun e => unlisted (e ▸ mem)
      simp [other]
    show _ = ((v.process g.process).inDoubt.filter _).map _
    rw [same]
    refine List.map_congr_left fun b mem => ?_
    exact (List.idxOf_append_of_mem (by simpa using (List.mem_filter.mp mem).2)).symm

/-- A branch of the client is in doubt. -/
theorem doubt (h : Portrays g v i c f) (there : g.process.index < v.processes.length)
    (kth : c.branches[k]? = some b) : Portrays g (v.doubt g.process [b]) i c (f.doubt k) := by
  have now : ((v.doubt g.process [b]).process g.process) =
      { v.process g.process with inDoubt := (v.process g.process).inDoubt ++ [b] } :=
    process_updateProcess_self there _
  refine { h with
    owns := h.owns.extends (.of_eq rfl rfl (length_processes_updateProcess ..)) (by rw [now])
    owned := fun mine => by rw [now]; exact h.owned mine
    inDoubt := ?_ }
  have position : c.branches.idxOf b = k := by
    obtain ⟨lt, rfl⟩ := List.getElem?_eq_some_iff.mp kth
    exact h.owns.branches.idxOf_getElem k lt
  have mem := List.mem_of_getElem? kth
  simp [Client.inDoubt, now, Face.doubt, h.inDoubt, List.filter_append, mem, position]

/-- A branch of the client is in doubt no longer. -/
theorem settle (h : Portrays g v i c f) (there : g.process.index < v.processes.length)
    (kth : c.branches[k]? = some b) : Portrays g (v.settle g.process b) i c (f.settle k) := by
  have now : ((v.settle g.process b).process g.process) =
      { v.process g.process with inDoubt := (v.process g.process).inDoubt.filter (· ≠ b) } :=
    process_updateProcess_self there _
  refine { h with
    owns := h.owns.extends (.of_eq rfl rfl (length_processes_updateProcess ..)) (by rw [now])
    owned := fun mine => by rw [now]; exact h.owned mine
    inDoubt := ?_ }
  have position : c.branches.idxOf b = k := by
    obtain ⟨lt, rfl⟩ := List.getElem?_eq_some_iff.mp kth
    exact h.owns.branches.idxOf_getElem k lt
  simp only [Client.inDoubt, now, Face.settle, h.inDoubt, List.filter_map, List.filter_filter]
  refine congrArg _ (List.filter_congr fun b' _ => ?_)
  by_cases mine : b' ∈ c.branches
  · have apart : c.branches.idxOf b' = k ↔ b' = b := position ▸ List.idxOf_inj mine
    simp [mine, apart]
  · simp [mine]

/-- An identifier of the client is owned no longer. -/
theorem unclaim (h : Portrays g v i c f) (id : String) :
    Portrays g (v.unclaim g.process id).2 i c (f.free id) := by
  have same {α : Type} (part : Process → α)
      (keeps : ∀ proc, part { proc with openIds := proc.openIds.erase id } = part proc) :
      part ((v.unclaim g.process id).2.process g.process) = part (v.process g.process) :=
    part_updateProcess part keeps g.process
  refine { h with
    owns := h.owns.extends (.of_eq rfl rfl (length_processes_updateProcess ..))
      (same (·.dir) fun _ => rfl)
    owned := fun {other} mine => ?_
    inDoubt := ?_ }
  · rw [mem_openIds_unclaim, ← h.owned mine]
    by_cases e : other = id <;> simp [Face.free, e]
  · rw [Client.inDoubt, same (·.inDoubt) fun _ => rfl]
    exact h.inDoubt

/-- The ledgers of a client with a new registry. -/
theorem ledgers_enter (h : Portrays g v i c f) {x : Registry}
    (entered : w.registries = v.registries ++ [x]) (n : Nat) :
    (f.registries ++ [g.ledger f.registries.length x])[n]? =
      (c.registries ++ [⟨v.registries.length⟩])[n]?.map fun r => g.ledger n (w.registry r) := by
  have length := h.length_registries
  rcases Nat.lt_trichotomy n c.registries.length with before | rfl | past
  · rw [List.getElem?_append_left (length ▸ before), List.getElem?_append_left before, h.ledgers]
    cases kth : c.registries[n]? with
    | none => rfl
    | some r =>
        have lt := (h.owns.registry (List.mem_of_getElem? kth)).1
        simp only [Option.map_some, registry_append entered lt]
  · simp [← length, registry_append_new entered]
  · rw [List.getElem?_eq_none, List.getElem?_eq_none] <;> simp <;> omega

/-- A registry has been entered with a new file. -/
theorem enter (h : Portrays g v i c f) (grounded : Grounded g v) (mine : g.own i id)
    {files : FileSystem} (content : ∀ {inode}, inode < v.files.contents.length →
      files.content inode = v.files.content inode)
    (empty : files.content v.files.contents.length = []) :
    Portrays g (v.enter g.process files id (g.path id) v.files.contents.length) i
      { c with registries := c.registries ++ [⟨v.registries.length⟩] } (f.enter id) := by
  generalize e : v.enter g.process files id (g.path id) v.files.contents.length = w
  have entered : w.registries = v.registries ++
      [⟨g.process, id, g.path id, .created (some v.files.contents.length), 0⟩] := by
    rw [← e]
    rfl
  have now : w.process g.process =
      { v.process g.process with openIds := (v.process g.process).openIds.insert id } := by
    rw [← e]
    exact process_updateProcess_self (w := { v with files, registries := _ }) grounded.running.1 _
  have grown : Extends v w := .of_append _ [] entered (by rw [← e]; simp [World.enter])
    (by rw [← e]; simp [World.enter])
  have tree : w.files = files := by
    rw [← e]
    rfl
  have length := h.length_registries
  have ref : g.fileRef f.registries.length v.files.contents.length = .own f.registries.length :=
    Stage.fileRef_own grounded.numbered
  have older {file : FileRef} (other : file ≠ .own f.registries.length) :
      (f.enter id).contents file = f.contents file := Function.update_of_ne other ..
  refine {
    owns := h.owns.enter entered grown (by rw [now]) rfl mine (by rw [grounded.dir]; rfl)
    first := h.first.trans (List.prefix_append ..)
    later := fun mem => ?_
    ledgers := fun n => ?_
    bindings := h.bindings.trans (h.owns.bindings_enter grown _).symm
    owned := fun {other} owned => ?_
    inDoubt := by rw [Client.inDoubt, now]; exact h.inDoubt
    opened := fun {n r inode} kth handle => ?_
    held := fun {inode} lt held => ?_ }
  · refine (List.mem_append.mp mem).elim h.later fun last => .inr ?_
    rw [List.mem_singleton.mp last]
    exact grounded.extended.registries
  · rw [← h.ledgers_enter entered n, Stage.ledger, Registry.handle?, Option.map_some, ref]
    rfl
  · rw [now, OpenSet.mem_insert, ← h.owned owned]
    by_cases same : other = id <;> simp [Face.enter, same]
  · rw [tree]
    rcases Nat.lt_or_ge n c.registries.length with before | past
    · rw [List.getElem?_append_left before] at kth
      rw [registry_append entered (h.owns.registry (List.mem_of_getElem? kth)).1] at handle
      rw [content (grounded.writers.numbered handle), ← h.opened kth handle]
      refine older ?_
      unfold Stage.fileRef
      split
      · simp
      · rw [length]
        simp [Nat.ne_of_lt before]
    · rw [List.getElem?_append_right past, List.getElem?_singleton] at kth
      split at kth
      · cases kth
        obtain rfl : n = c.registries.length := by omega
        rw [registry_append_new entered] at handle
        cases handle
        rw [empty, ← length, ref]
        exact Function.update_self ..
      · cases kth
  · rw [tree, content (Nat.lt_of_lt_of_le lt grounded.numbered), ← h.held lt held]
    exact older (by simp)

/-- Recording answers as the face says, and leads to the face that it gives. -/
theorem record (h : Portrays g v i c f) (grounded : Grounded g v)
    (kth : c.registries[k]? = some r) (l : Locator) :
    (v.record r l).1 = (f.record g k (g.ledger k (v.registry r)) l).1 ∧
      Portrays g (v.record r l).2 i c (f.record g k (g.ledger k (v.registry r)) l).2 := by
  have mem := List.mem_of_getElem? kth
  obtain ⟨lt, -, -, path⟩ := h.owns.registry mem
  have counted : Portrays g (v.updateRegistry r fun x => { x with count := x.count + 1 }) i c
      (f.modify k fun l => { l with count := l.count + 1 }) :=
    h.update kth (fun _ => rfl) id rfl
  cases origin : (v.registry r).origin with
  | recovered =>
      have ledger : (g.ledger k (v.registry r)).live = false := by
        simp [Stage.ledger, Registry.isLive, origin]
      simp only [World.record, Face.record, origin, ledger]
      exact ⟨trivial, counted⟩
  | created handle =>
      have live : (g.ledger k (v.registry r)).live = true := by
        simp [Stage.ledger, Registry.isLive, origin]
      have handle? : (v.registry r).handle? = handle := by simp [Registry.handle?, origin]
      cases handle with
      | none =>
          have file : (g.ledger k (v.registry r)).file = none := by simp [Stage.ledger, handle?]
          simp only [World.record, Face.record, origin, live, file]
          refine ⟨?_, counted⟩
          rw [path, grounded.dir]
          rfl
      | some inode =>
          have file : (g.ledger k (v.registry r)).file = some (g.fileRef k inode) := by
            simp [Stage.ledger, handle?]
          simp only [World.record, Face.record, origin, live, file]
          refine ⟨trivial, counted.append kth ?_ (grounded.writers.numbered handle?) ?_ _⟩
          · rwa [registry_updateRegistry_self lt]
          · intro r' handle'
            have same := part_updateRegistry (w := v) (r := r) Registry.handle?
              (f := fun x => { x with count := x.count + 1 }) (fun _ => rfl) r'
            rw [same] at handle'
            exact grounded.writers.single handle' handle?

theorem unlink (h : Portrays g v i c f) (id : String) : Portrays g v i c (f.unlink id) :=
  { h with }

theorem binding? (h : Portrays g v i c f) (kth : c.branches[n]? = some b) :
    f.branches[n]? = some (c.binding v b) := by
  rw [h.bindings, Client.bindings, List.getElem?_map, kth]
  rfl

/-- A branch has the name that the face gives to it. -/
theorem label (h : Portrays g v i c f) (mem : b ∈ c.branches) :
    v.label b = f.labelOf (c.binding v b) := by
  simp only [Face.labelOf, Client.binding, h.ledger? (h.owns.registry_of_branch mem)]
  rfl

/-- Releasing answers as the face says, if unlinking does, and leads to the face that it gives. -/
theorem releaseFrom (h : Portrays g v i c f) (grounded : Grounded g v)
    (kth : c.registries[k]? = some r) (kth' : c.branches[n]? = some b)
    (unlinks : (v.files.unlock (v.registry r).handle?.toList).unlink
        (Utf8.encode (g.path (v.registry r).id)) =
      (f.unlinking g (v.registry r).id).map fun _ =>
        (v.files.unlock (v.registry r).handle?.toList).remove (g.place (v.registry r).id)) :
    (v.releaseFrom r b).1 = (f.releaseFrom g k (g.ledger k (v.registry r)) n (c.binding v b)).1 ∧
      Portrays g (v.releaseFrom r b).2 i c
        (f.releaseFrom g k (g.ledger k (v.registry r)) n (c.binding v b)).2 := by
  have mem := List.mem_of_getElem? kth
  obtain ⟨lt, owner, mine, path⟩ := h.owns.registry mem
  have path : (v.registry r).path = g.path (v.registry r).id := by
    rw [path, grounded.dir]
    rfl
  have there := grounded.running.1
  by_cases one : (v.registry r).count = 1
  · have one' : (g.ledger k (v.registry r)).count = 1 := one
    have retired (files : FileSystem) (contents : ∀ i, files.content i = v.files.content i) :
        Portrays g (v.retire r files) i c
          (f.modify k fun l => { l with file := none, count := 0 }) := by
      refine (h.tree contents).update kth Registry.identity_closed ?_ ?_
      · intro x inode handle
        have closed : ({ x.closed with count := 0 } : Registry).handle? = none :=
          Registry.handle?_closed x
        rw [closed] at handle
        cases handle
      · exact Stage.ledger_retired ..
    rw [releaseFrom_of_eq one, path, unlinks, owner]
    simp only [Face.releaseFrom, Face.discount, if_pos one', Prod.map_fst, Prod.map_snd, id_eq]
    have id : (g.ledger k (v.registry r)).id = (v.registry r).id := rfl
    rw [id]
    have label := h.label (List.mem_of_getElem? kth')
    have closed := retired (v.files.unlock (v.registry r).handle?.toList) fun _ => rfl
    have unlinked := retired
      ((v.files.unlock (v.registry r).handle?.toList).remove (g.place (v.registry r).id))
      fun _ => rfl
    cases outcome : f.unlinking g (v.registry r).id with
    | ok =>
        refine ⟨rfl, ((unlinked.unclaim _).unlink _).settle ?_ kth'⟩
        simpa [World.unclaim, retire] using there
    | error e =>
        by_cases missing : e = .notFound
        · subst missing
          refine ⟨rfl, (closed.unclaim _).settle ?_ kth'⟩
          simpa [World.unclaim, retire] using there
        · have kept := closed.settle there kth'
          cases e <;> first
            | exact absurd rfl missing
            | exact ⟨by simp only [Except.map, label], kept⟩
  · have more : (g.ledger k (v.registry r)).count ≠ 1 := one
    rw [releaseFrom_of_ne one, owner]
    simp only [Face.releaseFrom, Face.discount, if_neg more, Prod.map_fst, Prod.map_snd, id_eq]
    refine ⟨trivial, Portrays.settle ?_ there kth'⟩
    exact h.update kth (fun _ => rfl) id rfl

end Portrays

end InDoubt

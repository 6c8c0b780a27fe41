import InDoubt.Step
import Mathlib.Data.List.Induction
import Mathlib.Tactic.Common

/-!
Runs and what holds along them. A step is admissible if the processes it names are running and the
registries and branches it names exist. Whatever one step keeps, a whole run keeps:
`along_induction` is the only induction over runs, for invariants of the last world and of what was
done before it. What a run has done is told by an observer that takes note of every step in the
world it meets.
-/

namespace InDoubt.World

/-- A world with these files in which no process has been started. -/
def ofFiles (files : FileSystem) : World := { empty with files }

/-- The world after a run. -/
def after (steps : List Step) (w : World) : World := (run steps w).2

@[simp] theorem after_nil (w : World) : after [] w = w := rfl

@[simp] theorem after_cons (s : Step) (rest : List Step) (w : World) :
    after (s :: rest) w = after rest (w.step s).2 := rfl

@[simp] theorem after_append (first second : List Step) (w : World) :
    after (first ++ second) w = after second (after first w) := by
  induction first generalizing w with
  | nil => rfl
  | cons s rest ih => exact ih (w.step s).2

/-- Every step of a run is as demanded in the world that it meets. -/
def Along (P : World → Step → Prop) : List Step → World → Prop
  | [], _ => True
  | s :: rest, w => P w s ∧ Along P rest (w.step s).2

/-- Some step of a run is of a kind, in the world that it meets. -/
def Sometime (P : World → Step → Prop) : List Step → World → Prop
  | [], _ => False
  | s :: rest, w => P w s ∨ Sometime P rest (w.step s).2

/-- The notes on a run, started from some and continued at every step. -/
def observe {α : Type} (note : World → Step → α → α) : List Step → World → α → α
  | [], _, notes => notes
  | s :: rest, w, notes => observe note rest (w.step s).2 (note w s notes)

instance decidableAlong (P : World → Step → Prop) [∀ w s, Decidable (P w s)] :
    (steps : List Step) → (w : World) → Decidable (Along P steps w)
  | [], _ => .isTrue True.intro
  | s :: rest, w =>
      have := decidableAlong P rest (w.step s).2
      inferInstanceAs (Decidable (P w s ∧ Along P rest (w.step s).2))

instance decidableSometime (P : World → Step → Prop) [∀ w s, Decidable (P w s)] :
    (steps : List Step) → (w : World) → Decidable (Sometime P steps w)
  | [], _ => .isFalse id
  | s :: rest, w =>
      have := decidableSometime P rest (w.step s).2
      inferInstanceAs (Decidable (P w s ∨ Sometime P rest (w.step s).2))

theorem along_append {P : World → Step → Prop} {first second : List Step} {w : World} :
    Along P (first ++ second) w ↔ Along P first w ∧ Along P second (after first w) := by
  induction first generalizing w with
  | nil => simp [Along]
  | cons s rest ih => simp only [List.cons_append, Along, after_cons, ih, and_assoc]

theorem along_concat {P : World → Step → Prop} {past : List Step} {s : Step} {w : World} :
    Along P (past ++ [s]) w ↔ Along P past w ∧ P (after past w) s := by
  simp [along_append, Along]

theorem sometime_concat {P : World → Step → Prop} {past : List Step} {s : Step} {w : World} :
    Sometime P (past ++ [s]) w ↔ Sometime P past w ∨ P (after past w) s := by
  induction past generalizing w with
  | nil => simp [Sometime]
  | cons t rest ih => simp only [List.cons_append, Sometime, after_cons, ih, or_assoc]

theorem observe_concat {α : Type} (note : World → Step → α → α) (past : List Step) (s : Step)
    (w : World) (notes : α) :
    observe note (past ++ [s]) w notes = note (after past w) s (observe note past w notes) := by
  induction past generalizing w notes with
  | nil => rfl
  | cons t rest ih => exact ih (w.step t).2 (note w t notes)

theorem Along.mono {P Q : World → Step → Prop} (imp : ∀ w s, P w s → Q w s) {steps : List Step}
    {w : World} (h : Along P steps w) : Along Q steps w := by
  induction steps generalizing w with
  | nil => trivial
  | cons s rest ih => exact ⟨imp w s h.1, ih h.2⟩

theorem Sometime.mono {P Q : World → Step → Prop} {steps : List Step} {w : World}
    (h : Sometime P steps w) (imp : ∀ w s, P w s → Q w s) : Sometime Q steps w := by
  induction steps generalizing w with
  | nil => exact h
  | cons s rest ih => exact h.imp (imp w s) ih

/-- An invariant that holds at the start and is kept by every step that meets the demand holds at
the end of every run whose steps all meet it. -/
theorem along_induction {P : World → Step → Prop} {start : World}
    {I : List Step → World → Prop} (base : I [] start)
    (step : ∀ past s, Along P past start → P (after past start) s →
      I past (after past start) → I (past ++ [s]) ((after past start).step s).2)
    (steps : List Step) (h : Along P steps start) : I steps (after steps start) := by
  induction steps using List.reverseRecOn with
  | nil => exact base
  | append_singleton past s ih =>
      obtain ⟨earlier, last⟩ := along_concat.mp h
      rw [after_append]
      exact step past s earlier last (ih earlier)

/-! What a step names. -/

def Runs (w : World) (p : ProcessRef) : Prop :=
  p.index < w.processes.length ∧ (w.process p).running = true

/-- The registry exists and its process is running. -/
def HasRegistry (w : World) (r : RegistryRef) : Prop :=
  r.index < w.registries.length ∧ w.Runs (w.registry r).owner

/-- The branch exists, and so does its registry in a running process. -/
def HasBranch (w : World) (b : BranchRef) : Prop :=
  b.index < w.branches.length ∧ w.HasRegistry (w.branch b).registry

instance (w : World) (p : ProcessRef) : Decidable (w.Runs p) :=
  inferInstanceAs (Decidable (_ ∧ _))

instance (w : World) (r : RegistryRef) : Decidable (w.HasRegistry r) :=
  inferInstanceAs (Decidable (_ ∧ _))

instance (w : World) (b : BranchRef) : Decidable (w.HasBranch b) :=
  inferInstanceAs (Decidable (_ ∧ _))

/-- All that a step names can take part in it. -/
def Admits (w : World) : Step → Prop
  | .outside _ | .openLog _ _ => True
  | .crash p | .relocate p _ | .create p _ | .createIn p _ _ | .scan p _ | .sweep p _
  | .register p | .unregister p | .claim p _ | .unclaim p _ => w.Runs p
  | .record r _ | .enlist r _ _ | .bind r _ _ => w.HasRegistry r
  | .release b | .mark b => w.HasBranch b
  | .releaseFrom r b | .doubtVia r b => w.HasRegistry r ∧ w.HasBranch b
  | .hostSweep => ∀ p ∈ w.callbacks, w.Runs p
  | .doubt p bs => w.Runs p ∧ ∀ b ∈ bs, w.HasBranch b
  | .settle p b => w.Runs p ∧ w.HasBranch b

instance (w : World) : (s : Step) → Decidable (w.Admits s)
  | .outside _ | .openLog _ _ => .isTrue True.intro
  | .crash p | .relocate p _ | .create p _ | .createIn p _ _ | .scan p _ | .sweep p _
  | .register p | .unregister p | .claim p _ | .unclaim p _ =>
      inferInstanceAs (Decidable (w.Runs p))
  | .record r _ | .enlist r _ _ | .bind r _ _ => inferInstanceAs (Decidable (w.HasRegistry r))
  | .release b | .mark b => inferInstanceAs (Decidable (w.HasBranch b))
  | .releaseFrom _ _ | .doubtVia _ _ | .settle _ _ => inferInstanceAs (Decidable (_ ∧ _))
  | .hostSweep => inferInstanceAs (Decidable (∀ p ∈ w.callbacks, w.Runs p))
  | .doubt p bs => inferInstanceAs (Decidable (w.Runs p ∧ ∀ b ∈ bs, w.HasBranch b))

/-- The registry that a step records a branch in. -/
def recordsIn? : Step → Option RegistryRef
  | .record r _ | .enlist r _ _ => some r
  | _ => none

/-- The registry that a step releases a branch from. -/
def releasesFrom? (w : World) : Step → Option RegistryRef
  | .release b => some (w.branch b).registry
  | .releaseFrom r _ => some r
  | _ => none

/-- The step is a release that takes the count of a registry from 1 to 0. -/
def Ends (w : World) (s : Step) (r : RegistryRef) : Prop :=
  w.releasesFrom? s = some r ∧ (w.registry r).count = 1

/-- The step is the last release of a registry, and its file has been deleted or was gone. -/
def Deletes (w : World) (s : Step) (r : RegistryRef) : Prop :=
  w.Ends s r ∧ (w.step s).1 = .done

instance (w : World) (s : Step) (r : RegistryRef) : Decidable (w.Ends s r) :=
  inferInstanceAs (Decidable (_ ∧ _))

instance (w : World) (s : Step) (r : RegistryRef) : Decidable (w.Deletes s r) :=
  inferInstanceAs (Decidable (_ ∧ _))

end InDoubt.World

namespace InDoubt

/-- A transaction, for runs that are written out. -/
def Xid.sample : Xid := ⟨1, [0x61], [], by decide, by decide⟩

/-- Where a branch of it may live. -/
def Locator.sample : Locator := ⟨"xa".toList, none, .rooted ["r".toList], none, none⟩

/-- A transaction whose parts are as long as they may be. -/
def Xid.longest : Xid :=
  ⟨1, List.replicate 64 0x61, List.replicate 64 0x62, by decide, by decide⟩

/-- The registry has no branch left and no open file: its last branch has been released. A created
registry keeps its file open up to then, and a recovered one starts with a branch. -/
def Registry.Spent (g : Registry) : Prop := g.count = 0 ∧ g.handle? = none

instance (g : Registry) : Decidable g.Spent := inferInstanceAs (Decidable (_ ∧ _))

end InDoubt

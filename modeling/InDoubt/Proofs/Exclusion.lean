import InDoubt.Proofs.Discovery
import InDoubt.Proofs.Orderly
import InDoubt.Proofs.Writers

/-!
What the lock of a registry keeps others from. While a created registry holds its file open, the
lock keeps every scan from deleting the file, but a scan does not ask for it before it reads: the
file is recovered by every process whose log has it under a name that the process does not own, as
soon as a branch has been recorded in it. The file is then removed by the last release of any
registry whose path leads to it, and by no other step (`excluded_iff`). Only an empty file is left
alone by everybody else.
-/

namespace InDoubt.World

open FileSystem

variable {v w : World} {p q : ProcessRef} {r : RegistryRef} {b : BranchRef} {s : Step}
  {inode : Nat} {place : Place} {path : String} {changes : List FileStep} {steps : List Step}

/-! Steps that leave a locked file where it is. -/

/-- Nobody but the processes changes the files in the step. -/
def Internal : Step → Prop
  | .outside _ => False
  | .scan _ during | .sweep _ during => during = []
  | _ => True

instance : (s : Step) → Decidable (Internal s)
  | .outside _ => .isFalse id
  | .scan _ during | .sweep _ during => inferInstanceAs (Decidable (during = []))
  | .openLog _ _ | .crash _ | .relocate _ _ | .create _ _ | .createIn _ _ _ | .record _ _
  | .enlist _ _ _ | .bind _ _ _ | .release _ | .releaseFrom _ _ | .mark _ | .doubtVia _ _
  | .register _ | .unregister _ | .hostSweep | .claim _ _ | .unclaim _ _ | .doubt _ _
  | .settle _ _ => .isTrue trivial

/-- A locked file stands at a place. -/
structure Guarded (fs : FileSystem) (place : Place) (inode : Nat) : Prop where
  there : fs.node? place = some (.file inode)
  locked : fs.isLocked inode = true

/-- A leftover file is deleted only if it is not locked, and a link only by which no locked file is
reached. -/
theorem Guarded.unlinkUnlocked {fs : FileSystem} (h : Guarded fs place inode) (path : String) :
    Guarded (fs.unlinkUnlocked path) place inode := by
  have spares : Spares fs (fs.unlinkUnlocked path) fun _ => False := .unlinkUnlocked fs path
  refine ⟨?_, (spares.isLocked inode).trans h.locked⟩
  unfold FileSystem.unlinkUnlocked
  split
  · exact h.there
  · rename_i i reached
    split
    · exact h.there
    · rename_i free
      split
      · rename_i e
        obtain ⟨other, node, located, stands, -, plain, rfl⟩ := unlink_eq_ok_iff.mp e
        rw [node?_remove, if_neg, h.there]
        rintro ⟨rfl, -⟩
        have home : HomeAt fs (Utf8.encode path) place inode := ⟨plain, located, h.there⟩
        rw [home.inodeAt] at reached
        cases reached
        exact free h.locked
      · exact h.there

theorem guarded_scan (h : Guarded w.files place inode) (p : ProcessRef) :
    Guarded (w.scan p []).2.files place inode := by
  simp only [World.scan]
  split
  · exact h
  · refine recoverAll_induction (I := fun v => Guarded v.files place inode) ?_ h
    intro v id _ _ k
    obtain ⟨_, files, -, rfl | ⟨-, rfl⟩, e⟩ | ⟨_, _, -, e⟩ :=
      recover_cases v p (w.process p).dir id <;> rw [e]
    · exact k
    · exact k.unlinkUnlocked _
    · exact k

/-- What the last release of a registry removes, if anything, is what the path of the registry
leads to. -/
theorem removed_releaseFrom (h : Orderly w) (stands : w.files.node? place = some (.file inode)) :
    (w.releaseFrom r b).2.files.node? place ≠ some (.file inode) ↔
      (w.registry r).count = 1 ∧
        w.files.locateEntry (Utf8.encode (w.registry r).path) = .ok place := by
  by_cases one : (w.registry r).count = 1
  · rw [and_iff_right one, releaseFrom_of_eq one]
    have located {other : Place} :
        (w.files.unlock (w.registry r).handle?.toList).locateEntry
          (Utf8.encode (w.registry r).path) = .ok other ↔
        w.files.locateEntry (Utf8.encode (w.registry r).path) = .ok other :=
      ⟨locateEntry_kept (.of_node? fun _ => rfl), locateEntry_kept (.of_node? fun _ => rfl)⟩
    have kept (missing : ∀ tree, (w.files.unlock (w.registry r).handle?.toList).unlink
        (Utf8.encode (w.registry r).path) ≠ .ok tree) :
        w.files.locateEntry (Utf8.encode (w.registry r).path) ≠ .ok place := by
      intro there
      have lt : r.index < w.registries.length := lt_of_count_ne_zero (by omega)
      obtain ⟨dir, path, held⟩ := h.registered lt
      have home : HomeAt (w.files.unlock (w.registry r).handle?.toList)
          (Utf8.encode (w.registry r).path) place inode :=
        ⟨path ▸ endsInSlash_joinPath dir held.2 held.1.1, located.mpr there, stands⟩
      exact missing _ home.unlink
    split
    · rename_i e
      obtain ⟨other, node, there, -, -, -, rfl⟩ := unlink_eq_ok_iff.mp e
      rw [located] at there
      have inside : place ≠ [] := ne_root_of_node? stands (by simp)
      simp only [there, Except.ok.injEq]
      by_cases same : other = place
      · refine iff_of_true ?_ same
        have gone : ((w.files.unlock (w.registry r).handle?.toList).remove other).node? place =
            none := by
          rw [node?_remove, if_pos ⟨same.symm, inside⟩]
        exact fun still => nomatch gone.symm.trans still
      · refine iff_of_false (not_not.mpr ?_) same
        have stays : ((w.files.unlock (w.registry r).handle?.toList).remove other).node? place =
            some (.file inode) := by
          rw [node?_remove, if_neg (not_and.mpr fun e => absurd e.symm same), node?_unlock, stands]
        exact stays
    · rename_i e
      exact iff_of_false (not_not.mpr stands) (kept fun tree e' => nomatch e.symm.trans e')
    · rename_i e
      exact iff_of_false (not_not.mpr stands) (kept fun tree e' => nomatch e.symm.trans e')
  · rw [releaseFrom_of_ne one]
    exact iff_of_false (not_not.mpr stands) fun both => one both.1

/-- A step of the processes removes a locked file exactly if it is the last release of a registry
whose path leads there. -/
theorem removed_iff (h : Orderly w) (guarded : Guarded w.files place inode)
    (internal : Internal s) :
    (w.step s).2.files.node? place ≠ some (.file inode) ↔
      ∃ r, w.Ends s r ∧ w.files.locateEntry (Utf8.encode (w.registry r).path) = .ok place := by
  have stands := guarded.there
  have kept (unreleased : w.releasesFrom? s = none)
      (stays : (w.step s).2.files.node? place = some (.file inode)) :
      (w.step s).2.files.node? place ≠ some (.file inode) ↔
        ∃ r, w.Ends s r ∧ w.files.locateEntry (Utf8.encode (w.registry r).path) = .ok place := by
    refine iff_of_false (not_not.mpr stays) ?_
    rintro ⟨r, ends, -⟩
    cases unreleased.symm.trans ends.1
  have released (r : RegistryRef) (b : BranchRef) (releases : w.releasesFrom? s = some r)
      (same : w.step s = w.step (.releaseFrom r b)) :
      (w.step s).2.files.node? place ≠ some (.file inode) ↔
        ∃ r, w.Ends s r ∧ w.files.locateEntry (Utf8.encode (w.registry r).path) = .ok place := by
    rw [same]
    refine (removed_releaseFrom h stands).trans ⟨fun both => ⟨r, ⟨releases, both.1⟩, both.2⟩, ?_⟩
    rintro ⟨r', ⟨releases', one⟩, there⟩
    obtain rfl : r = r' := Option.some.inj (releases.symm.trans releases')
    exact ⟨one, there⟩
  have clerical (quiet : isClerical s = true) :
      (w.step s).2.files.node? place = some (.file inode) := by
    rw [files_step quiet]
    exact stands
  cases s with
  | outside change => exact internal.elim
  | create p xid | createIn p dir xid =>
      exact kept rfl ((alters_createIn _ xid).file stands not_false)
  | record r l => exact kept rfl ((alters_record l).file stands not_false)
  | enlist r l node =>
      refine kept rfl ?_
      rw [files_step_enlist]
      exact (alters_record l).file stands not_false
  | release b => exact released _ b rfl rfl
  | releaseFrom r b => exact released r b rfl rfl
  | scan p during | sweep p during =>
      cases internal
      exact kept rfl (guarded_scan guarded p).there
  | hostSweep =>
      refine kept rfl ?_
      have swept : Guarded w.hostSweep.2.files place inode :=
        sweepEach_induction (I := fun v => Guarded v.files place inode)
          (fun _ k => guarded_scan k _) guarded
      exact swept.there
  | crash p => exact kept rfl stands
  | openLog config node | relocate p base | bind r l node | mark b | doubtVia r b | register p
  | unregister p | claim p id | unclaim p id | doubt p bs | settle p b =>
      exact kept rfl (clerical rfl)

/-! The whole. -/

/-- Whether a step records no locators but such. -/
def RecordsOnly (P : Locator → Prop) : Step → Prop
  | .record _ l | .enlist _ l _ => P l
  | _ => True

instance (P : Locator → Prop) [DecidablePred P] : (s : Step) → Decidable (RecordsOnly P s)
  | .record _ l | .enlist _ l _ => inferInstanceAs (Decidable (P l))
  | .outside _ | .openLog _ _ | .crash _ | .relocate _ _ | .create _ _ | .createIn _ _ _
  | .bind _ _ _ | .release _ | .releaseFrom _ _ | .mark _ | .doubtVia _ _ | .scan _ _ | .sweep _ _
  | .register _ | .unregister _ | .hostSweep | .claim _ _ | .unclaim _ _ | .doubt _ _
  | .settle _ _ => inferInstanceAs (Decidable True)

/-- A step that can take place and records locators only that were read from some text. -/
def Legible (w : World) (s : Step) : Prop := w.Admits s ∧ RecordsOnly Locator.Parsed s

theorem RecordsOnly.mono {P Q : Locator → Prop} (h : RecordsOnly P s) (imp : ∀ l, P l → Q l) :
    RecordsOnly Q s := by
  cases s with
  | record r l | enlist r l node => exact imp l h
  | _ => trivial

theorem of_mem_logged {P : Locator → Prop} {l : Locator} (allowed : RecordsOnly P s)
    (now : l ∈ logged r w s) : P l := by
  unfold logged at now
  split at now
  · split at now
    · rw [List.mem_singleton.mp now]
      exact allowed
    · cases now
  · split at now
    · rw [List.mem_singleton.mp now]
      exact allowed
    · cases now
  · cases now

/-- What holds of all locators that the steps record holds of those of one registry. -/
theorem of_mem_recordings {P : Locator → Prop} {start : World}
    (h : Along (fun _ s => RecordsOnly P s) steps start) (r : RegistryRef) :
    ∀ l ∈ recordings r steps start, P l := by
  refine along_induction (I := fun past _ => ∀ l ∈ recordings r past start, P l) nofun ?_ steps h
  intro past s _ allowed earlier l mem
  rw [recordings_concat] at mem
  rcases List.mem_append.mp mem with before | now
  · exact earlier l before
  · exact of_mem_logged allowed now

/-- While a created registry holds its file open, to which nobody else has written: a scan or sweep
of any log that has the file under a name puts all that was recorded in doubt under that name, as
what its text reads as, and recovers a registry of that name if anything was recorded, unless its
process owns the name; and a step of any process removes the file exactly if it is the last release
of a registry whose path leads there. -/
theorem excluded_iff (changes : List FileStep) (steps : List Step)
    (allowed : Along Legible steps (ofFiles (FileSystem.empty.applyAll changes)))
    (holds : ((after steps (ofFiles (FileSystem.empty.applyAll changes))).registry r).handle? =
      some inode)
    (alone : ¬Tampered inode steps (ofFiles (FileSystem.empty.applyAll changes))) :
    let start := ofFiles (FileSystem.empty.applyAll changes)
    let w := after steps start
    (∀ {q name}, w.Runs q → w.files.Lists (w.process q).dir name inode →
      ∃ o v found, w.scan q [] = (.ok o, v) ∧ w.sweep q [] = ((v.process q).inDoubt, v) ∧
        (v.process q).inDoubt = (w.process q).inDoubt ++ found ∧
        v.locationsUnder name found =
          (if name ∈ (w.process q).openIds then []
            else (recordings r steps start).map Locator.reread) ∧
        ((∃ r' ∈ o.recovered, (v.registry r').id = name) ↔
          name ∉ (w.process q).openIds ∧ recordings r steps start ≠ [])) ∧
    ∀ {s place}, Internal s → w.files.node? place = some (.file inode) →
      ((w.step s).2.files.node? place ≠ some (.file inode) ↔
        ∃ r', w.Ends s r' ∧
          w.files.locateEntry (Utf8.encode (w.registry r').path) = .ok place) := by
  intro start w
  have authored : Authored steps start w := authored_along (allowed.mono fun _ _ h => h.1)
  have orderly : Orderly w := (Orderly.ofFiles changes).after steps
  have content := authored.content (authored.held holds) alone
  refine ⟨fun {q name} runs lists => ?_, fun {s place} internal stands => ?_⟩
  · obtain ⟨o, v, scanned, finds⟩ :=
      finds_scan orderly.sound runs.1 lists content
        (of_mem_recordings (allowed.mono fun _ _ h => h.2) r)
    obtain ⟨found, listed, -, locations⟩ := finds.inDoubt
    have swept : w.sweep q [] = ((v.process q).inDoubt, v) := by rw [sweep, scanned]
    refine ⟨o, v, found, scanned, swept, listed, locations, finds.recovered.trans ?_⟩
    by_cases owned : name ∈ (w.process q).openIds <;> simp [owned]
  · exact removed_iff orderly ⟨stands, (authored.sole.locked inode).mpr ⟨r, holds⟩⟩ internal

/-- Two logs are kept in one directory, and a branch is recorded in a registry of the first. -/
def contested : List Step :=
  [.openLog {} "n", .openLog {} "m", .create ⟨0⟩ .sample, .enlist ⟨0⟩ .sample "n"]

theorem legible_contested :
    Along Legible contested (ofFiles (FileSystem.empty.applyAll [])) := by
  have faithful : Along (fun w s => w.Admits s ∧ RecordsOnly Locator.Faithful s) contested
      (ofFiles (FileSystem.empty.applyAll [])) := by
    decide +kernel
  exact faithful.mono fun _ _ h => ⟨h.1, h.2.mono fun _ h => h.parsed⟩

/-- The second log recovers the file of the first, and removes it by a release, while the first
still holds it open. -/
theorem not_excluded_contested :
    let start := ofFiles (FileSystem.empty.applyAll [])
    let w := after contested start
    let v := (w.step (.scan ⟨1⟩ [])).2
    Along Legible contested start ∧ (w.registry ⟨0⟩).handle? = some 0 ∧
      (w.registry ⟨0⟩).owner = ⟨0⟩ ∧ (w.step (.scan ⟨1⟩ [])).1 = .scanned ⟨[⟨1⟩], []⟩ ∧
      (v.registry ⟨1⟩).path = (v.registry ⟨0⟩).path ∧ (v.process ⟨1⟩).inDoubt = [⟨1⟩] ∧
      (v.branch ⟨1⟩).location = .sample ∧ (v.registry ⟨0⟩).handle? = some 0 ∧
      v.files.inodeAt (Utf8.encode (v.registry ⟨0⟩).path) = .ok 0 ∧
      ((v.step (.release ⟨1⟩)).2.registry ⟨0⟩).handle? = some 0 ∧
      (v.step (.release ⟨1⟩)).2.files.inodeAt (Utf8.encode (v.registry ⟨0⟩).path) =
        .error .notFound := by
  refine ⟨legible_contested, ?_⟩
  decide +kernel

/-- What the second log finds, and what does not remove the file. -/
theorem excluded_iff_contested :
    let start := ofFiles (FileSystem.empty.applyAll [])
    let w := after contested start
    let place := [Utf8.encode Xid.sample.name, Utf8.encode "xa-recovery"]
    Along Legible contested start ∧ (w.registry ⟨0⟩).handle? = some 0 ∧
      ¬Tampered 0 contested start ∧ w.Runs ⟨1⟩ ∧
      w.files.Lists (w.process ⟨1⟩).dir Xid.sample.name 0 ∧
      w.files.node? place = some (.file 0) ∧
      (∃ o v found, w.scan ⟨1⟩ [] = (.ok o, v) ∧ (v.process ⟨1⟩).inDoubt = found ∧
        v.locationsUnder Xid.sample.name found = [.sample]) ∧
      (w.step (.scan ⟨1⟩ [])).2.files.node? place = some (.file 0) := by
  intro start w place
  have allowed : Along Legible contested start := legible_contested
  have holds : (w.registry ⟨0⟩).handle? = some 0 := by decide +kernel
  have alone : ¬Tampered 0 contested start := by decide +kernel
  have runs : w.Runs ⟨1⟩ := by decide +kernel
  have lists : w.files.Lists (w.process ⟨1⟩).dir Xid.sample.name 0 :=
    ⟨⟨[Xid.sample.name], by decide +kernel, List.mem_singleton_self _⟩, by decide +kernel⟩
  have there : w.files.node? place = some (.file 0) := by decide +kernel
  obtain ⟨scans, removal⟩ := excluded_iff [] contested allowed holds alone
  refine ⟨allowed, holds, alone, runs, lists, there, ?_, ?_⟩
  · obtain ⟨o, v, found, scanned, -, listed, locations, -⟩ := scans runs lists
    have clear : (w.process ⟨1⟩).inDoubt = [] := by decide +kernel
    have free : Xid.sample.name ∉ (w.process ⟨1⟩).openIds := by decide +kernel
    have made : recordings ⟨0⟩ contested start = [.sample] := by decide +kernel
    refine ⟨o, v, found, scanned, ?_, ?_⟩
    · exact listed.trans (by rw [clear, List.nil_append])
    · rw [locations, if_neg free, made, Record.map_reread (by decide +kernel)]
  · have internal : Internal (.scan ⟨1⟩ []) := rfl
    have removes := @removal (.scan ⟨1⟩ []) place internal there
    subst w start
    by_contra gone
    obtain ⟨r, ends, -⟩ := removes.mp gone
    cases ends.1

end InDoubt.World

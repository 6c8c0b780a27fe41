import InDoubt.Proofs.FileSystem.Reachable

/-!
Making directories with all that is missing above them. What has been made is where its path leads,
and making it a second time changes nothing, whether or not the first time succeeded
(`makeDirectories_fixed`). A failure leaves the directory missing that it stopped at, and with it
all that is below on the path, so the second time stops no later than there.
-/

namespace InDoubt.FileSystem

variable {fs tree made : FileSystem} {last : AtLast} {links : Nat} {here place : Place}
  {path front back : List Bytes}

/-! Paths to directories, and parts of them. -/

/-- Some of the dots on a path are left out. -/
inductive DropsDots : List Bytes → List Bytes → Prop
  | nil : DropsDots [] []
  | keep {name path short} (next : DropsDots path short) : DropsDots (name :: path) (name :: short)
  | drop {path short} (next : DropsDots path short) : DropsDots (dot :: path) short

namespace DropsDots

variable {short : List Bytes}

theorem append (front : List Bytes) (h : DropsDots path short) :
    DropsDots (front ++ path) (front ++ short) := by
  induction front with
  | nil => exact h
  | cons name front ih => exact .keep ih

theorem refl (path : List Bytes) : DropsDots path path := by
  induction path with
  | nil => exact .nil
  | cons name path ih => exact .keep ih

theorem filter (path : List Bytes) : DropsDots path (path.filter (· ≠ dot)) := by
  induction path with
  | nil => exact .nil
  | cons name path ih =>
      by_cases void : name = dot
      · rw [void]
        exact .drop ih
      · rw [List.filter_cons_of_pos (by simpa using void)]
        exact .keep ih

theorem split (h : DropsDots path (front ++ back)) (nonempty : back ≠ []) :
    ∃ front' back', path = front' ++ back' ∧ DropsDots front' front ∧ back' ≠ [] := by
  generalize e : front ++ back = short at h
  induction h generalizing front with
  | nil => exact absurd (List.append_eq_nil_iff.mp e).2 nonempty
  | @keep name path short next ih =>
      cases front with
      | nil => exact ⟨[], name :: path, rfl, .nil, by simp⟩
      | cons =>
          cases e
          obtain ⟨front', back', rfl, drops, nonempty'⟩ := ih rfl
          exact ⟨name :: front', back', rfl, .keep drops, nonempty'⟩
  | drop _ ih =>
      obtain ⟨front', back', rfl, drops, nonempty'⟩ := ih e
      exact ⟨dot :: front', back', rfl, .drop drops, nonempty'⟩

end DropsDots

namespace Leads

/-- On the way to a directory the dots do not matter. -/
theorem undot (h : Leads fs .follow links here path place)
    (dir : fs.node? place = some .directory) {short : List Bytes} (drops : DropsDots path short) :
    Leads fs .follow links here short place := by
  induction h generalizing short with
  | done =>
      cases drops
      exact .done
  | stay void _ ih =>
      cases drops with
      | keep drops => exact .stay void (ih dir drops)
      | drop drops => exact ih dir drops
  | up _ ih =>
      cases drops with
      | keep drops => exact .up (ih dir drops)
  | enter proper _ fits found _ ih =>
      cases drops with
      | keep drops => exact .enter proper (by simp) fits found (ih dir drops)
      | drop => exact absurd rfl proper.2.1
  | stop _ _ found => exact absurd rfl (found _ dir).1
  | pass proper _ fits found _ _ ih =>
      cases drops with
      | keep drops => exact .pass proper (by simp) fits found (by simp) (ih dir (drops.append _))
      | drop => exact absurd rfl proper.2.1

/-- Before its end a walk is at a directory. -/
theorem split (h : Leads fs last links here (front ++ back) place) (nonempty : back ≠ [])
    (sound : fs.Sound) (dir : fs.node? here = some .directory) :
    ∃ between, Leads fs .follow links here front between ∧
      fs.node? between = some .directory := by
  generalize e : front ++ back = path at h
  induction h generalizing front with
  | done => exact absurd (List.append_eq_nil_iff.mp e).2 nonempty
  | stay void _ ih =>
      cases front with
      | nil => exact ⟨_, .done, dir⟩
      | cons first front =>
          cases e
          obtain ⟨between, leads, directory⟩ := ih dir rfl
          exact ⟨between, .stay void leads, directory⟩
  | up _ ih =>
      cases front with
      | nil => exact ⟨_, .done, dir⟩
      | cons first front =>
          cases e
          obtain ⟨between, leads, directory⟩ := ih (sound.tail dir) rfl
          exact ⟨between, .up leads, directory⟩
  | enter proper _ fits found _ ih =>
      cases front with
      | nil => exact ⟨_, .done, dir⟩
      | cons first front =>
          cases e
          obtain ⟨between, leads, directory⟩ := ih found rfl
          exact ⟨between, .enter proper (by simp) fits found leads, directory⟩
  | stop =>
      cases front with
      | nil => exact ⟨_, .done, dir⟩
      | cons first front =>
          obtain ⟨-, e⟩ := List.cons.inj e
          exact absurd (List.append_eq_nil_iff.mp e).2 nonempty
  | pass proper _ fits found _ _ ih =>
      cases front with
      | nil => exact ⟨_, .done, dir⟩
      | cons first front =>
          cases e
          obtain ⟨between, leads, directory⟩ := ih (directory_startOf dir) (List.append_assoc ..)
          exact ⟨between, .pass proper (by simp) fits found (by simp) leads, directory⟩

/-- Where a path leads to a directory something stands, even if a link at the end is kept. -/
theorem keep (h : Leads fs .follow links here path place)
    (dir : fs.node? place = some .directory) :
    ∃ placed node, Leads fs .keep links here path placed ∧ fs.node? placed = some node := by
  induction h with
  | done => exact ⟨_, _, .done, dir⟩
  | stay void _ ih =>
      obtain ⟨placed, node, leads, there⟩ := ih dir
      exact ⟨placed, node, .stay void leads, there⟩
  | up _ ih =>
      obtain ⟨placed, node, leads, there⟩ := ih dir
      exact ⟨placed, node, .up leads, there⟩
  | enter proper _ fits found _ ih =>
      obtain ⟨placed, node, leads, there⟩ := ih dir
      exact ⟨placed, node, .enter proper (by simp) fits found leads, there⟩
  | stop _ _ found => exact absurd rfl (found _ dir).1
  | @pass links here name rest place target proper _ fits found _ _ ih =>
      by_cases final : rest = []
      · rw [final]
        exact ⟨_, _, .stop proper fits (by simp [found]), found⟩
      · obtain ⟨placed, node, leads, there⟩ := ih dir
        exact ⟨placed, node, .pass proper (by simp) fits found (by simp [final]) leads, there⟩

end Leads

/-- What is above the end of a walk is a directory. -/
theorem Leads.isDirectory_front (h : Leads fs last maxLinks [] path place) (sound : fs.Sound)
    (drops : DropsDots path (front ++ back)) (nonempty : back ≠ []) :
    fs.isDirectory front = true := by
  obtain ⟨front', back', rfl, drops', nonempty'⟩ := drops.split nonempty
  obtain ⟨between, leads, directory⟩ := h.split nonempty' sound rfl
  exact isDirectory_iff.mpr ⟨between, leads.undot directory drops', directory⟩

/-! Making a directory that may be there. -/

theorem settleDirectory_of_failed {f : SystemError} (h : fs.makeDirectory path = .error f) :
    (fs.settleDirectory path).2 = fs := by
  unfold settleDirectory
  rw [h]
  simp only
  split <;> rfl

theorem isDirectory_of_settleDirectory (h : fs.settleDirectory path = (.ok (), tree)) :
    tree.isDirectory path = true := by
  unfold settleDirectory at h
  split at h
  · rename_i made
    cases h
    obtain ⟨place, leads, free, rfl⟩ := makeDirectory_eq_ok_iff.mp made
    have inside : place ≠ [] := ne_root_of_node? free (by simp)
    have there : (fs.put place .directory).node? place = some .directory := by
      rw [node?_put, if_neg inside, if_pos rfl]
    have ways : KeepsWays fs (fs.put place .directory) := .put (by simp [free]) (by simp)
    have kept := leads.kept ways
    exact isDirectory_iff.mpr ⟨place, kept.follow (by simp [there]), there⟩
  · split at h
    · rename_i there
      cases h
      exact there
    · cases h

/-- If the directory is not there in the end, nothing has changed. -/
theorem settleDirectory_failed {f : SystemError} (h : fs.settleDirectory path = (.error f, tree)) :
    tree = fs ∧ fs.makeDirectory path = .error f ∧ fs.isDirectory path = false := by
  unfold settleDirectory at h
  split at h
  · cases h
  · rename_i failed
    split at h
    · cases h
    · rename_i missing
      cases h
      exact ⟨rfl, failed, by simpa using missing⟩

theorem settleDirectory_of_isDirectory (h : fs.isDirectory path = true) :
    ∃ f, fs.makeDirectory path = .error f ∧ f ≠ .notFound ∧
      fs.settleDirectory path = (.ok (), fs) := by
  obtain ⟨place, leads, directory⟩ := isDirectory_iff.mp h
  obtain ⟨stands, node, keeps, there⟩ := leads.keep directory
  have failed : fs.makeDirectory path = .error .alreadyExists := by
    simp only [makeDirectory, bind, Except.bind, walk_eq_ok_iff.mpr keeps, there]
  refine ⟨_, failed, by decide, ?_⟩
  unfold settleDirectory
  simp only [failed, h, if_true]

/-! Making what is missing above it. -/

section Below

variable {name : Bytes} {above : List Bytes} {f : SystemError}

theorem makeDirectoriesBelow_eq_settleDirectory (h : fs.makeDirectory path ≠ .error .notFound) :
    makeDirectoriesBelow fs above path = fs.settleDirectory path := by
  unfold makeDirectoriesBelow
  split
  · rfl
  · contradiction
  · rfl

theorem makeDirectoriesBelow_of_made (h : fs.makeDirectory path = .error .notFound)
    (e : makeDirectoriesBelow fs above (name :: above).reverse = (.ok (), made)) :
    makeDirectoriesBelow fs (name :: above) path = made.settleDirectory path := by
  rw [makeDirectoriesBelow, e]
  exact h

theorem makeDirectoriesBelow_of_failed (h : fs.makeDirectory path = .error .notFound)
    (e : makeDirectoriesBelow fs above (name :: above).reverse = (.error f, made)) :
    makeDirectoriesBelow fs (name :: above) path = (.error f, made) := by
  rw [makeDirectoriesBelow, e]
  exact h

theorem makeDirectoriesBelow_of_isDirectory (h : fs.isDirectory path = true) :
    makeDirectoriesBelow fs above path = (.ok (), fs) := by
  obtain ⟨f, failed, other, settled⟩ := settleDirectory_of_isDirectory h
  rw [makeDirectoriesBelow_eq_settleDirectory, settled]
  exact fun e => other (Except.error.inj (failed.symm.trans e))

theorem isDirectory_of_makeDirectoriesBelow
    (e : makeDirectoriesBelow fs above path = (.ok (), tree)) : tree.isDirectory path = true := by
  unfold makeDirectoriesBelow at e
  split at e
  · exact isDirectory_of_settleDirectory e
  · split at e
    · exact isDirectory_of_settleDirectory e
    · cases e
  · exact isDirectory_of_settleDirectory e

/-- Above a path are its names but the last, from the last to the first, some dots left out. -/
def Above (above path : List Bytes) : Prop :=
  above ≠ [] → ∃ name, DropsDots path (above.reverse ++ [name])

theorem Above.reverse_cons (name : Bytes) (above : List Bytes) :
    Above above (name :: above).reverse := by
  intro _
  rw [List.reverse_cons]
  exact ⟨name, .refl _⟩

/-- A failure is one of making the directory itself, with what is above it or without, or one of
making what is above it. -/
theorem makeDirectoriesBelow_failed (e : makeDirectoriesBelow fs above path = (.error f, tree)) :
    fs.settleDirectory path = (.error f, tree) ∨
      ∃ name higher, above = name :: higher ∧
        (makeDirectoriesBelow fs higher above.reverse = (.ok (), tree) ∧
            tree.settleDirectory path = (.error f, tree) ∨
          makeDirectoriesBelow fs higher above.reverse = (.error f, tree)) := by
  unfold makeDirectoriesBelow at e
  split at e
  · exact .inl e
  · rename_i name higher _
    refine .inr ⟨name, higher, rfl, ?_⟩
    split at e
    · rename_i made e'
      obtain ⟨rfl, -, -⟩ := settleDirectory_failed e
      exact .inl ⟨e', e⟩
    · rename_i e'
      cases e
      exact .inr e'
  · exact .inl e

/-- A directory that could not be made with what is above it is not there. -/
theorem not_isDirectory_of_makeDirectoriesBelow (h : Above above path) (sound : tree.Sound)
    (e : makeDirectoriesBelow fs above path = (.error f, tree)) :
    tree.isDirectory path = false := by
  induction above generalizing path with
  | nil =>
      obtain e | ⟨name, higher, ⟨⟩, -⟩ := makeDirectoriesBelow_failed e
      obtain ⟨rfl, -, missing⟩ := settleDirectory_failed e
      exact missing
  | cons name higher ih =>
      obtain e | ⟨_, _, ⟨⟩, ⟨-, e⟩ | e⟩ := makeDirectoriesBelow_failed e
      · obtain ⟨rfl, -, missing⟩ := settleDirectory_failed e
        exact missing
      · exact (settleDirectory_failed e).2.2
      · have missing := ih (.reverse_cons name higher) e
        obtain ⟨last, drops⟩ := h (by simp)
        refine eq_false_of_ne_true fun there => ?_
        obtain ⟨place, leads, -⟩ := isDirectory_iff.mp there
        rw [leads.isDirectory_front sound drops (by simp)] at missing
        cases missing

theorem makeDirectoriesBelow_fixed (h : Above above path) (sound : tree.Sound)
    (e : makeDirectoriesBelow fs above path = (.error f, tree)) :
    (makeDirectoriesBelow tree above path).2 = tree := by
  induction above generalizing path with
  | nil =>
      obtain own | ⟨name, higher, ⟨⟩, -⟩ := makeDirectoriesBelow_failed e
      obtain ⟨rfl, -, -⟩ := settleDirectory_failed own
      exact congrArg Prod.snd e
  | cons name higher ih =>
      obtain own | ⟨_, _, ⟨⟩, ⟨upper, own⟩ | upper⟩ := makeDirectoriesBelow_failed e
      · obtain ⟨rfl, -, -⟩ := settleDirectory_failed own
        exact congrArg Prod.snd e
      · by_cases missing : tree.makeDirectory path = .error .notFound
        · have there := isDirectory_of_makeDirectoriesBelow upper
          rw [makeDirectoriesBelow_of_made missing (makeDirectoriesBelow_of_isDirectory there), own]
        · rw [makeDirectoriesBelow_eq_settleDirectory missing, own]
      · have fixed := ih (.reverse_cons name higher) upper
        cases again : tree.makeDirectory path with
        | ok made =>
            have missing :=
              not_isDirectory_of_makeDirectoriesBelow (.reverse_cons name higher) sound upper
            obtain ⟨place, leads, -⟩ := makeDirectory_eq_ok_iff.mp again
            obtain ⟨last, drops⟩ := h (by simp)
            rw [leads.isDirectory_front sound drops (by simp)] at missing
            cases missing
        | error g =>
            by_cases missing : g = .notFound
            · subst missing
              generalize second : makeDirectoriesBelow tree higher (name :: higher).reverse = o
                at fixed
              obtain ⟨result, same⟩ := o
              obtain rfl : same = tree := fixed
              cases result with
              | ok =>
                  rw [makeDirectoriesBelow_of_made again second, settleDirectory_of_failed again]
              | error => rw [makeDirectoriesBelow_of_failed again second]
            · rw [makeDirectoriesBelow_eq_settleDirectory, settleDirectory_of_failed again]
              exact fun e => missing (Except.error.inj (again.symm.trans e))

end Below

theorem above_names (bytes : Bytes) :
    Above ((names bytes).filter (· ≠ dot)).reverse.tail (names bytes) := by
  intro nonempty
  have inside : (names bytes).filter (· ≠ dot) ≠ [] := by
    intro e
    rw [e] at nonempty
    exact nonempty rfl
  refine ⟨((names bytes).filter (· ≠ dot)).getLast inside, ?_⟩
  rw [List.tail_reverse, List.reverse_reverse, List.dropLast_concat_getLast]
  exact .filter (names bytes)

/-- Making a directory a second time changes nothing. -/
theorem makeDirectories_fixed (sound : fs.Sound) (bytes : Bytes) :
    ((fs.makeDirectories bytes).2.makeDirectories bytes).2 = (fs.makeDirectories bytes).2 := by
  have sound' : (fs.makeDirectories bytes).2.Sound := sound.makeDirectories bytes
  unfold makeDirectories at sound' ⊢
  by_cases nothing : bytes = []
  · simp only [if_pos nothing]
  · simp only [if_neg nothing] at sound' ⊢
    split at sound'
    · rfl
    · generalize e : makeDirectoriesBelow fs ((names bytes).filter (· ≠ dot)).reverse.tail
        (names bytes) = o at sound' ⊢
      obtain ⟨result, tree⟩ := o
      cases result with
      | ok => rw [makeDirectoriesBelow_of_isDirectory (isDirectory_of_makeDirectoriesBelow e)]
      | error f => exact makeDirectoriesBelow_fixed (above_names bytes) sound' e

end InDoubt.FileSystem

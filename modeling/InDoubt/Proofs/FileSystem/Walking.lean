import InDoubt.Proofs.FileSystem.Entries

/-!
Where paths lead. `Leads` says step by step how following names from a directory arrives at a place;
it holds exactly when the walk succeeds (`walk_eq_ok_iff`), so that facts about walks are proved by
rule induction. A path that leads somewhere keeps leading there while directories and links stay and
no links are added, and it can be continued by one more name from a directory.
-/

namespace InDoubt.FileSystem

/-- What names an entry, and no step within or out of a directory. -/
def Proper (name : Bytes) : Prop := name ≠ finalSlash ∧ name ≠ dot ∧ name ≠ dotDot

/-- Following the names leads from a directory to a place, past at most `links` links. -/
inductive Leads (fs : FileSystem) (last : AtLast) : Nat → Place → List Bytes → Place → Prop
  | done {links here} : Leads fs last links here [] here
  | stay {links here name rest place} (void : name = finalSlash ∨ name = dot)
      (next : Leads fs last links here rest place) : Leads fs last links here (name :: rest) place
  | up {links here rest place} (next : Leads fs last links here.tail rest place) :
      Leads fs last links here (dotDot :: rest) place
  | enter {links here name rest place} (proper : Proper name)
      (plain : ¬(last = .followToCreate ∧ rest = [finalSlash])) (fits : name.length ≤ maxName)
      (found : fs.node? (name :: here) = some .directory)
      (next : Leads fs last links (name :: here) rest place) :
      Leads fs last links here (name :: rest) place
  | stop {links here name} (proper : Proper name) (fits : name.length ≤ maxName)
      (found : ∀ node, fs.node? (name :: here) = some node →
        node ≠ .directory ∧ ∀ target, node = .link target → last = .keep) :
      Leads fs last links here [name] (name :: here)
  | pass {links here name rest place target} (proper : Proper name)
      (plain : ¬(last = .followToCreate ∧ rest = [finalSlash])) (fits : name.length ≤ maxName)
      (found : fs.node? (name :: here) = some (.link target))
      (through : ¬(rest = [] ∧ last = .keep))
      (next : Leads fs last links (startOf here target) (namesToDirectory target ++ rest) place) :
      Leads fs last (links + 1) here (name :: rest) place

/-- What takes over at a link, with one link less to pass. -/
def atLink (fs : FileSystem) (last : AtLast) : Nat → Place → List Bytes → Except SystemError Place
  | 0 => fun _ _ => .error .tooManyLinks
  | links + 1 => walk fs last links

variable {fs tree : FileSystem} {last : AtLast} {links : Nat} {here place : Place} {name : Bytes}
  {path rest : List Bytes} {node : Node}

theorem walk_eq_descend : walk fs last links = descend fs (atLink fs last links) last := by
  cases links <;> rfl

theorem descend_proper (proper : Proper name)
    (atl : Place → List Bytes → Except SystemError Place) :
    descend fs atl last here (name :: rest) =
      if last = .followToCreate ∧ rest = [finalSlash] then .error .isDirectory
      else if maxName < name.length then .error .nameTooLong
      else
        match fs.node? (name :: here) with
        | some .directory => descend fs atl last (name :: here) rest
        | some (.file _) => if rest = [] then .ok (name :: here) else .error .notDirectory
        | some (.link target) =>
            if rest = [] ∧ last = .keep then .ok (name :: here)
            else atl (startOf here target) (namesToDirectory target ++ rest)
        | none => if rest = [] then .ok (name :: here) else .error .notFound := by
  have stays : ¬(name = finalSlash ∨ name = dot) := not_or.mpr ⟨proper.1, proper.2.1⟩
  exact (if_neg stays).trans (if_neg proper.2.2)

theorem leads_of_descend {atl : Place → List Bytes → Except SystemError Place}
    (sub : ∀ {here path place}, atl here path = .ok place →
      ∃ fewer, links = fewer + 1 ∧ Leads fs last fewer here path place)
    (h : descend fs atl last here path = .ok place) : Leads fs last links here path place := by
  induction path generalizing here with
  | nil =>
      cases h
      exact .done
  | cons name rest ih =>
      by_cases void : name = finalSlash ∨ name = dot
      · rw [descend, if_pos void] at h
        exact .stay void (ih h)
      · by_cases above : name = dotDot
        · rw [descend, if_neg void, if_pos above] at h
          exact above ▸ .up (ih h)
        · have proper : Proper name := ⟨fun e => void (.inl e), fun e => void (.inr e), above⟩
          rw [descend_proper proper] at h
          split at h
          · cases h
          · rename_i plain
            split at h
            · cases h
            · rename_i fits
              have fits : name.length ≤ maxName := Nat.le_of_not_lt fits
              split at h
              · rename_i found
                exact .enter proper plain fits found (ih h)
              · rename_i found
                split at h
                · rename_i final
                  cases h
                  exact final ▸ .stop proper fits (by simp [found])
                · cases h
              · rename_i target found
                split at h
                · rename_i final
                  cases h
                  exact final.1 ▸ .stop proper fits (by simp [found, final.2])
                · rename_i through
                  obtain ⟨fewer, rfl, next⟩ := sub h
                  exact .pass proper plain fits found through next
              · rename_i found
                split at h
                · rename_i final
                  cases h
                  exact final ▸ .stop proper fits (by simp [found])
                · cases h

theorem walk_eq_ok_iff : walk fs last links here path = .ok place ↔
    Leads fs last links here path place := by
  constructor
  · induction links generalizing here path place with
    | zero => exact leads_of_descend nofun
    | succ fewer ih => exact leads_of_descend fun h => ⟨fewer, rfl, ih h⟩
  · intro h
    induction h with
    | done => rw [walk_eq_descend, descend]
    | stay void _ ih => rwa [walk_eq_descend, descend, if_pos void, ← walk_eq_descend]
    | up _ ih =>
        rwa [walk_eq_descend, descend, if_neg (by decide), if_pos rfl, ← walk_eq_descend]
    | enter proper plain fits found _ ih =>
        rw [walk_eq_descend, descend_proper proper, if_neg plain, if_neg (Nat.not_lt.mpr fits),
          found]
        rwa [walk_eq_descend] at ih
    | @stop links here name proper fits found =>
        rw [walk_eq_descend, descend_proper proper, if_neg (by simp), if_neg (Nat.not_lt.mpr fits)]
        cases stands : fs.node? (name :: here) with
        | none => rfl
        | some node =>
            obtain ⟨other, keeps⟩ := found node stands
            cases node with
            | directory => exact absurd rfl other
            | file inode => rfl
            | link target => simp [keeps target rfl]
    | pass proper plain fits found through _ ih =>
        rw [walk_eq_descend, descend_proper proper, if_neg plain, if_neg (Nat.not_lt.mpr fits),
          found]
        simp only [through, if_false]
        exact ih

/-! Walks in a tree that has changed. -/

/-- The directories and the links of a tree are there in another one, which has no other links. -/
structure KeepsWays (fs tree : FileSystem) : Prop where
  directory : ∀ {place}, fs.node? place = some .directory → tree.node? place = some .directory
  link : ∀ {place target}, fs.node? place = some (.link target) ↔
    tree.node? place = some (.link target)

namespace KeepsWays

variable {other : FileSystem}

theorem of_node? (h : ∀ place, tree.node? place = fs.node? place) : KeepsWays fs tree :=
  ⟨fun e => (h _).trans e, by simp [h]⟩

theorem refl (fs : FileSystem) : KeepsWays fs fs := of_node? fun _ => rfl

theorem trans (h : KeepsWays fs tree) (k : KeepsWays tree other) : KeepsWays fs other :=
  ⟨fun e => k.directory (h.directory e), h.link.trans k.link⟩

/-- Where nothing or a file stood there may be anything but a link. -/
theorem put (free : ∀ node, fs.node? place = some node → ∃ inode, node = .file inode)
    (plain : ∀ target, node ≠ .link target) : KeepsWays fs (fs.put place node) := by
  refine ⟨fun {other} e => ?_, fun {other target} => ?_⟩
  · rw [node?_put]
    split
    · rfl
    · split
      · subst other
        obtain ⟨inode, h⟩ := free _ e
        cases h
      · exact e
  · rw [node?_put]
    split
    · subst other
      simp
    · split
      · subst other
        refine iff_of_false (fun e => ?_) (by simpa using plain target)
        obtain ⟨inode, h⟩ := free _ e
        cases h
      · rfl

theorem remove {inode : Nat} (file : fs.node? place = some (.file inode)) :
    KeepsWays fs (fs.remove place) := by
  refine ⟨fun {other} e => ?_, fun {other target} => ?_⟩
  · rw [node?_remove, if_neg, e]
    rintro ⟨rfl, -⟩
    rw [file] at e
    cases e
  · rw [node?_remove]
    split
    · rename_i h
      rw [h.1, file]
      simp
    · rfl

end KeepsWays

namespace Leads

theorem kept (h : Leads fs last links here path place) (ways : KeepsWays fs tree) :
    Leads tree last links here path place := by
  induction h with
  | done => exact .done
  | stay void _ ih => exact .stay void ih
  | up _ ih => exact .up ih
  | enter proper plain fits found _ ih => exact .enter proper plain fits (ways.directory found) ih
  | @stop links here name proper fits found =>
      by_cases made : tree.node? (name :: here) = some .directory
      · exact .enter proper (by simp) fits made .done
      · refine .stop proper fits fun node stands => ⟨fun e => made (e ▸ stands), fun target e => ?_⟩
        exact (found _ (ways.link.mpr (e ▸ stands))).2 target rfl
  | pass proper plain fits found through _ ih =>
      exact .pass proper plain fits (ways.link.mp found) through ih

/-- A walk that would keep a link at its end and finds none there may follow one. -/
theorem follow (h : Leads fs .keep links here path place)
    (plain : ∀ target, fs.node? place ≠ some (.link target)) :
    Leads fs .follow links here path place := by
  induction h with
  | done => exact .done
  | stay void _ ih => exact .stay void (ih plain)
  | up _ ih => exact .up (ih plain)
  | enter proper _ fits found _ ih => exact .enter proper (by simp) fits found (ih plain)
  | stop proper fits found =>
      refine .stop proper fits fun node stands => ⟨(found node stands).1, fun target e => ?_⟩
      exact absurd (e ▸ stands) (plain target)
  | pass proper _ fits found _ _ ih => exact .pass proper (by simp) fits found (by simp) (ih plain)

/-- From the directory that a path leads to, a walk goes on. -/
theorem append {more : List Bytes} {target : Place} (h : Leads fs .follow links here path place)
    (dir : fs.node? place = some .directory) (creating : last ≠ .followToCreate)
    (nonempty : more ≠ []) (next : ∀ links, Leads fs last links place more target) :
    Leads fs last links here (path ++ more) target := by
  induction h with
  | done => exact next _
  | stay void _ ih => exact .stay void (ih dir next)
  | up _ ih => exact .up (ih dir next)
  | enter proper _ fits found _ ih =>
      exact .enter proper (by simp [creating]) fits found (ih dir next)
  | stop _ _ found => exact absurd rfl (found _ dir).1
  | pass proper _ fits found _ _ ih =>
      refine .pass proper (by simp [creating]) fits found (by simp [nonempty]) ?_
      have further := ih dir next
      rwa [List.append_assoc] at further

theorem to_name (proper : Proper name) (fits : name.length ≤ maxName)
    (plain : ∀ target, fs.node? (name :: here) = some (.link target) → last = .keep) :
    Leads fs last links here [name] (name :: here) := by
  by_cases inner : fs.node? (name :: here) = some .directory
  · exact .enter proper (by simp) fits inner .done
  · exact .stop proper fits fun node stands =>
      ⟨fun e => inner (e ▸ stands), fun target e => plain target (e ▸ stands)⟩

/-- A final slash changes nothing about where a path leads, if that is a directory. -/
theorem slash_iff (dir : fs.node? place = some .directory) :
    Leads fs .follow links here (path ++ [finalSlash]) place ↔
      Leads fs .follow links here path place := by
  constructor
  · intro h
    generalize e : path ++ [finalSlash] = full at h
    induction h generalizing path with
    | done => simp at e
    | @stay links here name rest place void next ih =>
        cases path with
        | nil =>
            obtain ⟨rfl, rfl⟩ : finalSlash = name ∧ [] = rest := by simpa using e
            exact next
        | cons first path =>
            obtain ⟨rfl, rfl⟩ : first = name ∧ path ++ [finalSlash] = rest := by simpa using e
            exact .stay void (ih dir rfl)
    | @up links here rest place next ih =>
        cases path with
        | nil => simp [finalSlash, dotDot] at e
        | cons first path =>
            obtain ⟨rfl, rfl⟩ : first = dotDot ∧ path ++ [finalSlash] = rest := by simpa using e
            exact .up (ih dir rfl)
    | @enter links here name rest place proper plain fits found next ih =>
        cases path with
        | nil => exact absurd (by simpa using e : finalSlash = name ∧ _).1.symm proper.1
        | cons first path =>
            obtain ⟨rfl, rfl⟩ : first = name ∧ path ++ [finalSlash] = rest := by simpa using e
            exact .enter proper (by simp) fits found (ih dir rfl)
    | @stop links here name proper fits found => exact absurd rfl (found _ dir).1
    | @pass links here name rest place target proper plain fits found through next ih =>
        cases path with
        | nil => exact absurd (by simpa using e : finalSlash = name ∧ _).1.symm proper.1
        | cons first path =>
            obtain ⟨rfl, rfl⟩ : first = name ∧ path ++ [finalSlash] = rest := by simpa using e
            refine .pass proper (by simp) fits found (by simp) (ih dir ?_)
            rw [List.append_assoc]
  · exact fun h => h.append dir (by simp) (by simp) fun _ => .stay (.inl rfl) .done

/-- The last name of a path that leads somewhere is not too long, and a walk that keeps a link at
its end arrives at that name. -/
theorem at_last (h : Leads fs last links here path place) (proper : Proper name)
    (ends : path.getLast? = some name) :
    name.length ≤ maxName ∧ (last = .keep → ∃ dir, place = name :: dir) := by
  induction h with
  | done => simp at ends
  | @stay links here name' rest place void next ih =>
      cases rest with
      | nil =>
          obtain rfl : name' = name := by simpa using ends
          cases void with
          | inl e => exact absurd e proper.1
          | inr e => exact absurd e proper.2.1
      | cons => exact ih (by simpa using ends)
  | @up links here rest place next ih =>
      cases rest with
      | nil => exact absurd (by simpa using ends.symm) proper.2.2
      | cons => exact ih (by simpa using ends)
  | @enter links here name' rest place _ _ fits _ next ih =>
      cases rest with
      | nil =>
          obtain rfl : name' = name := by simpa using ends
          cases next
          exact ⟨fits, fun _ => ⟨_, rfl⟩⟩
      | cons => exact ih (by simpa using ends)
  | stop _ fits _ =>
      obtain rfl := by simpa using ends
      exact ⟨fits, fun _ => ⟨_, rfl⟩⟩
  | @pass links here name' rest place target _ _ fits _ through next ih =>
      cases rest with
      | nil =>
          obtain rfl : name' = name := by simpa using ends
          exact ⟨fits, fun keeps => absurd ⟨rfl, keeps⟩ through⟩
      | cons => exact ih (by rw [List.getLast?_append]; simpa using ends)

end Leads

end InDoubt.FileSystem

import InDoubt.Proofs.Exclusion

/-!
Where the files of registries are while only the processes change the files. No directory goes away
then and no link comes or goes, since what a registry deletes is never a link. The path of a
registry therefore leads to one entry for good, which is its file as long as that has not been
deleted, and the directory lists it under its identifier.
-/

namespace InDoubt

namespace FileSystem

variable {fs : FileSystem} {place : Place} {inode : Nat} {path : Bytes} {dir id : String}

/-- A file at the end of the path of a name in a directory is listed there. -/
theorem HomeAt.lists (h : HomeAt fs (Utf8.encode (joinPath dir id)) place inode) (sound : fs.Sound)
    (held : Holdable id) (named : Utf8.encode dir ≠ []) : fs.Lists dir id inode := by
  obtain ⟨checked, leads⟩ := locateEntry_eq_ok_iff.mp h.located
  rw [names_joinPath dir held.2 held.1.1] at leads
  obtain ⟨top, leads', directory⟩ := leads.split (by simp) sound rfl
  have opens : fs.Opens dir top := ⟨leads', directory⟩
  obtain ⟨-, -, rfl⟩ := (opens.locateEntry_iff held).mp h.located
  obtain ⟨ids, listed, ids_iff⟩ := opens.registryFiles sound (checkPath_of_joinPath named checked)
  exact ⟨⟨ids, listed, (ids_iff id).mpr ⟨inode, h.file⟩⟩, h.inodeAt⟩

/-- What a path leads to is at the entry that the path names, unless that is a link. -/
theorem homeAt_of_inodeAt (plain : endsInSlash path = false)
    (located : fs.locateEntry path = .ok place)
    (unlinked : ∀ target, fs.node? place ≠ some (.link target))
    (reached : fs.inodeAt path = .ok inode) : HomeAt fs path place inode := by
  obtain ⟨-, leads⟩ := locateEntry_eq_ok_iff.mp located
  obtain ⟨other, found, stands⟩ := inodeAt_eq_ok_iff.mp reached
  obtain ⟨-, leads'⟩ := locate_eq_ok_iff.mp found
  rw [namesToDirectory_of_not plain] at leads'
  obtain rfl := (leads.follow unlinked).unique leads'
  exact ⟨plain, located, stands⟩

end FileSystem

namespace World

open FileSystem

variable {v w : World} {p : ProcessRef} {r : RegistryRef} {b : BranchRef} {s : Step}
  {inode : Nat}

/-- The path of a registry names an entry that is no link. -/
def Placed (w : World) (r : RegistryRef) : Prop :=
  ∃ place, w.files.locateEntry (Utf8.encode (w.registry r).path) = .ok place ∧
    ∀ target, w.files.node? place ≠ some (.link target)

theorem Backed.placed {place : Place} (h : Backed w r place inode) : Placed w r :=
  ⟨place, h.home.located, by simp [h.home.file]⟩

/-- The tree is sound and all registries are placed in it. -/
structure Situated (w : World) : Prop where
  sound : w.files.Sound
  placed : ∀ {r}, r.index < w.registries.length → Placed w r

namespace Situated

/-- Directories and links stay as they are, and what is entered is placed. -/
theorem keep (h : Situated w) (extended : Extends w v) (ways : KeepsWays w.files v.files)
    (sound : v.files.Sound) (new : ∀ {r}, w.registries.length ≤ r.index →
      r.index < v.registries.length → Placed v r) : Situated v where
  sound := sound
  placed {r} lt := by
    by_cases old : r.index < w.registries.length
    · obtain ⟨place, located, unlinked⟩ := h.placed old
      refine ⟨place, ?_, fun target link => unlinked target (ways.link.mpr link)⟩
      rw [extended.path old]
      exact locateEntry_kept ways located
    · exact new (Nat.le_of_not_lt old) lt

/-- No registry is entered. -/
theorem same (h : Situated w) (extended : Extends w v)
    (number : v.registries.length = w.registries.length) (ways : KeepsWays w.files v.files)
    (sound : v.files.Sound) : Situated v := by
  refine h.keep extended ways sound fun ge lt => ?_
  rw [number] at lt
  exact absurd lt (Nat.not_lt.mpr ge)

theorem createIn (h : Situated w) (p : ProcessRef) (dir : String) (xid : Xid) :
    Situated (w.createIn p dir xid).2 := by
  refine h.keep (extends_createIn ..) (alters_createIn ..).ways (sound_createIn h.sound ..)
    fun ge lt => ?_
  obtain ⟨_, new⟩ := registry_createIn_new ge lt
  obtain ⟨_, _, backed⟩ := Backing.backed_createIn ⟨ge, lt, congrArg Registry.owner new⟩
  exact backed.placed

theorem scan (h : Situated w) (running : p.index < w.processes.length) :
    Situated (w.scan p []).2 := by
  have scanned := scanned_scan h.sound running
  refine h.keep scanned.extended scanned.alters.ways scanned.sound fun ge lt => ?_
  obtain ⟨_, _, new⟩ := registry_scan_new p [] ge lt
  obtain ⟨-, _, _, backed⟩ := scanned.entered ⟨ge, lt, congrArg Registry.owner new⟩
  exact backed.placed

theorem hostSweep (h : Situated w) (running : ∀ p ∈ w.callbacks, w.Runs p) :
    Situated w.hostSweep.2 := by
  refine (sweepEach_induction
    (I := fun v => w.processes.length ≤ v.processes.length ∧ Situated v) ?_
    ⟨Nat.le_refl _, h⟩).2
  rintro v p mem ⟨more, k⟩
  exact ⟨Nat.le_trans more (extends_scan v p []).processes,
    k.scan (Nat.lt_of_lt_of_le (running p mem).1 more)⟩

/-- The file that the last release of a registry removes is none that other paths lead through. -/
theorem releaseFrom (h : Situated w) (r : RegistryRef) (b : BranchRef) :
    Situated (w.releaseFrom r b).2 := by
  have closed : (w.files.unlock (w.registry r).handle?.toList).Sound := h.sound.congr rfl rfl
  have ways : KeepsWays w.files (w.files.unlock (w.registry r).handle?.toList) :=
    .of_node? fun _ => rfl
  have both : KeepsWays w.files (w.releaseFrom r b).2.files ∧
      (w.releaseFrom r b).2.files.Sound := by
    by_cases one : (w.registry r).count = 1
    · rw [releaseFrom_of_eq one]
      split
      · rename_i e
        obtain ⟨place, node, located, stands, other, -, rfl⟩ := unlink_eq_ok_iff.mp e
        have lt : r.index < w.registries.length := lt_of_count_ne_zero (by omega)
        obtain ⟨place', located', unlinked⟩ := h.placed lt
        obtain rfl : place = place' :=
          Except.ok.inj (located.symm.trans (locateEntry_kept ways located'))
        obtain ⟨i, rfl⟩ : ∃ i, node = .file i := by
          cases node with
          | directory => exact absurd rfl other
          | file i => exact ⟨i, rfl⟩
          | link target => exact absurd stands (unlinked target)
        exact ⟨ways.trans (.remove stands), closed.unlink e⟩
      · exact ⟨ways, closed⟩
      · exact ⟨ways, closed⟩
    · rw [releaseFrom_of_ne one]
      exact ⟨.refl _, h.sound⟩
  exact h.same (extends_releaseFrom ..) length_registries_releaseFrom both.1 both.2

theorem step (h : Situated w) (admitted : w.Admits s) (internal : Internal s) :
    Situated (w.step s).2 := by
  have keeps (number : (w.step s).2.registries.length = w.registries.length)
      (ways : KeepsWays w.files (w.step s).2.files) (sound : (w.step s).2.files.Sound) :
      Situated (w.step s).2 := h.same (extends_step w s) number ways sound
  have clerical (quiet : isClerical s = true) : Situated (w.step s).2 := by
    have files := files_step (w := w) quiet
    refine keeps (congrArg List.length (registries_step quiet)) ?_ ?_ <;> rw [files]
    · exact .refl _
    · exact h.sound
  cases s with
  | outside change => exact internal.elim
  | create p xid | createIn p dir xid => exact h.createIn p _ xid
  | scan p during | sweep p during =>
      cases internal
      exact h.scan admitted.1
  | hostSweep => exact h.hostSweep admitted
  | release b => exact h.releaseFrom _ b
  | releaseFrom r b => exact h.releaseFrom r b
  | record r l =>
      exact keeps (length_registries_step rfl) (alters_record l).ways (sound_record h.sound l)
  | enlist r l node =>
      refine keeps (length_registries_step rfl) ?_ ?_ <;> rw [files_step_enlist]
      · exact (alters_record l).ways
      · exact sound_record h.sound l
  | crash p =>
      exact keeps (length_registries_step rfl) (.of_node? fun _ => rfl) (h.sound.congr rfl rfl)
  | openLog config node | relocate p base | bind r l node | mark b | doubtVia r b | register p
  | unregister p | claim p id | unclaim p id | doubt p bs | settle p b => exact clerical rfl

end Situated

/-- The file that the path of a registry leads to is at the end of that path. -/
theorem Situated.homeAt (h : Situated w) (orderly : Orderly w) (lt : r.index < w.registries.length)
    (stands : w.files.inodeAt (Utf8.encode (w.registry r).path) = .ok inode) :
    ∃ place, HomeAt w.files (Utf8.encode (w.registry r).path) place inode := by
  obtain ⟨dir, path, held⟩ := orderly.registered lt
  obtain ⟨place, located, unlinked⟩ := h.placed lt
  have plain : endsInSlash (Utf8.encode (w.registry r).path) = false :=
    path ▸ endsInSlash_joinPath dir held.2 held.1.1
  exact ⟨place, homeAt_of_inodeAt plain located unlinked stands⟩

end World

end InDoubt

import InDoubt.Proofs.Containment
import InDoubt.Proofs.Creation

/-!
For which transactions a registry can be created. The name of its file has two digits for each byte
of the transaction and ten more, and the file system admits 255 bytes, so that the parts of the
transaction may have 122 bytes together, less than the two limits on them admit. Where the directory
can be made and nothing stands at the path, that and the length of the path decide
(`createIn_of_ready`). A registry that has been created is found again after a crash, as soon as a
branch has been enlisted (`registrable_exact`).
-/

namespace InDoubt

namespace FileSystem

variable {fs tree : FileSystem} {dir : String}

/-- A directory that has been made opens, also that of the empty path, and its path holds no NUL. -/
theorem opens_of_makeDirectories (e : fs.makeDirectories (Utf8.encode dir) = (.ok (), tree)) :
    0 ∉ Utf8.encode dir ∧ ∃ top, tree.Opens dir top := by
  by_cases void : Utf8.encode dir = []
  · refine ⟨by simp [void], [], ?_, rfl⟩
    rw [void]
    exact .done
  · obtain ⟨checked, opens⟩ := Opens.of_makeDirectories void e
    exact ⟨(checkPath_eq_ok_iff.mp checked).1, opens⟩

end FileSystem

namespace World

open FileSystem

variable {v w : World} {p : ProcessRef} {r : RegistryRef} {dir : String} {xid : Xid} {inode : Nat}

/-- The name of the file of a transaction is too long, or its path is. -/
def TooLong (dir : String) (xid : Xid) : Prop :=
  122 < xid.gtrid.length + xid.bqual.length ∨
    maxPath < (Utf8.encode (joinPath dir xid.name)).length

instance (dir : String) (xid : Xid) : Decidable (TooLong dir xid) :=
  inferInstanceAs (Decidable (_ ∨ _))

/-- What a creation asks for besides: the identifier is free, the directory can be made or is there,
and nothing stands at the path of the file then. -/
structure Ready (p : ProcessRef) (dir : String) (xid : Xid) (w : World) : Prop where
  free : xid.name ∉ (w.process p).openIds
  vacant : ∃ tree, w.files.makeDirectories (Utf8.encode dir) = (.ok (), tree) ∧
    ∀ {place}, tree.locateEntry (Utf8.encode (joinPath dir xid.name)) = .ok place →
      tree.node? place = none

/-- The lengths alone decide where a path is looked up. -/
theorem locateEntry_name {tree : FileSystem} {top : Place} (opens : tree.Opens dir top)
    (plain : 0 ∉ Utf8.encode dir) (xid : Xid) :
    tree.locateEntry (Utf8.encode (joinPath dir xid.name)) =
      if TooLong dir xid then .error .nameTooLong else .ok (Utf8.encode xid.name :: top) := by
  have held := xid.holdable_name
  have long : 122 < xid.gtrid.length + xid.bqual.length ↔
      maxName < (Utf8.encode xid.name).length := by
    have name := xid.length_name
    have most : maxName = 255 := rfl
    omega
  rw [opens.locateEntry_eq held, checkPath_eq (nul_not_mem_joinPath plain xid.nul_not_mem_name)
    (encode_joinPath_ne_nil dir held)]
  by_cases far : maxPath < (Utf8.encode (joinPath dir xid.name)).length
  · have either : TooLong dir xid := .inr far
    rw [if_pos far, if_pos either]
    rfl
  · have decides : TooLong dir xid ↔ maxName < (Utf8.encode xid.name).length :=
      (or_iff_left far).trans long
    simp only [if_neg far, decides]
    rfl

/-- Whether a creation succeeds is then a matter of the lengths. -/
theorem createIn_of_ready (h : Ready p dir xid w) : (w.createIn p dir xid).1 =
    if TooLong dir xid then .error (.createFailed (joinPath dir xid.name) (.system .nameTooLong))
    else .ok ⟨w.registries.length⟩ := by
  obtain ⟨tree, made, vacant⟩ := h.vacant
  obtain ⟨plain, top, opens⟩ := opens_of_makeDirectories made
  have located := locateEntry_name opens plain xid
  by_cases long : TooLong dir xid
  · rw [if_pos long] at located ⊢
    have failed : tree.createNew (Utf8.encode (joinPath dir xid.name)) = .error .nameTooLong := by
      simp only [createNew, located, Bind.bind, Except.bind]
    rw [createIn_of_failed h.free (.inr ⟨made, failed⟩)]
  · rw [if_neg long] at located ⊢
    have entered := createNew_eq_ok_iff.mpr ⟨_, located, vacant located, rfl, rfl⟩
    rw [createIn_of_made h.free made entered]

/-- A branch is enlisted in a created registry, and its record is all that the file holds. -/
theorem Creates.enlist (h : Creates p dir xid w r inode v) (l : Locator) (node : String) :
    ∃ b u place, v.enlist r l node = (.ok b, u) ∧
      HomeAt u.files (Utf8.encode (joinPath dir xid.name)) place inode ∧
      u.files.content inode = recordBytes [l] := by
  obtain ⟨tree, place, -, -, -, home⟩ := h.filed
  have handle : (v.registry r).handle? = some inode := h.alone.mpr rfl
  have lt : inode < v.files.contents.length := by
    rw [h.contents, h.fresh, List.length_append]
    exact Nat.lt_succ_self _
  have empty : v.files.content inode = [] := by
    simp [content, h.contents, h.fresh]
  have recorded : (v.record r l).1 = .ok () := record_eq_ok_iff.mpr (.inr (by simp [handle]))
  have files : (v.enlist r l node).2.files =
      v.files.appendTo inode (Utf8.encode (Record.encode l)) := by
    simp only [files_enlist, files_record, handle]
  obtain ⟨_, failed, -⟩ | ⟨-, e⟩ := enlist_cases v r l node
  · rw [recorded] at failed
    cases failed
  · refine ⟨_, _, place, e, ?_⟩
    rw [e] at files
    rw [files]
    refine ⟨home.congr rfl, ?_⟩
    rw [content_appendTo_self lt, empty, recordBytes_singleton]
    rfl

theorem Creates.entered (h : Creates p dir xid w r inode v) : r.index < v.registries.length ∧
    v.registry r = ⟨p, xid.name, joinPath dir xid.name, .created (some inode), 0⟩ := by
  constructor
  · rw [h.ref, h.registries, List.length_append]
    exact Nat.lt_succ_self _
  · rw [h.ref]
    exact registry_append_new h.registries

/-- A new log on the directory finds the transaction as long as the file stands with its records. -/
theorem Creates.recovers {u : World} {place : Place} {ls : List Locator} {config : Config}
    (h : Creates p dir xid w r inode v) (extended : Extends v u) (orderly : Orderly u)
    (home : HomeAt u.files (Utf8.encode (joinPath dir xid.name)) place inode)
    (content : u.files.content inode = recordBytes ls) (parsed : ∀ l ∈ ls, l.Parsed)
    (nonempty : ls ≠ []) (same : config.dir = dir) (node : String) :
    let (q, opened) := u.openLog config node
    ∃ o x, opened.scan q [] = (.ok o, x) ∧ ∃ r' ∈ o.recovered,
      x.registry r' = recoveredRegistry q dir xid.name (ls.map Locator.reread) ∧
        (x.registry r').xid? = some xid ∧
        (x.inDoubtOf q r').map x.branch = (ls.map Locator.reread).map (Branch.mk · node r') := by
  obtain ⟨there, entered⟩ := h.entered
  have id : (u.registry r).id = xid.name := by
    rw [extended.id there, entered]
  have path : (u.registry r).path = joinPath dir xid.name := by
    rw [extended.path there, entered]
  have located : (u.registry r).path = joinPath config.dir (u.registry r).id := by
    rw [path, id, same]
  have read : u.files.readRecords (joinPath dir xid.name) = .ok (ls.map Locator.reread) :=
    readRecords_of_content home.inodeAt content parsed
  have found := recovers_openLog orderly (Nat.lt_of_lt_of_le there extended.registries) located
    (path ▸ home) (path ▸ read) (by simpa using nonempty) node
  rw [id, same] at found
  obtain ⟨o, x, scanned, r', mem, recovered, branches⟩ := found
  refine ⟨o, x, scanned, r', mem, recovered, ?_, branches⟩
  rw [recovered]
  exact congrArg Except.toOption xid.parse_name

/-- At every point of a run of any number of processes, whatever is done to the files: a process
that is ready for it gets the registry of a transaction exactly if the parts of the transaction have
122 bytes together at most and the path is not too long. A branch can be enlisted in it then, and
after a crash of the process a new log on the directory recovers the registry of that transaction,
with a branch in doubt where the text of its location says. -/
theorem registrable_exact (changes : List FileStep) (steps : List Step)
    (runs : (after steps (ofFiles (FileSystem.empty.applyAll changes))).Runs p)
    (ready : let w := after steps (ofFiles (FileSystem.empty.applyAll changes))
      Ready p (w.process p).dir xid w) :
    let w := after steps (ofFiles (FileSystem.empty.applyAll changes))
    let dir := (w.process p).dir
    (w.create p xid).1 = (if TooLong dir xid then
        .error (.createFailed (joinPath dir xid.name) (.system .nameTooLong))
      else .ok ⟨w.registries.length⟩) ∧
    ∀ r v, w.create p xid = (.ok r, v) → ∀ l node, l.Parsed →
      ∃ b u, v.enlist r l node = (.ok b, u) ∧ ∀ (config : Config) node', config.dir = dir →
        let (q, opened) := (u.crash p).openLog config node'
        ∃ o x, opened.scan q [] = (.ok o, x) ∧ ∃ r' ∈ o.recovered,
          x.registry r' = recoveredRegistry q dir xid.name [l.reread] ∧
          (x.registry r').xid? = some xid ∧
          (x.inDoubtOf q r').map x.branch = [⟨l.reread, node', r'⟩] := by
  intro w dir
  refine ⟨createIn_of_ready ready, fun r v created l node parsed => ?_⟩
  have sole : SoleWriters w := (soleWriters_ofFiles changes).after steps
  have outcome : Creation p dir xid w (w.create p xid) := creation sole runs dir xid
  rw [created] at outcome
  obtain ⟨inode, creates⟩ := outcome.creates rfl
  obtain ⟨b, u, place, enlisted, home, content⟩ := creates.enlist l node
  refine ⟨b, u, enlisted, fun config node' same => ?_⟩
  have ended : after [.create p xid, .enlist r l node, .crash p] w = u.crash p := by
    simp only [after_cons, after_nil, step, Prod.map_snd, id_eq, created, enlisted]
  have orderly : Orderly (u.crash p) := by
    have orderly := (Orderly.ofFiles changes).after
      (steps ++ [.create p xid, .enlist r l node, .crash p])
    rwa [after_append, ended] at orderly
  have extended : Extends v (u.crash p) := by
    have extended := extends_enlist v r l node
    rw [enlisted] at extended
    exact extended.trans (extends_crash u p)
  exact creates.recovers extended orderly (home.congr rfl) content
    (List.forall_mem_singleton.mpr parsed) (List.cons_ne_nil l []) same node'

/-- Both parts of this transaction are as long as they may be. A new log without any files is ready
for it, and still refuses it. -/
theorem not_registrable_longest :
    let w := after [.openLog {} "n"] (ofFiles (FileSystem.empty.applyAll []))
    Xid.make 1 (List.replicate 64 0x61) (List.replicate 64 0x62) = .ok .longest ∧
      w.Runs ⟨0⟩ ∧ w.files.entries = [] ∧ Ready ⟨0⟩ (w.process ⟨0⟩).dir .longest w ∧
      (w.create ⟨0⟩ .longest).1 = .error
        (.createFailed (joinPath "./xa-recovery" Xid.longest.name) (.system .nameTooLong)) := by
  intro w
  have ready : Ready ⟨0⟩ (w.process ⟨0⟩).dir .longest w := by
    refine ⟨by decide +kernel, (w.files.makeDirectories (Utf8.encode "./xa-recovery")).2,
      by decide +kernel, fun {place} located => ?_⟩
    have long : (w.files.makeDirectories (Utf8.encode "./xa-recovery")).2.locateEntry
        (Utf8.encode (joinPath (w.process ⟨0⟩).dir Xid.longest.name)) = .error .nameTooLong := by
      decide +kernel
    rw [long] at located
    cases located
  exact ⟨by decide +kernel, by decide +kernel, by decide +kernel, ready, by decide +kernel⟩

/-- With 122 bytes in its parts a transaction has a registry, and is found again. -/
theorem registrable_exact_widest :
    let w := after [.openLog {} "n"] (ofFiles (FileSystem.empty.applyAll []))
    let xid : Xid := ⟨1, List.replicate 64 0x61, List.replicate 58 0x62, by decide, by decide⟩
    w.Runs ⟨0⟩ ∧ Ready ⟨0⟩ (w.process ⟨0⟩).dir xid w ∧ Locator.sample.Parsed ∧
      ∃ v, w.create ⟨0⟩ xid = (.ok ⟨0⟩, v) ∧ ∃ b u, v.enlist ⟨0⟩ .sample "n" = (.ok b, u) ∧
        let (q, opened) := (u.crash ⟨0⟩).openLog {} "m"
        ∃ o x, opened.scan q [] = (.ok o, x) ∧ ∃ r' ∈ o.recovered,
          x.registry r' = recoveredRegistry q "./xa-recovery" xid.name [.sample] ∧
          (x.inDoubtOf q r').map x.branch = [⟨.sample, "m", r'⟩] := by
  intro w xid
  have runs : w.Runs ⟨0⟩ := by decide +kernel
  have faithful : Locator.sample.Faithful := by decide +kernel
  have parsed : Locator.sample.Parsed := faithful.parsed
  have ready : Ready ⟨0⟩ (w.process ⟨0⟩).dir xid w := by
    refine ⟨by decide +kernel, (w.files.makeDirectories (Utf8.encode "./xa-recovery")).2,
      by decide +kernel, fun {place} located => ?_⟩
    have stands : (w.files.makeDirectories (Utf8.encode "./xa-recovery")).2.locateEntry
        (Utf8.encode (joinPath (w.process ⟨0⟩).dir xid.name)) =
          .ok [Utf8.encode xid.name, Utf8.encode "xa-recovery"] := by
      decide +kernel
    obtain rfl := Except.ok.inj (stands.symm.trans located)
    decide +kernel
  obtain ⟨answer, found⟩ := registrable_exact [] [.openLog {} "n"] runs ready
  have created : w.create ⟨0⟩ xid = (.ok ⟨0⟩, (w.create ⟨0⟩ xid).2) := by
    refine Prod.ext (answer.trans ?_) rfl
    decide +kernel
  obtain ⟨b, u, enlisted, crashed⟩ := found _ _ created .sample "n" parsed
  obtain ⟨o, x, scanned, r', mem, recovered, -, branches⟩ := crashed {} "m" (by decide +kernel)
  rw [faithful.reread_eq] at recovered branches
  exact ⟨runs, ready, parsed, _, created, b, u, enlisted, o, x, scanned, r', mem, recovered,
    branches⟩

end World

end InDoubt

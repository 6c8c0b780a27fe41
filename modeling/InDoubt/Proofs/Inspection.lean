import InDoubt.Inspect
import InDoubt.Proofs.Orderly
import InDoubt.Proofs.Sifting

/-!
The inspection of a directory against its recovery. Both subcommands list the directory and read its
files as a scan does, but in loops of their own. Of one file, `verify` says that it has so many
locators, or that it is malformed, and `list` shows the locators, or that there are none, or the
error. What either says is what the first scan of a new log makes of the file (`Tells`), file by
file in the order of the listing (`inspection_exact`).
-/

namespace InDoubt.Inspect

variable {base name dir text : String} {command : Command} {held : Except Failure (List Locator)}
  {n : Nat} {f : Failure}

/-! The arguments. -/

theorem attached_ne {other : String} (apart : ¬longOption <+: other.toList) :
    "--base-dir=" ++ base ≠ other := by
  rintro rfl
  exact apart ⟨base.toList, String.toList_append.symm⟩

theorem attached?_append (base : String) :
    attached? ("--base-dir=" ++ base).toList = some base := by
  have chars : ("--base-dir=" ++ base).toList = longOption ++ base.toList := String.toList_append
  have front : longOption.isPrefixOf (longOption ++ base.toList) = true :=
    List.isPrefixOf_iff_prefix.mpr (List.prefix_append _ _)
  rw [chars, attached?, if_pos front, List.drop_left, String.ofList_toList]

/-- Every base directory that has a name can be asked for. -/
theorem request_attached (named : base ≠ "") (known : Command.ofName? name = some command) :
    request ["--base-dir=" ++ base, name] = .run base command := by
  have option : Command.ofName? ("--base-dir=" ++ base) = none := by
    unfold Command.ofName?
    rw [if_neg (attached_ne (by decide)), if_neg (attached_ne (by decide))]
  have separate : ¬("--base-dir=" ++ base = "-b" ∨ "--base-dir=" ++ base = "--base-dir") :=
    not_or.mpr ⟨attached_ne (by decide), attached_ne (by decide)⟩
  have version : ¬("--base-dir=" ++ base = "--version" ∨
      ("--base-dir=" ++ base).startsWith "-V" = true) := by
    refine not_or.mpr ⟨attached_ne (by decide), ?_⟩
    rw [String.startsWith_string_iff, String.toList_append]
    intro front
    simp [List.cons_prefix_cons] at front
  have filled : base.isEmpty = false := by
    rw [← Bool.not_eq_true, String.isEmpty_iff]
    exact named
  simp only [request, requestFrom, option, if_neg separate, if_neg version, attached?_append,
    filled, known]
  rfl

theorem inspect_attached (named : base ≠ "") (known : Command.ofName? name = some command)
    (fs : FileSystem) : inspect fs ["--base-dir=" ++ base, name] = perform fs base command := by
  simp only [inspect, request_attached named known]

/-! The lines. -/

/-- The line that says that a file has so many locators. -/
def soundLine (name : String) (n : Nat) : String :=
  "ok       " ++ name ++ " (" ++ toString n ++ " locators)"

/-- The line that says why a file has none to give. -/
def faultLine (name text : String) : String := "MALFORMED " ++ name ++ ": " ++ text

/-- What is shown of a file without locators. -/
def blankLines : List String := ["    <empty>"]

theorem soundLine_ne_faultLine (name : String) (n : Nat) (text : String) :
    soundLine name n ≠ faultLine name text := by
  intro same
  have first := congrArg (·.toList.head?) same
  simp [soundLine, faultLine, String.toList_append] at first

theorem toString_injective {m : Nat} (same : toString m = toString n) : m = n := by
  have read (k : Nat) : Locator.digits? 10 (toString k).toList = some k := by
    have digits : (toString k).toList = Nat.toDigits 10 k := String.toList_ofList
    rw [digits]
    exact Locator.digits?_toDigits (by decide) (by decide) k
  have again := read m
  rw [same, read] at again
  exact (Option.some.inj again).symm

theorem soundLine_injective {m : Nat} (same : soundLine name m = soundLine name n) : m = n :=
  toString_injective ((String.append_right_inj _).mp ((String.append_left_inj _).mp same))

theorem verdict_eq_soundLine_iff :
    verdict name held = soundLine name n ↔ ∃ ls, held = .ok ls ∧ ls.length = n := by
  cases held with
  | ok ls =>
      simp only [Except.ok.injEq, exists_eq_left']
      exact ⟨soundLine_injective, fun same => same ▸ rfl⟩
  | error f =>
      refine iff_of_false (Ne.symm (soundLine_ne_faultLine name n (faultText f))) ?_
      simp

theorem verdict_eq_faultLine_iff :
    verdict name held = faultLine name text ↔ ∃ f, held = .error f ∧ faultText f = text := by
  cases held with
  | ok ls =>
      refine iff_of_false (soundLine_ne_faultLine name ls.length text) ?_
      simp
  | error f =>
      simp only [Except.error.injEq, exists_eq_left']
      exact String.append_right_inj _

/-- No locator reads like the line for none. -/
theorem text_ne_empty {l : Locator} (parsed : l.Parsed) : l.text ≠ "<empty>" := by
  intro same
  obtain ⟨c, first, alpha⟩ := parsed.plain.head?_toChars
  have chars : l.toChars = "<empty>".toList := by
    rw [← same, Locator.text, String.toList_ofList]
  rw [chars] at first
  cases first
  revert alpha
  decide

theorem listing_eq_blankLines_iff (parsed : ∀ ls, held = .ok ls → ∀ l ∈ ls, l.Parsed) :
    listing held = blankLines ↔ held = .ok [] := by
  constructor
  · intro same
    cases held with
    | error f =>
        have chars := congrArg String.toList (List.cons.inj same).1
        simp [String.toList_append] at chars
    | ok ls =>
        cases ls with
        | nil => rfl
        | cons l ls =>
            have first : "    " ++ l.text = "    " ++ "<empty>" := (List.cons.inj same).1
            have first := (String.append_right_inj _).mp first
            exact absurd first (text_ne_empty (parsed _ rfl l List.mem_cons_self))
  · rintro rfl
    rfl

/-! One file. -/

/-- What is shown of a file that cannot be read. -/
def errorLines (f : Failure) : List String := ["    error: " ++ faultText f]

/-- What the inspection says of one file is what a scan has made of it. -/
structure Tells (dir name : String) (held : Except Failure (List Locator)) (q : ProcessRef)
    (o : ScanReport) (v : World) : Prop where
  /-- A file that is said to have locators has been recovered with so many. -/
  recovered : ∀ n, 0 < n → (verdict name held = soundLine name n ↔
    ∃ r ∈ o.recovered, (v.registry r).id = name ∧ (v.registry r).count = n)
  /-- They are shown in the order in which the scan has put them in doubt. -/
  shown : ∀ r ∈ o.recovered, (v.registry r).id = name →
    listing held = (v.inDoubtOf q r).map (fun b => "    " ++ (v.branch b).location.text) ∧
      (v.inDoubtOf q r).length = (v.registry r).count
  /-- A file that is said to have none is shown as one without. -/
  blank : verdict name held = soundLine name 0 ↔ listing held = blankLines
  /-- The scan has passed over it. -/
  passed : listing held = blankLines ↔ (∀ r ∈ o.recovered, (v.registry r).id ≠ name) ∧
    ∀ f ∈ o.failures, f.path? ≠ some (joinPath dir name)
  /-- A file that is said to be malformed is shown with an error. -/
  malformed : (∃ text, verdict name held = faultLine name text) ↔
    ∃ f, held = .error f ∧ listing held = errorLines f
  /-- The scan has failed over it. -/
  failed : (∃ f, held = .error f ∧ listing held = errorLines f) ↔
    ∃ f ∈ o.failures, f.path? = some (joinPath dir name)
  /-- Both say why in the words of that failure. -/
  explained : ∀ f ∈ o.failures, f.path? = some (joinPath dir name) →
    verdict name held = faultLine name (faultText f) ∧ listing held = errorLines f

section Files

open World FileSystem

variable {fs : FileSystem} {names : List String} {q : ProcessRef} {top : Place} {w v : World}
  {o : ScanReport}

theorem parsed_of_readRecords {path : String} {ls : List Locator}
    (read : fs.readRecords path = .ok ls) : ∀ l ∈ ls, l.Parsed := by
  obtain ⟨-, content, -, -, parsed⟩ := readRecords_eq_ok_iff.mp read
  exact Record.parsed_of_parse parsed

/-- The only way in which a directory cannot be listed. -/
theorem registryFiles_eq_error (h : fs.registryFiles dir = .error f) :
    ∃ cause, f = .listFailed dir cause := by
  unfold registryFiles at h
  split at h <;> cases h
  exact ⟨_, rfl⟩

/-- The failures are those of the files, and each names its file. -/
theorem mem_failures_iff (sifts : Sifts q fs dir top names w o v) (mem : name ∈ names) :
    f ∈ o.failures ∧ f.path? = some (joinPath dir name) ↔
      fs.readRecords (joinPath dir name) = .error f := by
  rw [sifts.failures, List.mem_filterMap]
  constructor
  · rintro ⟨⟨id, -, fault⟩, path⟩
    have fault := faultAt?_eq_some_iff.mp fault
    have same := (readRecords_eq_error fault).symm.trans path
    obtain rfl := joinPath_injective (Option.some.inj same)
    exact fault
  · intro fault
    exact ⟨⟨name, mem, faultAt?_eq_some_iff.mpr fault⟩, readRecords_eq_error fault⟩

/-- A file has been recovered if there are locators to be read in it. -/
theorem mem_recovered_iff (sifts : Sifts q fs dir top names w o v) (mem : name ∈ names) :
    (∃ r ∈ o.recovered, (v.registry r).id = name ∧ (v.registry r).count = n) ↔
      0 < n ∧ ∃ ls, fs.readRecords (joinPath dir name) = .ok ls ∧ ls.length = n := by
  constructor
  · rintro ⟨r, hr, named, counted⟩
    obtain ⟨id, -, filled, e⟩ := sifts.recovers.mem_iff.mp ⟨r, hr, rfl⟩
    rw [e] at named counted
    obtain rfl : id = name := named
    have counted : (fs.recordsAt dir id).length = n := counted
    exact ⟨counted ▸ List.length_pos_of_ne_nil filled, _, (recordsAt_eq_iff filled).mp rfl, counted⟩
  · rintro ⟨positive, ls, read, rfl⟩
    have filled : ls ≠ [] := List.ne_nil_of_length_pos positive
    have records : fs.recordsAt dir name = ls := (recordsAt_eq_iff filled).mpr read
    obtain ⟨r, hr, e⟩ := sifts.recovers.mem_iff.mpr ⟨name, mem, records ▸ filled, rfl⟩
    exact ⟨r, hr, by rw [e]; rfl, by rw [e, ← records]; rfl⟩

/-- A file whose name has not been recovered has no locators to be read. -/
theorem not_recovered_iff (sifts : Sifts q fs dir top names w o v) (mem : name ∈ names) :
    (∀ r ∈ o.recovered, (v.registry r).id ≠ name) ↔ fs.recordsAt dir name = [] := by
  constructor
  · intro unread
    by_contra filled
    obtain ⟨r, hr, e⟩ := sifts.recovers.mem_iff.mpr ⟨name, mem, filled, rfl⟩
    exact unread r hr (by rw [e]; rfl)
  · intro blank r hr named
    obtain ⟨id, -, filled, e⟩ := sifts.recovers.mem_iff.mp ⟨r, hr, rfl⟩
    rw [e] at named
    obtain rfl : id = name := named
    exact filled blank

theorem listing_of_ne_nil {ls : List Locator} (nonempty : ls ≠ []) :
    listing (.ok ls) = ls.map fun l => "    " ++ l.text := by
  cases ls with
  | nil => exact absurd rfl nonempty
  | cons l ls => rfl

/-- The branches that have been put in doubt are what is shown of their file. -/
theorem listing_eq_inDoubtOf (sifts : Sifts q fs dir top names w o v)
    (fresh : (w.process q).inDoubt = []) {r : RegistryRef} (hr : r ∈ o.recovered) :
    listing (fs.readRecords (joinPath dir (v.registry r).id)) =
        (v.inDoubtOf q r).map (fun b => "    " ++ (v.branch b).location.text) ∧
      (v.inDoubtOf q r).length = (v.registry r).count := by
  obtain ⟨id, -, filled, e⟩ := sifts.recovers.mem_iff.mp ⟨r, hr, rfl⟩
  have named : (v.registry r).id = id := by rw [e]; rfl
  have counted : (v.registry r).count = (fs.recordsAt dir id).length := by rw [e]; rfl
  have branches := sifts.recovers.map_inDoubtOf fresh hr
  rw [named] at branches ⊢
  constructor
  · have shown := congrArg (List.map fun b : Branch => "    " ++ b.location.text) branches
    rw [List.map_map, List.map_map] at shown
    rw [(recordsAt_eq_iff filled).mp rfl, listing_of_ne_nil filled]
    exact shown.symm
  · rw [counted]
    simpa using congrArg List.length branches

/-- The inspection of a file tells what the first scan of a log makes of it. -/
theorem tells_of_sifts (sifts : Sifts q fs dir top names w o v)
    (fresh : (w.process q).inDoubt = []) (mem : name ∈ names) :
    Tells dir name (fs.readRecords (joinPath dir name)) q o v where
  recovered n positive := by
    rw [verdict_eq_soundLine_iff, mem_recovered_iff sifts mem, and_iff_right positive]
  shown r hr named := named ▸ listing_eq_inDoubtOf sifts fresh hr
  blank := by
    rw [verdict_eq_soundLine_iff, listing_eq_blankLines_iff fun _ => parsed_of_readRecords]
    simp only [List.length_eq_zero_iff, exists_eq_right]
  passed := by
    rw [listing_eq_blankLines_iff fun _ => parsed_of_readRecords, not_recovered_iff sifts mem]
    have failures := fun f => mem_failures_iff (f := f) sifts mem
    unfold recordsAt
    cases read : fs.readRecords (joinPath dir name) with
    | ok ls =>
        simp only [read, reduceCtorEq, iff_false, not_and] at failures
        simp only [Except.ok.injEq, iff_self_and]
        exact fun _ => failures
    | error f =>
        refine iff_of_false nofun fun passed => ?_
        obtain ⟨failed, path⟩ := (failures f).mpr read
        exact passed.2 f failed path
  malformed := by
    simp only [verdict_eq_faultLine_iff, exists_comm, exists_and_left, exists_eq', and_true]
    exact exists_congr fun f => (and_iff_left_of_imp fun e => e ▸ rfl).symm
  failed := by
    refine exists_congr fun f => ?_
    rw [mem_failures_iff sifts mem, and_iff_left_of_imp]
    exact fun e => e ▸ rfl
  explained f hf path := by
    rw [(mem_failures_iff sifts mem).mp ⟨hf, path⟩]
    exact ⟨rfl, rfl⟩

/-! The directory. -/

theorem perform_of_unlisted (unlisted : fs.registryFiles (recoveryDir base) = .error f)
    (command : Command) : perform fs base command = ⟨1, ""⟩ := by
  simp only [perform, unlisted]

theorem perform_verify (found : fs.registryFiles (recoveryDir base) = .ok names) :
    perform fs base .verify = verify (readAll fs (recoveryDir base) names) := by
  simp only [perform, found]

theorem perform_list (found : fs.registryFiles (recoveryDir base) = .ok names) :
    perform fs base .list = list (readAll fs (recoveryDir base) names) := by
  simp only [perform, found]

/-- Both subcommands and a scan have gone through the same files in the same order, and tell the
same of each. -/
structure Agrees (fs : FileSystem) (dir : String) (names : List String) (q : ProcessRef)
    (o : ScanReport) (v : World) (verified listed : Report) : Prop where
  once : names.Nodup
  /-- The last line counts the files and the failures, and a failure shows in the exit code. -/
  verified : verified = ⟨if o.failures = [] then 0 else 1,
    unlines (names.map (fun name => verdict name (fs.readRecords (joinPath dir name))) ++
      [toString names.length ++ " files, " ++ toString o.failures.length ++ " malformed"])⟩
  listed : listed = ⟨0, if names = [] then "no registry files\n"
    else unlines (names.flatMap fun name =>
      heading name :: listing (fs.readRecords (joinPath dir name)))⟩
  recovered : (o.recovered.map fun r => (v.registry r).id).Sublist names
  failures : (o.failures.map Failure.path?).Sublist (names.map fun name => some (joinPath dir name))
  tells : ∀ name ∈ names, Tells dir name (fs.readRecords (joinPath dir name)) q o v

theorem ids_recovered (sifts : Sifts q fs dir top names w o v) :
    (o.recovered.map fun r => (v.registry r).id).Sublist names := by
  have ids := congrArg (List.map Registry.id) sifts.recovers.map_registry
  rw [List.map_map, List.map_map] at ids
  have same : (o.recovered.map fun r => (v.registry r).id) =
      recorded (fs.recordsAt dir) names := ids.trans (List.map_id _)
  rw [same]
  exact List.filter_sublist

theorem paths_failures (sifts : Sifts q fs dir top names w o v) :
    (o.failures.map Failure.path?).Sublist (names.map fun name => some (joinPath dir name)) := by
  rw [sifts.failures]
  clear sifts
  induction names with
  | nil => exact .slnil
  | cons name rest ih =>
      cases fault : fs.faultAt? dir name with
      | none =>
          rw [List.filterMap_cons_none fault]
          exact ih.cons _
      | some f =>
          rw [List.filterMap_cons_some fault, List.map_cons, List.map_cons,
            readRecords_eq_error (faultAt?_eq_some_iff.mp fault)]
          exact ih.cons_cons _

theorem countP_isFault (sifts : Sifts q fs dir top names w o v) :
    (readAll fs dir names).countP (fun (_, held) => isFault held) = o.failures.length := by
  rw [sifts.failures, List.length_filterMap_eq_countP, readAll, List.countP_map]
  refine List.countP_congr fun name _ => ?_
  unfold faultAt?
  simp only [Function.comp_apply]
  cases fs.readRecords (joinPath dir name) <;> simp [isFault]

theorem verify_readAll (sifts : Sifts q fs dir top names w o v) :
    verify (readAll fs dir names) = ⟨if o.failures = [] then 0 else 1,
      unlines (names.map (fun name => verdict name (fs.readRecords (joinPath dir name))) ++
        [toString names.length ++ " files, " ++ toString o.failures.length ++ " malformed"])⟩ := by
  have lines : (readAll fs dir names).map (fun (name, held) => verdict name held) =
      names.map fun name => verdict name (fs.readRecords (joinPath dir name)) := by
    rw [readAll, List.map_map]
    rfl
  simp only [verify, countP_isFault sifts, lines, List.length_eq_zero_iff]
  rw [readAll, List.length_map]

theorem list_readAll (fs : FileSystem) (dir : String) (names : List String) :
    list (readAll fs dir names) = ⟨0, if names = [] then "no registry files\n"
      else unlines (names.flatMap fun name =>
        heading name :: listing (fs.readRecords (joinPath dir name)))⟩ := by
  unfold Inspect.list readAll
  by_cases empty : names = []
  · simp [empty]
  · simp [empty, List.flatMap_map]

/-- The first scan of a log that owns nothing agrees with both subcommands. -/
theorem agrees_of_sifts (sound : fs.Sound) (listed : fs.registryFiles dir = .ok names)
    (sifts : Sifts q fs dir top names w o v) (fresh : (w.process q).inDoubt = []) :
    Agrees fs dir names q o v (verify (readAll fs dir names)) (list (readAll fs dir names)) where
  once := (increasing_registryFiles sound listed).2
  verified := verify_readAll sifts
  listed := list_readAll fs dir names
  recovered := ids_recovered sifts
  failures := paths_failures sifts
  tells _ mem := tells_of_sifts sifts fresh mem

end Files

/-- The inspection of a directory and the first scan of a new log on it, in the same tree. If the
directory cannot be listed all three fail. Otherwise they agree on every file in it. -/
theorem inspection_exact (w : World) (sound : w.files.Sound) (config : Config)
    (named : config.baseDir ≠ "") (node : String) :
    let q := (w.openLog config node).1
    let scanned := (w.openLog config node).2.scan q []
    let verified := inspect w.files ["--base-dir=" ++ config.baseDir, "verify"]
    let listed := inspect w.files ["--base-dir=" ++ config.baseDir, "list"]
    match w.files.registryFiles config.dir with
    | .error f => (∃ cause, f = .listFailed config.dir cause) ∧ scanned.1 = .error f ∧
        verified = ⟨1, ""⟩ ∧ listed = ⟨1, ""⟩
    | .ok names => ∃ o, scanned.1 = .ok o ∧
        Agrees w.files config.dir names q o scanned.2 verified listed := by
  intro q scanned verified listed
  have opened := World.process_openLog config node w
  have verified_eq : verified = perform w.files config.baseDir .verify :=
    inspect_attached named rfl w.files
  have listed_eq : listed = perform w.files config.baseDir .list :=
    inspect_attached named rfl w.files
  rw [verified_eq, listed_eq]
  cases found : w.files.registryFiles config.dir with
  | error f =>
      have unlisted : (w.openLog config node).2.files.registryFiles
          ((w.openLog config node).2.process q).dir = .error f := by
        rw [opened]
        exact found
      have failed : scanned = (.error f, (w.openLog config node).2) :=
        World.scan_of_unlisted unlisted
      exact ⟨registryFiles_eq_error found, congrArg Prod.fst failed,
        perform_of_unlisted found .verify, perform_of_unlisted found .list⟩
  | ok names =>
      obtain ⟨top, o, v, done, sifts⟩ := World.sifts_openLog config node sound found
      have fresh : ((w.openLog config node).2.process q).inDoubt = [] := by rw [opened]
      have ends : scanned.2 = v := congrArg Prod.snd done
      rw [ends, perform_verify found, perform_list found]
      exact ⟨o, congrArg Prod.fst done, agrees_of_sifts sound found sifts fresh⟩

/-- A file with a record, one with blank lines only, one that is not text, and one with a line that
is no record. -/
def shelf : List FileStep :=
  let leave (name : String) (bytes : Bytes) : FileStep :=
    .write (Utf8.encode (joinPath "b/xa-recovery" name)) bytes
  [leave "w" (Utf8.encode (Record.encode .sample)), leave "x" (Utf8.encode " \n\n"),
    leave "y" [0xFF], leave "z" (Utf8.encode "xa:/r\nno record\n")]

theorem inspection_exact_shelf :
    let w := World.ofFiles (FileSystem.empty.applyAll shelf)
    let opened := w.openLog { baseDir := "b" } "n"
    let scanned := opened.2.scan opened.1 []
    let verified := inspect w.files ["--base-dir=b", "verify"]
    let listed := inspect w.files ["--base-dir=b", "list"]
    verified = ⟨1, "ok       w (1 locators)\nok       x (0 locators)\n" ++
        "MALFORMED y: stream did not contain valid UTF-8\n" ++
        "MALFORMED z: malformed record \"no record\" in recovery file b/xa-recovery/z: " ++
        "relative URL without a base\n4 files, 2 malformed\n"⟩ ∧
      ∃ o, scanned.1 = .ok o ∧
        Agrees w.files "b/xa-recovery" ["w", "x", "y", "z"] opened.1 o scanned.2 verified
          listed := by
  intro w opened scanned verified listed
  have sound : w.files.Sound := (World.Orderly.ofFiles shelf).sound
  have found : w.files.registryFiles "b/xa-recovery" = .ok ["w", "x", "y", "z"] := by
    decide +kernel
  have exactly := inspection_exact w sound { baseDir := "b" } (by decide) "n"
  have dir : Config.dir { baseDir := "b" } = "b/xa-recovery" := by decide +kernel
  simp only [dir, found] at exactly
  exact ⟨by decide +kernel, exactly⟩

end InDoubt.Inspect

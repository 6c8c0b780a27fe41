import InDoubt.Proofs.Ascii
import InDoubt.Proofs.Orderly
import InDoubt.Proofs.Records

/-!
Appending and reading. Where a text ends in a line break, or is empty, its lines end too: the lines
of what is appended to it are those of the text and those of the rest, and so are the records
(`Record.parse_seam`). A registry that is told of a branch therefore adds one locator to those of
its file, however the file came by the others, or leaves the file as bad as it was.
-/

namespace InDoubt

/-- A text or a content that is empty or ends in a line break. -/
def Ended {α : Type} (feed : α) (s : List α) : Prop := s = [] ∨ s.getLast? = some feed

instance {α : Type} [DecidableEq α] (feed : α) (s : List α) : Decidable (Ended feed s) :=
  inferInstanceAs (Decidable (_ ∨ _))

theorem Ended.tail {α : Type} {feed a : α} {s : List α} (h : Ended feed (a :: s)) :
    Ended feed s := by
  rcases h with empty | last
  · cases empty
  · cases s with
    | nil => exact .inl rfl
    | cons b s => exact .inr last

namespace Text

variable {s t : List Char}

theorem eq_nil_of_linesOf (lineless : linesOf s = []) : s = [] := by
  unfold linesOf at lineless
  split at lineless
  · rfl
  · cases lineless
  · cases lineless
  · split at lineless <;> cases lineless

theorem linesOf_cons {c : Char} (apart : c ≠ '\n')
    (apart' : ∀ rest, c = '\r' → s = '\n' :: rest → False) {line : List Char}
    {more : List (List Char)} (split : linesOf s = line :: more) :
    linesOf (c :: s) = (c :: line) :: more := by
  rw [linesOf, split]
  · exact apart
  · exact apart'

/-- The lines after a line break are those of what follows. -/
theorem linesOf_append_of_ended (ended : Ended '\n' s) :
    linesOf (s ++ t) = linesOf s ++ linesOf t := by
  fun_induction linesOf s with
  | case1 => rfl
  | case2 rest ih => simp only [List.cons_append, linesOf, ih ended.tail]
  | case3 rest ih => simp only [List.cons_append, linesOf, ih ended.tail.tail]
  | case4 c rest apart apart' lineless ih =>
      -- Nothing follows the character, which is no line break.
      obtain rfl := eq_nil_of_linesOf lineless
      obtain ended | ended := ended
      · cases ended
      · exact absurd (by simpa using ended) apart
  | case5 c rest apart apart' line more split ih =>
      have whole := ih ended.tail
      rw [split, List.cons_append] at whole
      refine linesOf_cons apart (fun rest' return' feed => ?_) whole
      cases rest with
      | nil => cases split
      | cons d rest =>
          cases feed
          exact apart' rest return' rfl

end Text

namespace Utf8

variable {b rest : Bytes}

/-- A line feed is a character of its own wherever its byte is found. -/
theorem exists_of_utf8_eq {cs : List Char}
    (e : cs.flatMap String.utf8EncodeChar = b ++ 10 :: rest) :
    ∃ front back, cs = front ++ '\n' :: back ∧ b = front.flatMap String.utf8EncodeChar ∧
      rest = back.flatMap String.utf8EncodeChar := by
  induction cs generalizing b with
  | nil => simp at e
  | cons c cs ih =>
      rw [List.flatMap_cons] at e
      by_cases ascii : c.toNat < 128
      · rw [utf8EncodeChar_of_ascii ascii, List.singleton_append] at e
        cases b with
        | nil =>
            obtain ⟨first, rfl⟩ := List.cons.inj e
            have number := congrArg UInt8.toNat first
            rw [UInt8.toNat_ofNat', Nat.mod_eq_of_lt (by omega)] at number
            obtain rfl : c = '\n' := Char.toNat_inj.mp number
            exact ⟨[], cs, rfl, rfl, rfl⟩
        | cons first b =>
            obtain ⟨rfl, later⟩ := List.cons.inj e
            obtain ⟨front, back, rfl, rfl, rfl⟩ := ih later
            refine ⟨c :: front, back, rfl, ?_, rfl⟩
            rw [List.flatMap_cons, utf8EncodeChar_of_ascii ascii, List.singleton_append]
      · have apart : (10 : UInt8) ∉ String.utf8EncodeChar c := fun mem =>
          absurd (high_of_mem_utf8EncodeChar (Nat.le_of_not_lt ascii) mem) (by decide)
        obtain ⟨b', rfl, later⟩ | ⟨inner, bytes, later⟩ := List.append_eq_append_iff.mp e
        · obtain ⟨front, back, rfl, rfl, rfl⟩ := ih later
          exact ⟨c :: front, back, rfl, rfl, rfl⟩
        · cases inner with
          | nil =>
              rw [List.append_nil] at bytes
              obtain ⟨front, back, rfl, empty, rfl⟩ := ih (b := []) later.symm
              refine ⟨c :: front, back, rfl, ?_, rfl⟩
              rw [List.flatMap_cons, ← empty, bytes, List.append_nil]
          | cons first inner =>
              obtain ⟨rfl, -⟩ := List.cons.inj later
              exact absurd (by simp [bytes]) apart

theorem exists_of_encode_eq {text : String} (e : encode text = b ++ 10 :: rest) :
    ∃ front back, text = String.ofList (front ++ '\n' :: back) ∧
      b = encode (String.ofList front) ∧ rest = encode (String.ofList back) := by
  rw [← text.ofList_toList, encode_ofList] at e
  obtain ⟨front, back, chars, rfl, rfl⟩ := exists_of_utf8_eq e
  refine ⟨front, back, ?_, (encode_ofList front).symm, (encode_ofList back).symm⟩
  rw [← chars, String.ofList_toList]

/-- Bytes that end in a line feed are text if they are the start of one. -/
theorem decode?_append_of_ended (ended : Ended 10 b) (text : String) :
    decode? (b ++ encode text) = (decode? b).map (· ++ text) := by
  cases decoded : decode? b with
  | some front =>
      rw [← decode?_eq_some_iff.mp decoded, ← encode_append, decode?_encode]
      rfl
  | none =>
      cases whole : decode? (b ++ encode text) with
      | none => rfl
      | some whole' =>
          have bytes := decode?_eq_some_iff.mp whole
          rcases ended with rfl | last
          · cases (decode?_encode "").symm.trans decoded
          · obtain ⟨b', rfl⟩ := List.getLast?_eq_some_iff.mp last
            rw [List.append_assoc, List.singleton_append] at bytes
            obtain ⟨front, -, -, rfl, -⟩ := exists_of_encode_eq bytes
            have feed : encode "\n" = [10] := by decide
            rw [← feed, ← encode_append, decode?_encode] at decoded
            cases decoded

/-- The text of bytes that end in a line feed ends in one. -/
theorem ended_of_decode? (ended : Ended 10 b) {text : String} (decoded : decode? b = some text) :
    Ended '\n' text.toList := by
  have bytes := decode?_eq_some_iff.mp decoded
  rcases ended with rfl | last
  · cases encode_injective (bytes.trans encode_empty.symm)
    exact .inl rfl
  · obtain ⟨b', rfl⟩ := List.getLast?_eq_some_iff.mp last
    obtain ⟨front, back, rfl, -, empty⟩ := exists_of_encode_eq bytes
    have blank : String.ofList back = "" := encode_injective empty.symm
    rw [String.ofList_eq_empty_iff.mp blank, String.toList_ofList]
    exact .inr (by simp)

end Utf8

namespace Record

variable {path front back : String} {l : Locator} {ls : List Locator}

/-- What a content is read as, where the file has a path. -/
def parseAt (path content : String) : Except Failure (List Locator) :=
  (parse content).mapError (.malformedRecord path)

theorem parse_append (ended : Ended '\n' front.toList) (back : String) :
    parse (front ++ back) = do
      let ls ← parse front
      let more ← parse back
      return ls ++ more := by
  simp only [parse, parseBy, String.toList_append, Text.linesOf_append_of_ended ended,
    List.filter_append, List.mapM_append]

theorem parseAt_append (path : String) (ended : Ended '\n' front.toList) (back : String) :
    parseAt path (front ++ back) = do
      let ls ← parseAt path front
      let more ← parseAt path back
      return ls ++ more := by
  rw [parseAt, parse_append ended, parseAt, parseAt]
  cases parse front with
  | error bad => rfl
  | ok ls => cases parse back <;> rfl

theorem parseAt_contentOf (path : String) (faithful : ∀ l ∈ ls, l.Faithful) :
    parseAt path (contentOf ls) = .ok ls := by
  rw [parseAt, parse_contentOf_of_faithful faithful]
  rfl

theorem parseAt_concat (path : String) (ended : Ended '\n' front.toList)
    (faithful : l.Faithful) :
    parseAt path (front ++ encode l) = (parseAt path front).map (· ++ [l]) := by
  have alone : contentOf [l] = encode l := by simp [contentOf]
  have one : parseAt path (encode l) = .ok [l] := by
    rw [← alone]
    exact parseAt_contentOf path (by simpa using faithful)
  rw [parseAt_append path ended, one]
  cases parseAt path front <;> rfl

end Record

namespace FileSystem

open Record (parseAt)

variable {fs : FileSystem} {path : String} {inode : Nat} {l : Locator}

theorem inodeAt_setContent {path bytes : Bytes} {other : Nat}
    (reached : fs.inodeAt path = .ok inode) :
    (fs.setContent other bytes).inodeAt path = .ok inode := by
  obtain ⟨place, located, stands⟩ := inodeAt_eq_ok_iff.mp reached
  obtain ⟨checked, leads⟩ := locate_eq_ok_iff.mp located
  exact inodeAt_eq_ok_iff.mpr
    ⟨place, locate_eq_ok_iff.mpr ⟨checked, leads.kept (.of_node? fun _ => rfl)⟩, stands⟩

/-- Reading a file is reading its content as text. -/
theorem readRecords_of_inodeAt (reached : fs.inodeAt (Utf8.encode path) = .ok inode) :
    fs.readRecords path =
      match Utf8.decode? (fs.content inode) with
      | none => .error (.readFailed path .notUtf8)
      | some content => parseAt path content := by
  simp only [readRecords, read, reached, Except.map]
  cases Utf8.decode? (fs.content inode) with
  | none => rfl
  | some content =>
      simp only [parseAt]
      cases Record.parse content <;> rfl

/-- A record that is appended after a line break is read after the others. -/
theorem readRecords_appendTo (sound : fs.Sound)
    (reached : fs.inodeAt (Utf8.encode path) = .ok inode) (ended : Ended 10 (fs.content inode))
    (faithful : l.Faithful) :
    (fs.appendTo inode (Utf8.encode (Record.encode l))).readRecords path =
      (fs.readRecords path).map (· ++ [l]) := by
  obtain ⟨place, -, stands⟩ := inodeAt_eq_ok_iff.mp reached
  have reached' : (fs.appendTo inode (Utf8.encode (Record.encode l))).inodeAt (Utf8.encode path) =
      .ok inode := inodeAt_setContent reached
  rw [readRecords_of_inodeAt reached', readRecords_of_inodeAt reached,
    content_appendTo_self (sound.lt stands), Utf8.decode?_append_of_ended ended]
  cases decoded : Utf8.decode? (fs.content inode) with
  | none => rfl
  | some content => exact Record.parseAt_concat path (Utf8.ended_of_decode? ended decoded) faithful

end FileSystem

namespace World

open FileSystem

variable {w : World} {r : RegistryRef} {path : String} {inode : Nat} {l : Locator}
  {ls : List Locator}

/-- A path leads to the file that a registry writes to, which ends in a line break. -/
structure Feeds (w : World) (r : RegistryRef) (path : String) (inode : Nat) : Prop where
  handle : (w.registry r).handle? = some inode
  reached : w.files.inodeAt (Utf8.encode path) = .ok inode
  ended : Ended 10 (w.files.content inode)

theorem record_of_handle? (handle : (w.registry r).handle? = some inode) :
    (w.record r l).1 = .ok () := by
  unfold record
  split
  · rfl
  · rename_i origin
    simp [Registry.handle?, origin] at handle
  · rfl

/-- One more branch is one more record of the file, which ends in a line break still. -/
theorem Feeds.record (h : Feeds w r path inode) (sound : w.files.Sound) (faithful : l.Faithful) :
    Feeds (w.record r l).2 r path inode ∧
      (w.record r l).2.files.readRecords path = (w.files.readRecords path).map (· ++ [l]) := by
  obtain ⟨place, -, stands⟩ := inodeAt_eq_ok_iff.mp h.reached
  have handle : ((w.record r l).2.registry r).handle? = (w.registry r).handle? := by
    rw [registry_congr (w := w.updateRegistry r _) (registries_record w r l)]
    apply part_updateRegistry Registry.handle?
    exact fun _ => rfl
  have files : (w.record r l).2.files =
      w.files.appendTo inode (Utf8.encode (Record.encode l)) := by
    rw [files_record, h.handle]
  refine ⟨⟨handle.trans h.handle, ?_, ?_⟩, ?_⟩
  · rw [files]
    exact inodeAt_setContent h.reached
  · have feed : Utf8.encode "\n" = [10] := by decide
    rw [files, content_appendTo_self (sound.lt stands), Record.encode, Utf8.encode_append, feed]
    exact .inr (by simp)
  · rw [files]
    exact readRecords_appendTo sound h.reached h.ended faithful

/-- Branches that are recorded one after another are records in the same order. -/
theorem Feeds.records (h : Feeds w r path inode) (orderly : Orderly w)
    (faithful : ∀ l ∈ ls, l.Faithful) :
    (run (ls.map (.record r)) w).1 = ls.map (fun _ => .done) ∧
      (after (ls.map (.record r)) w).files.readRecords path =
        (w.files.readRecords path).map (· ++ ls) := by
  induction ls generalizing w with
  | nil =>
      refine ⟨rfl, ?_⟩
      cases e : w.files.readRecords path <;> simp [e, Except.map]
  | cons l ls ih =>
      obtain ⟨fed, read⟩ := h.record orderly.sound (faithful l List.mem_cons_self)
      have done : (w.step (.record r l)).1 = .done := by
        simp only [step, Prod.map_fst, record_of_handle? h.handle]
        rfl
      obtain ⟨answers, read'⟩ := ih fed (orderly.step (.record r l)) fun l mem =>
        faithful l (List.mem_cons_of_mem _ mem)
      refine ⟨?_, ?_⟩
      · simp only [List.map_cons, run, done]
        exact congrArg (Answer.done :: ·) answers
      · rw [List.map_cons, after_cons]
        refine read'.trans ?_
        rw [read]
        cases w.files.readRecords path <;> simp [Except.map]

end World

namespace Record

/-- After a line break reading starts anew, with the first failure before all others. Contents made
of records are therefore read as these, and a file that ends in a line break, whatever its lines
are, is read as before with each record that a registry appends to it. -/
theorem parse_seam (path : String) (changes : List FileStep) (past : List Step) :
    (∀ front back, Ended '\n' front.toList → parseAt path (front ++ back) = do
        let ls ← parseAt path front
        let more ← parseAt path back
        return ls ++ more) ∧
      (∀ ls, (∀ l ∈ ls, l.Faithful) → parseAt path (contentOf ls) = .ok ls) ∧
      (∀ front l, Ended '\n' front.toList → l.Faithful →
        parseAt path (front ++ encode l) = (parseAt path front).map (· ++ [l])) ∧
      let w := World.after past (.ofFiles (FileSystem.empty.applyAll changes))
      ∀ r inode ls, World.Feeds w r path inode → (∀ l ∈ ls, l.Faithful) →
        (World.run (ls.map (.record r)) w).1 = ls.map (fun _ => .done) ∧
          (World.after (ls.map (.record r)) w).files.readRecords path =
            (w.files.readRecords path).map (· ++ ls) := by
  refine ⟨fun front back ended => parseAt_append path ended back,
    fun ls faithful => parseAt_contentOf path faithful,
    fun front l ended faithful => parseAt_concat path ended faithful, ?_⟩
  intro w r inode ls feeds faithful
  exact feeds.records ((World.Orderly.ofFiles changes).after past) faithful

/-- Others have written into a file that a registry holds open: a record that ends in a carriage
return and a line feed, and a line that is blank. Two branches are recorded after these. -/
theorem parse_seam_returned :
    let path := joinPath "./xa-recovery" Xid.sample.name
    let met := "xa:/r\r\n\u3000\n"
    let past : List Step := [.openLog {} "n", .create ⟨0⟩ .sample,
      .outside (.write (Utf8.encode path) (Utf8.encode met))]
    let w := World.after past (.ofFiles (FileSystem.empty.applyAll []))
    parseAt path (met ++ "\r\nxa:/r") = .ok [.sample, .sample] ∧ World.Feeds w ⟨0⟩ path 0 ∧
      (World.after [.record ⟨0⟩ .sample, .record ⟨0⟩ .sample] w).files.readRecords path =
        .ok [.sample, .sample, .sample] := by
  intro path met past w
  obtain ⟨seam, -, -, appended⟩ := parse_seam path [] past
  have first : parseAt path met = .ok [.sample] := by decide +kernel
  have second : parseAt path "\r\nxa:/r" = .ok [.sample] := by decide +kernel
  have feeds : World.Feeds w ⟨0⟩ path 0 :=
    ⟨by decide +kernel, by decide +kernel, by decide +kernel⟩
  have read : w.files.readRecords path = .ok [.sample] := by decide +kernel
  refine ⟨?_, feeds, ?_⟩
  · rw [seam met _ (by decide +kernel), first, second]
    rfl
  · have faithful : ∀ l ∈ [Locator.sample, .sample], l.Faithful := by decide +kernel
    refine (appended ⟨0⟩ 0 [.sample, .sample] feeds faithful).2.trans ?_
    rw [read]
    rfl

end Record

end InDoubt

import InDoubt.Proofs.Ascii

/-!
How transactions are spelled. A text is read as a transaction if it is made of pairs of digits of
either case that start with a format identifier and a length, and the length is that of a global
transaction identifier which is all there, followed by a branch qualifier, neither of them too long
(`Xid.Spells`). The transaction is the one that the digits stand for, and its name is the text in
uppercase (`Xid.Denotes`). Any other text is refused, for the first reason that applies
(`Xid.Refuses`).
-/

namespace InDoubt

namespace Hex

variable {c : Char} {n : Nat} {s t : List Char} {bytes : Bytes}

/-- The digits of either case. -/
def digits : List Char := "0123456789ABCDEFabcdef".toList

/-- The value of a numeral. -/
def number (s : List Char) : Nat := s.foldl (fun n c => 16 * n + (value? c).getD 0) 0

/-- The bytes that pairs of digits stand for. -/
def bytesOf : List Char → Bytes
  | high :: low :: rest => UInt8.ofNat (number [high, low]) :: bytesOf rest
  | _ => []

/-- A text made of pairs of digits. -/
inductive Paired : List Char → Prop
  | nil : Paired []
  | cons {high low : Char} {rest : List Char} (h : high ∈ digits) (l : low ∈ digits)
      (later : Paired rest) : Paired (high :: low :: rest)

/-! Digits. -/

theorem ascii_of_value? (h : value? c = some n) : c.toNat < 128 := by
  unfold value? at h
  simp only at h
  split at h
  · omega
  · split at h
    · omega
    · split at h
      · omega
      · cases h

/-- Only a digit has a value, which is that of the same digit in uppercase. -/
theorem value?_cases (c : Char) :
    c ∈ digits ∧ (∃ n < 16, value? c = some n ∧ c.toUpper = digit n) ∨
      c ∉ digits ∧ value? c = none := by
  by_cases ascii : c.toNat < 128
  · exact Locator.ascii_cases (P := fun c =>
      c ∈ digits ∧ (∃ n < 16, value? c = some n ∧ c.toUpper = digit n) ∨
        c ∉ digits ∧ value? c = none) ascii (by decide +kernel)
  · have low : digits.all (·.toNat < 128) = true := by decide
    refine .inr ⟨fun mem => ascii (of_decide_eq_true (List.all_eq_true.mp low c mem)), ?_⟩
    cases h : value? c with
    | none => rfl
    | some n => exact absurd (ascii_of_value? h) ascii

theorem value?_of_mem (h : c ∈ digits) : ∃ n < 16, value? c = some n ∧ c.toUpper = digit n := by
  obtain ⟨-, found⟩ | ⟨other, -⟩ := value?_cases c
  · exact found
  · exact absurd h other

theorem value?_of_not_mem (h : c ∉ digits) : value? c = none := by
  obtain ⟨mem, -⟩ | ⟨-, undefined⟩ := value?_cases c
  · exact absurd mem h
  · exact undefined

theorem ascii_of_mem (h : c ∈ digits) : c.toNat < 128 := by
  obtain ⟨n, -, value, -⟩ := value?_of_mem h
  exact ascii_of_value? value

/-! Pairs of digits. -/

theorem paired_iff : Paired s ↔ s.length % 2 = 0 ∧ ∀ c ∈ s, c ∈ digits := by
  constructor
  · intro paired
    induction paired with
    | nil => exact ⟨rfl, nofun⟩
    | cons h l later ih =>
        obtain ⟨even, each⟩ := ih
        refine ⟨by simp only [List.length_cons]; omega, ?_⟩
        simpa [h, l] using each
  · rintro ⟨even, each⟩
    induction s using bytesOf.induct with
    | case1 high low rest ih =>
        simp only [List.length_cons] at even
        exact .cons (each high (by simp)) (each low (by simp))
          (ih (by omega) fun c mem => each c (by simp [mem]))
    | case2 s short =>
        match s with
        | [] => exact .nil
        | [_] => cases even
        | _ :: _ :: _ => exact absurd rfl (short _ _ _)

/-- The bytes of a part of a text are a part of the bytes. -/
theorem bytesOf_take (s : List Char) (n : Nat) : bytesOf (s.take (2 * n)) = (bytesOf s).take n := by
  fun_induction bytesOf s generalizing n with
  | case1 high low rest ih =>
      cases n with
      | zero => rfl
      | succ n => simp only [Nat.mul_succ, List.take_succ_cons, bytesOf, ih]
  | case2 s short =>
      match s, n with
      | [], _ => simp [bytesOf]
      | [_], 0 => rfl
      | [_], n + 1 => simp [Nat.mul_succ, bytesOf]
      | _ :: _ :: _, _ => exact absurd rfl (short _ _ _)

theorem bytesOf_drop (s : List Char) (n : Nat) : bytesOf (s.drop (2 * n)) = (bytesOf s).drop n := by
  fun_induction bytesOf s generalizing n with
  | case1 high low rest ih =>
      cases n with
      | zero => rfl
      | succ n => simp only [Nat.mul_succ, List.drop_succ_cons, ih]
  | case2 s short =>
      match s, n with
      | [], _ => simp [bytesOf]
      | [_], 0 => rfl
      | [_], n + 1 => simp [Nat.mul_succ, bytesOf]
      | _ :: _ :: _, _ => exact absurd rfl (short _ _ _)

theorem number_pair {high low : Char} {m n : Nat} (h : value? high = some m)
    (l : value? low = some n) : number [high, low] = 16 * m + n := by
  simp [number, h, l]

/-- Two digits stand for a byte. -/
theorem toNat_number {high low : Char} (h : high ∈ digits) (l : low ∈ digits) :
    (UInt8.ofNat (number [high, low])).toNat = number [high, low] := by
  obtain ⟨m, hm, vm, -⟩ := value?_of_mem h
  obtain ⟨n, hn, vn, -⟩ := value?_of_mem l
  rw [number_pair vm vn, UInt8.toNat_ofNat']
  omega

/-- Two digits are what is written for their byte, in uppercase. -/
theorem ofByte_number {high low : Char} (h : high ∈ digits) (l : low ∈ digits) :
    ofByte (.ofNat (number [high, low])) = [high.toUpper, low.toUpper] := by
  obtain ⟨m, hm, vm, um⟩ := value?_of_mem h
  obtain ⟨n, hn, vn, un⟩ := value?_of_mem l
  have first : (16 * m + n) / 16 = m := by omega
  have second : (16 * m + n) % 16 = n := by omega
  rw [ofByte, toNat_number h l, number_pair vm vn, first, second, um, un]

namespace Paired

theorem decode?_eq (paired : Paired s) : decode? s = some (bytesOf s) := by
  induction paired with
  | nil => rfl
  | cons h l later ih =>
      obtain ⟨m, -, vm, -⟩ := value?_of_mem h
      obtain ⟨n, -, vn, -⟩ := value?_of_mem l
      simp [decode?, bytesOf, number_pair vm vn, vm, vn, ih]

theorem length_bytesOf (paired : Paired s) : 2 * (bytesOf s).length = s.length := by
  induction paired with
  | nil => rfl
  | cons h l later ih =>
      simp only [bytesOf, List.length_cons]
      omega

/-- What is written for the bytes is the digits in uppercase. -/
theorem encode_bytesOf (paired : Paired s) : encode (bytesOf s) = s.map Char.toUpper := by
  induction paired with
  | nil => rfl
  | cons h l later ih =>
      have rest : (bytesOf _).flatMap ofByte = _ := ih
      simp only [encode, bytesOf, List.flatMap_cons, ofByte_number h l, rest, List.map_cons,
        List.cons_append, List.nil_append]

/-- A numeral of whole bytes has the value of its bytes, the most significant first. -/
theorem foldl_eq (paired : Paired s) (start : Nat) :
    s.foldl (fun n c => 16 * n + (value? c).getD 0) start =
      (bytesOf s).foldl (fun n b => 256 * n + b.toNat) start := by
  induction paired generalizing start with
  | nil => rfl
  | @cons high low rest h l later ih =>
      have two : number [high, low] = 16 * (value? high).getD 0 + (value? low).getD 0 := by
        simp [number]
      have next : 16 * (16 * start + (value? high).getD 0) + (value? low).getD 0 =
          256 * start + (UInt8.ofNat (number [high, low])).toNat := by
        rw [toNat_number h l, two]
        omega
      simp only [bytesOf, List.foldl_cons, next]
      exact ih _

theorem number_eq (paired : Paired s) :
    number s = (bytesOf s).foldl (fun n b => 256 * n + b.toNat) 0 :=
  paired.foldl_eq 0

theorem exists_cons (paired : Paired s) (long : n + 2 ≤ s.length) :
    ∃ high low rest, s = high :: low :: rest ∧ high ∈ digits ∧ low ∈ digits ∧ Paired rest := by
  cases paired with
  | nil => cases long
  | cons h l later => exact ⟨_, _, _, rfl, h, l, later⟩

end Paired

/-- Anything but digits has no bytes. -/
theorem decode?_of_not_mem (mem : c ∈ s) (other : c ∉ digits) : decode? s = none := by
  have undefined := value?_of_not_mem other
  fun_induction decode? s with
  | case1 => cases mem
  | case2 => rfl
  | case3 high low rest ih =>
      simp only [List.mem_cons] at mem
      rcases mem with rfl | rfl | mem
      · simp [undefined]
      · simp [undefined]
      · simp [ih mem]

/-- The digits are read off the bytes of a text, two at a time: no byte of another character is
the byte of a digit. -/
theorem decode?_utf8 (text : String) :
    decode? ((Utf8.encode text).map fun b => Char.ofNat b.toNat) = decode? text.toList := by
  by_cases each : ∀ c ∈ text.toList, c.toNat < 128
  · have bytes := Utf8.encode_of_ascii each
    rw [String.ofList_toList] at bytes
    have back : ∀ c ∈ text.toList, Char.ofNat (UInt8.ofNat c.toNat).toNat = c := by
      intro c mem
      have small := each c mem
      rw [UInt8.toNat_ofNat', Nat.mod_eq_of_lt (by omega), Char.ofNat_toNat]
    rw [bytes, List.map_map]
    exact congrArg decode? ((List.map_congr_left back).trans (List.map_id _))
  · obtain ⟨c, mem, high⟩ := not_forall₂.mp each
    obtain ⟨b, rest, bytes⟩ := List.exists_cons_of_ne_nil (String.utf8EncodeChar_ne_nil (c := c))
    have part : b ∈ String.utf8EncodeChar c := bytes ▸ List.mem_cons_self
    have high' := Utf8.high_of_mem_utf8EncodeChar (Nat.le_of_not_lt high) part
    have inside : b ∈ Utf8.encode text := by
      rw [← text.ofList_toList, Utf8.encode_ofList]
      exact List.mem_flatMap.mpr ⟨c, mem, part⟩
    have other : Char.ofNat b.toNat ∉ digits := by
      intro digit
      have valid : b.toNat.isValidChar := .inl (Nat.lt_trans b.toNat_lt (by decide))
      have low := ascii_of_mem digit
      rw [Char.ofNat, dif_pos valid] at low
      exact Nat.not_lt.mpr high' low
    rw [decode?_of_not_mem mem fun digit => high (ascii_of_mem digit),
      decode?_of_not_mem (List.mem_map.mpr ⟨b, inside, rfl⟩) other]

end Hex

namespace Xid

variable {text other : String} {bytes : Bytes} {x y : Xid} {fault : Fault}

/-- The length that a text declares for the global transaction identifier. -/
def declared (text : String) : Nat := Hex.number ((text.toList.drop 8).take 2)

/-- The number of bytes that a text has after that length. -/
def held (text : String) : Nat := (text.length - 10) / 2

/-- A text that spells a transaction. -/
structure Spells (text : String) : Prop where
  digits : ∀ c ∈ text.toList, c ∈ Hex.digits
  even : text.length % 2 = 0
  long : 10 ≤ text.length
  whole : declared text ≤ held text
  gtrid : declared text ≤ 64
  bqual : held text - declared text ≤ 64

/-- The characters are looked at one by one, where `∀ c ∈ s` could be decided over all there are. -/
instance (text : String) : Decidable (Spells text) :=
  decidable_of_iff
    (text.toList.all (· ∈ Hex.digits) = true ∧ text.length % 2 = 0 ∧ 10 ≤ text.length ∧
      declared text ≤ held text ∧ declared text ≤ 64 ∧ held text - declared text ≤ 64)
    ⟨fun ⟨each, even, long, whole, gtrid, bqual⟩ =>
        ⟨by simpa using each, even, long, whole, gtrid, bqual⟩,
      fun ⟨each, even, long, whole, gtrid, bqual⟩ =>
        ⟨by simpa using each, even, long, whole, gtrid, bqual⟩⟩

/-- A text that spells a given transaction. -/
structure Denotes (text : String) (x : Xid) : Prop where
  formatId : x.formatId.toInt =
    if Hex.number (text.toList.take 8) < 0x80000000 then (Hex.number (text.toList.take 8) : Int)
    else Hex.number (text.toList.take 8) - 0x100000000
  gtrid : x.gtrid = Hex.bytesOf ((text.toList.drop 10).take (2 * declared text))
  bqual : x.bqual = Hex.bytesOf (text.toList.drop (10 + 2 * declared text))
  name : x.name = text.toUpper

/-- Why a text spells no transaction. -/
inductive Refuses (text : String) : Fault → Prop
  | odd (odd : text.utf8ByteSize % 2 = 1) : Refuses text (.oddDigits text)
  | notHex (even : text.utf8ByteSize % 2 = 0) {c : Char} (mem : c ∈ text.toList)
      (other : c ∉ Hex.digits) : Refuses text (.notHex text)
  | short (paired : Hex.Paired text.toList) (short : text.length < 10) :
      Refuses text (.tooShort text)
  | overrun (paired : Hex.Paired text.toList) (long : 10 ≤ text.length)
      (excess : held text < declared text) :
      Refuses text (.overrun text (declared text) (held text))
  | gtrid (paired : Hex.Paired text.toList) (long : 10 ≤ text.length)
      (whole : declared text ≤ held text) (excess : 64 < declared text) :
      Refuses text (.gtridTooLong (declared text))
  | bqual (paired : Hex.Paired text.toList) (long : 10 ≤ text.length)
      (whole : declared text ≤ held text) (gtrid : declared text ≤ 64)
      (excess : 64 < held text - declared text) :
      Refuses text (.bqualTooLong (held text - declared text))

theorem utf8ByteSize_of_digits (each : ∀ c ∈ text.toList, c ∈ Hex.digits) :
    text.utf8ByteSize = text.length := by
  have bytes := Utf8.encode_of_ascii fun c mem => Hex.ascii_of_mem (each c mem)
  rw [String.ofList_toList] at bytes
  rw [← Utf8.length_encode, bytes, List.length_map, String.length_toList]

/-- The digits are paired if the bytes are. -/
theorem paired_of_even (even : text.utf8ByteSize % 2 = 0)
    (each : ∀ c ∈ text.toList, c ∈ Hex.digits) : Hex.Paired text.toList := by
  rw [utf8ByteSize_of_digits each, ← String.length_toList] at even
  exact Hex.paired_iff.mpr ⟨even, each⟩

/-- Reading goes by the pairs of digits. -/
theorem parse_of_paired (paired : Hex.Paired text.toList) :
    parse text = ofBytes text (Hex.bytesOf text.toList) := by
  obtain ⟨even, each⟩ := Hex.paired_iff.mp paired
  rw [String.length_toList, ← utf8ByteSize_of_digits each] at even
  rw [parse, if_pos even, paired.decode?_eq]

/-- The bytes of a text that is long enough: the format identifier, the length, and the rest. -/
theorem bytesOf_of_long (paired : Hex.Paired text.toList) (long : 10 ≤ text.length) :
    ∃ a b c d : UInt8, Hex.bytesOf text.toList =
        a :: b :: c :: d :: .ofNat (declared text) :: Hex.bytesOf (text.toList.drop 10) ∧
      Hex.number (text.toList.take 8) =
        ((a.toNat * 256 + b.toNat) * 256 + c.toNat) * 256 + d.toNat ∧
      (UInt8.ofNat (declared text)).toNat = declared text ∧
      (Hex.bytesOf (text.toList.drop 10)).length = held text := by
  rw [← String.length_toList] at long
  unfold declared held
  rw [← String.length_toList]
  generalize text.toList = s at paired long
  obtain ⟨_, _, s₁, rfl, h₁, l₁, p₁⟩ := paired.exists_cons (n := 8) long
  obtain ⟨_, _, s₂, rfl, h₂, l₂, p₂⟩ := p₁.exists_cons (n := 6) (by simpa using long)
  obtain ⟨_, _, s₃, rfl, h₃, l₃, p₃⟩ := p₂.exists_cons (n := 4) (by simpa using long)
  obtain ⟨_, _, s₄, rfl, h₄, l₄, p₄⟩ := p₃.exists_cons (n := 2) (by simpa using long)
  obtain ⟨_, _, s₅, rfl, h₅, l₅, p₅⟩ := p₄.exists_cons (n := 0) (by simpa using long)
  have first : Hex.Paired _ := .cons h₁ l₁ (.cons h₂ l₂ (.cons h₃ l₃ (.cons h₄ l₄ .nil)))
  have rest := p₅.length_bytesOf
  refine ⟨_, _, _, _, rfl, ?_, Hex.toNat_number h₅ l₅, ?_⟩
  · refine first.number_eq.trans ?_
    simp only [Hex.bytesOf, List.foldl_cons, List.foldl_nil]
    omega
  · simp only [List.drop_succ_cons, List.drop_zero, List.length_cons]
    omega

theorem make_of_gtrid {formatId : Int32} {gtrid bqual : Bytes} (excess : maxPart < gtrid.length) :
    make formatId gtrid bqual = .error (.gtridTooLong gtrid.length) :=
  dif_neg (Nat.not_le.mpr excess)

theorem make_of_bqual {formatId : Int32} {gtrid bqual : Bytes} (short : gtrid.length ≤ maxPart)
    (excess : maxPart < bqual.length) :
    make formatId gtrid bqual = .error (.bqualTooLong bqual.length) := by
  rw [make, dif_pos short, dif_neg (Nat.not_le.mpr excess)]

/-- A text of digits that is long enough is read by its parts. -/
theorem parse_of_long (paired : Hex.Paired text.toList) (long : 10 ≤ text.length) :
    parse text =
      if held text < declared text then .error (.overrun text (declared text) (held text))
      else make (UInt32.ofNat (Hex.number (text.toList.take 8))).toInt32
        (Hex.bytesOf ((text.toList.drop 10).take (2 * declared text)))
        (Hex.bytesOf (text.toList.drop (10 + 2 * declared text))) := by
  obtain ⟨a, b, c, d, bytes, number, size, rest⟩ := bytesOf_of_long paired long
  rw [parse_of_paired paired, bytes, ofBytes, size, rest, number, Hex.bytesOf_take,
    ← List.drop_drop, Hex.bytesOf_drop]

/-- The lengths of the two parts. -/
theorem length_parts (paired : Hex.Paired text.toList) (long : 10 ≤ text.length) :
    (Hex.bytesOf ((text.toList.drop 10).take (2 * declared text))).length =
        min (declared text) (held text) ∧
      (Hex.bytesOf (text.toList.drop (10 + 2 * declared text))).length =
        held text - declared text := by
  obtain ⟨a, b, c, d, bytes, number, size, rest⟩ := bytesOf_of_long paired long
  rw [Hex.bytesOf_take, ← List.drop_drop, Hex.bytesOf_drop, List.length_take, List.length_drop,
    rest]
  exact ⟨rfl, rfl⟩

theorem parse_of_short (paired : Hex.Paired text.toList) (short : text.length < 10) :
    parse text = .error (.tooShort text) := by
  have few := paired.length_bytesOf
  rw [String.length_toList] at few
  rw [parse_of_paired paired]
  unfold ofBytes
  split
  · rename_i bytes
    simp only [bytes, List.length_cons] at few
    omega
  · rfl

/-- A number of 32 bits is that of a format identifier in two's complement. -/
theorem toInt_toInt32 {n : Nat} (h : n < 0x100000000) :
    (UInt32.ofNat n).toInt32.toInt = if n < 0x80000000 then (n : Int) else n - 0x100000000 := by
  have size : (UInt32.ofNat n).toInt32.toBitVec.toNat = n := by
    simpa using Nat.mod_eq_of_lt h
  rw [Int32.toInt, BitVec.toInt_eq_toNat_cond, size]
  split <;> split <;> omega

theorem word_lt (a b c d : UInt8) :
    ((a.toNat * 256 + b.toNat) * 256 + c.toNat) * 256 + d.toNat < 0x100000000 := by
  have ha := a.toNat_lt
  have hb := b.toNat_lt
  have hc := c.toNat_lt
  have hd := d.toNat_lt
  omega

theorem formatBytes_toInt32 (a b c d : UInt8) :
    formatBytes (UInt32.ofNat (((a.toNat * 256 + b.toNat) * 256 + c.toNat) * 256 + d.toNat)).toInt32
      = [a, b, c, d] := by
  have ha := a.toNat_lt
  have hb := b.toNat_lt
  have hc := c.toNat_lt
  have hd := d.toNat_lt
  have size : (((a.toNat * 256 + b.toNat) * 256 + c.toNat) * 256 + d.toNat) % 2 ^ 32 =
      ((a.toNat * 256 + b.toNat) * 256 + c.toNat) * 256 + d.toNat :=
    Nat.mod_eq_of_lt (word_lt a b c d)
  simp only [formatBytes, UInt32.toUInt32_toInt32, UInt32.toNat_ofNat', size, List.cons.injEq,
    and_true, ← UInt8.toNat_inj, UInt8.toNat_ofNat']
  omega

/-- What is read is made of the bytes that are there. -/
theorem toBytes_of_ofBytes (h : ofBytes text bytes = .ok x) : x.toBytes = bytes := by
  unfold ofBytes at h
  split at h
  · rename_i a b c d size rest
    obtain ⟨whole, h⟩ := guard_eq_ok_iff.mp h
    have length : (rest.take size.toNat).length = size.toNat := by
      rw [List.length_take]
      omega
    simp only [make] at h
    split at h
    · split at h
      · cases h
        simp only [toBytes, formatBytes_toInt32, length, UInt8.ofNat_toNat, List.cons_append,
          List.nil_append, List.take_append_drop]
      · cases h
    · cases h
  · cases h

theorem toList_toUpper (text : String) : text.toUpper.toList = text.toList.map Char.toUpper :=
  String.toList_map

/-- The name of the transaction that a text spells is the text in uppercase. -/
theorem name_of_parse (paired : Hex.Paired text.toList) (h : parse text = .ok x) :
    x.name = text.toUpper := by
  rw [parse_of_paired paired] at h
  rw [name, toBytes_of_ofBytes h, paired.encode_bytesOf, ← toList_toUpper, String.ofList_toList]

/-- No two transactions have one name. -/
theorem name_injective (h : x.name = y.name) : x = y := by
  have read := x.parse_name
  rw [h, y.parse_name] at read
  exact (Except.ok.inj read).symm

/-! Texts that spell a transaction, and others. -/

theorem Spells.paired (spells : Spells text) : Hex.Paired text.toList :=
  Hex.paired_iff.mpr ⟨by rw [String.length_toList]; exact spells.even, spells.digits⟩

theorem Spells.parse (spells : Spells text) : ∃ x, parse text = .ok x ∧ Denotes text x := by
  have paired := spells.paired
  obtain ⟨a, b, c, d, bytes, number, size, rest⟩ := bytesOf_of_long paired spells.long
  have lt := word_lt a b c d
  rw [← number] at lt
  obtain ⟨gtrid, bqual⟩ := length_parts paired spells.long
  have short : min (declared text) (held text) ≤ maxPart :=
    Nat.le_trans (Nat.min_le_left ..) spells.gtrid
  have read := parse_of_long paired spells.long
  rw [if_neg (Nat.not_lt.mpr spells.whole), make, dif_pos (gtrid ▸ short),
    dif_pos (bqual ▸ spells.bqual)] at read
  exact ⟨_, read, toInt_toInt32 lt, rfl, rfl, name_of_parse paired read⟩

theorem Refuses.parse (refuses : Refuses text fault) : parse text = .error fault := by
  cases refuses with
  | odd odd => rw [Xid.parse, if_neg (by omega)]
  | notHex even mem other => rw [Xid.parse, if_pos even, Hex.decode?_of_not_mem mem other]
  | short paired short => exact parse_of_short paired short
  | overrun paired long excess => rw [parse_of_long paired long, if_pos excess]
  | gtrid paired long whole excess =>
      have length := (length_parts paired long).1
      rw [Nat.min_eq_left whole] at length
      have excess' : maxPart < (Hex.bytesOf _).length := Nat.lt_of_lt_of_eq excess length.symm
      rw [parse_of_long paired long, if_neg (Nat.not_lt.mpr whole), make_of_gtrid excess', length]
  | bqual paired long whole gtrid excess =>
      obtain ⟨length, bqual⟩ := length_parts paired long
      rw [Nat.min_eq_left whole] at length
      have short : (Hex.bytesOf _).length ≤ maxPart := Nat.le_trans (Nat.le_of_eq length) gtrid
      rw [parse_of_long paired long, if_neg (Nat.not_lt.mpr whole),
        make_of_bqual short (bqual ▸ excess), bqual]

/-- A text spells a transaction, or there is a reason why not. -/
theorem spells_or_refuses (text : String) : Spells text ∨ ∃ fault, Refuses text fault := by
  by_cases even : text.utf8ByteSize % 2 = 0
  · by_cases each : ∀ c ∈ text.toList, c ∈ Hex.digits
    · have paired := paired_of_even even each
      rcases Nat.lt_or_ge text.length 10 with short | long
      · exact .inr ⟨_, .short paired short⟩
      rcases Nat.lt_or_ge (held text) (declared text) with excess | whole
      · exact .inr ⟨_, .overrun paired long excess⟩
      rcases Nat.lt_or_ge 64 (declared text) with excess | gtrid
      · exact .inr ⟨_, .gtrid paired long whole excess⟩
      rcases Nat.lt_or_ge 64 (held text - declared text) with excess | bqual
      · exact .inr ⟨_, .bqual paired long whole gtrid excess⟩
      have even := (Hex.paired_iff.mp paired).1
      rw [String.length_toList] at even
      exact .inl ⟨each, even, long, whole, gtrid, bqual⟩
    · obtain ⟨c, mem, other⟩ := not_forall₂.mp each
      exact .inr ⟨_, .notHex even mem other⟩
  · exact .inr ⟨_, .odd (by omega)⟩

/-- What a text is read as: a transaction if it spells one, which is the one that it denotes, the
same for two texts that differ in case alone; and the first reason against it otherwise. -/
theorem parse_exact (text : String) :
    ((∃ x, parse text = .ok x) ↔ Spells text) ∧
      (∀ x, parse text = .ok x → Denotes text x) ∧
      (∀ other x y, parse text = .ok x → parse other = .ok y →
        (x = y ↔ text.toUpper = other.toUpper)) ∧
      ∀ fault, parse text = .error fault ↔ Refuses text fault := by
  have spells : ∀ {text x}, parse text = .ok x → Spells text := by
    intro text x read
    rcases spells_or_refuses text with spells | ⟨fault, refuses⟩
    · exact spells
    · cases read.symm.trans refuses.parse
  have denotes : ∀ {text x}, parse text = .ok x → Denotes text x := by
    intro text x read
    obtain ⟨y, same, denotes⟩ := (spells read).parse
    cases read.symm.trans same
    exact denotes
  refine ⟨⟨fun ⟨x, read⟩ => spells read, fun h => ?_⟩, fun x => denotes, ?_, fun fault => ?_⟩
  · obtain ⟨x, read, -⟩ := h.parse
    exact ⟨x, read⟩
  · intro other x y read read'
    rw [← (denotes read).name, ← (denotes read').name]
    exact ⟨congrArg name, name_injective⟩
  · refine ⟨fun failed => ?_, Refuses.parse⟩
    rcases spells_or_refuses text with spells | ⟨fault', refuses⟩
    · obtain ⟨x, read, -⟩ := spells.parse
      cases failed.symm.trans read
    · cases failed.symm.trans refuses.parse
      exact refuses

/-- A negative format identifier in digits of both cases, and a text with a sign in it. -/
theorem parse_exact_mixed :
    (∃ x, parse "ffFFffFf02a1b2C3" = .ok x ∧ Denotes "ffFFffFf02a1b2C3" x ∧
        parse "FFFFFFFF02A1B2c3" = .ok x) ∧
      parse "0000000001+A" = .error (.notHex "0000000001+A") := by
  obtain ⟨accepts, denotes, same, -⟩ := parse_exact "ffFFffFf02a1b2C3"
  obtain ⟨x, read⟩ := accepts.mpr (by decide +kernel)
  obtain ⟨y, read'⟩ := (parse_exact "FFFFFFFF02A1B2c3").1.mpr (by decide +kernel)
  have upper : "ffFFffFf02a1b2C3".toUpper = "FFFFFFFF02A1B2c3".toUpper := by
    rw [← String.toList_inj, toList_toUpper, toList_toUpper]
    decide +kernel
  obtain rfl : x = y := (same _ x y read read').mpr upper
  have sign : Refuses "0000000001+A" (.notHex "0000000001+A") :=
    .notHex (by decide +kernel) (c := '+') (by decide +kernel) (by decide)
  exact ⟨⟨x, read, denotes x read, read'⟩, ((parse_exact _).2.2.2 _).mpr sign⟩

end Xid

end InDoubt

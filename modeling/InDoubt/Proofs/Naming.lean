import InDoubt.Proofs.FileSystem.Listing

/-!
Names of transactions. The name of a transaction reads back as that transaction, and a directory
may hold it: it is made of hexadecimal digits, ten of them at least, so that it is neither a slash
nor dots.
-/

namespace InDoubt

namespace Hex

theorem value?_digit {n : Nat} (h : n < 16) : value? (digit n) = some n := by
  have all : ∀ n < 16, value? (digit n) = some n := by decide
  exact all n h

theorem decode?_encode (bytes : List UInt8) : decode? (encode bytes) = some bytes := by
  induction bytes with
  | nil => rfl
  | cons b rest ih =>
      have lt : b.toNat < 256 := b.toNat_lt
      have high := value?_digit (n := b.toNat / 16) (by omega)
      have low := value?_digit (n := b.toNat % 16) (by omega)
      have whole : 16 * (b.toNat / 16) + b.toNat % 16 = b.toNat := by omega
      have ih : decode? (rest.flatMap ofByte) = some rest := ih
      simp only [encode, List.flatMap_cons, ofByte, List.cons_append, List.nil_append, decode?,
        high, low, ih, Option.bind_eq_bind, Option.bind_some, whole, UInt8.ofNat_toNat]
      rfl

theorem exists_of_mem_encode {c : Char} {bytes : List UInt8} (mem : c ∈ encode bytes) :
    ∃ n < 16, c = digit n := by
  obtain ⟨b, -, mem⟩ := List.mem_flatMap.mp mem
  have lt : b.toNat < 256 := b.toNat_lt
  rcases List.mem_pair.mp mem with rfl | rfl
  · exact ⟨b.toNat / 16, by omega, rfl⟩
  · exact ⟨b.toNat % 16, by omega, rfl⟩

/-- A digit is one byte, and no slash. -/
theorem utf8_digit {n : Nat} (h : n < 16) :
    ∃ byte, String.utf8EncodeChar (digit n) = [byte] ∧ byte ≠ FileSystem.slash := by
  have all : ∀ n < 16, ∃ byte ∈ List.range 128, String.utf8EncodeChar (digit n) = [.ofNat byte] ∧
      UInt8.ofNat byte ≠ FileSystem.slash := by decide
  obtain ⟨byte, -, e, other⟩ := all n h
  exact ⟨_, e, other⟩

end Hex

namespace Utf8

theorem encode_ofList (cs : List Char) :
    encode (String.ofList cs) = cs.flatMap String.utf8EncodeChar := by
  simp [encode, List.utf8Encode]

theorem length_encode (s : String) : (encode s).length = s.utf8ByteSize := by
  rw [← String.size_toByteArray]
  simp [encode]

end Utf8

/-- Text in hexadecimal has two bytes for each one that it stands for, none of them a slash. -/
theorem utf8_hex (bytes : List UInt8) :
    (Utf8.encode (String.ofList (Hex.encode bytes))).length = 2 * bytes.length ∧
      FileSystem.slash ∉ Utf8.encode (String.ofList (Hex.encode bytes)) := by
  rw [Utf8.encode_ofList]
  induction bytes with
  | nil => exact ⟨rfl, List.not_mem_nil⟩
  | cons b rest ih =>
      obtain ⟨length, plain⟩ := ih
      have lt : b.toNat < 256 := b.toNat_lt
      obtain ⟨high, e, other⟩ := Hex.utf8_digit (n := b.toNat / 16) (by omega)
      obtain ⟨low, e', other'⟩ := Hex.utf8_digit (n := b.toNat % 16) (by omega)
      have two : (Hex.encode (b :: rest)).flatMap String.utf8EncodeChar =
          high :: low :: (Hex.encode rest).flatMap String.utf8EncodeChar := by
        simp [Hex.encode, Hex.ofByte, e, e']
      rw [two]
      refine ⟨by simp only [List.length_cons, length]; omega, ?_⟩
      simp only [List.mem_cons, not_or]
      exact ⟨other.symm, other'.symm, plain⟩

namespace Xid

variable (x : Xid)

theorem length_toBytes : x.toBytes.length = 5 + x.gtrid.length + x.bqual.length := by
  simp [toBytes, formatBytes]
  omega

theorem length_name : (Utf8.encode x.name).length = 2 * (5 + x.gtrid.length + x.bqual.length) := by
  rw [← length_toBytes]
  exact (utf8_hex x.toBytes).1

/-- A directory may hold the name of a transaction. -/
theorem holdable_name : FileSystem.Holdable x.name := by
  have long := x.length_name
  have short : FileSystem.finalSlash.length < 3 ∧ FileSystem.dot.length < 3 ∧
      FileSystem.dotDot.length < 3 := by decide
  refine ⟨⟨?_, ?_, ?_⟩, (utf8_hex x.toBytes).2⟩ <;> intro e <;> rw [e] at long <;> omega

theorem nul_not_mem_name : 0 ∉ Utf8.encode x.name := by
  have all : ∀ n < 16, 0 ∉ String.utf8EncodeChar (Hex.digit n) := by decide
  rw [name, Utf8.encode_ofList]
  intro mem
  obtain ⟨c, inside, nul⟩ := List.mem_flatMap.mp mem
  obtain ⟨n, lt, rfl⟩ := Hex.exists_of_mem_encode inside
  exact all n lt nul

theorem ofBytes_toBytes (text : String) : ofBytes text x.toBytes = .ok x := by
  have lt : x.formatId.toUInt32.toNat < 2 ^ 32 := x.formatId.toUInt32.toNat_lt
  have held := x.gtrid_le
  have size : (UInt8.ofNat x.gtrid.length).toNat = x.gtrid.length := by
    rw [UInt8.toNat_ofNat']
    have : maxPart = 64 := rfl
    omega
  have whole : (((UInt8.ofNat (x.formatId.toUInt32.toNat / 256 / 256 / 256)).toNat * 256 +
      (UInt8.ofNat (x.formatId.toUInt32.toNat / 256 / 256)).toNat) * 256 +
      (UInt8.ofNat (x.formatId.toUInt32.toNat / 256)).toNat) * 256 +
      (UInt8.ofNat x.formatId.toUInt32.toNat).toNat = x.formatId.toUInt32.toNat := by
    simp only [UInt8.toNat_ofNat']
    omega
  have long : ¬(x.gtrid ++ x.bqual).length < x.gtrid.length := by simp
  simp only [toBytes, formatBytes, List.cons_append, List.nil_append, ofBytes, size, whole,
    if_neg long, List.take_left, List.drop_left, UInt32.ofNat_toNat, Int32.toInt32_toUInt32, make,
    dif_pos x.gtrid_le, dif_pos x.bqual_le]

/-- The name of a transaction reads back as that transaction. -/
theorem parse_name : parse x.name = .ok x := by
  have even : x.name.utf8ByteSize % 2 = 0 := by
    rw [← Utf8.length_encode, length_name]
    omega
  have digits : Hex.decode? x.name.toList = some x.toBytes := by
    rw [name, String.toList_ofList]
    exact Hex.decode?_encode x.toBytes
  rw [parse, if_pos even, digits]
  exact x.ofBytes_toBytes x.name

end Xid

end InDoubt

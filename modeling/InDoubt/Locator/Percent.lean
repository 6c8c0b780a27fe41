import InDoubt.Text.Hex
import InDoubt.Text.Utf8

/-!
Percent-encoding. Each part of a locator has a set of characters that may not stand there as they
are; every character outside ASCII belongs to all of these sets. An encoded character is written as
its UTF-8 bytes. The percent sign belongs to no set, so encoding what is already encoded changes
nothing.
-/

namespace InDoubt.Locator

/-- Characters that some part of a locator writes in encoded form. -/
abbrev EncodeSet := Char → Bool

namespace EncodeSet

def controls : EncodeSet := fun c => c.toNat < 0x20 || 0x7F ≤ c.toNat

def fragment : EncodeSet := fun c => controls c || c ∈ [' ', '"', '<', '>', '\x60']

def path : EncodeSet := fun c => fragment c || c ∈ ['#', '?', '\x7b', '\x7d']

def userinfo : EncodeSet := fun c =>
  path c || c ∈ ['/', ':', ';', '=', '@', '[', '\\', ']', '^', '|']

def query : EncodeSet := fun c => controls c || c ∈ [' ', '"', '#', '<', '>']

/-- The query of a special scheme also encodes the apostrophe. -/
def specialQuery : EncodeSet := fun c => query c || c = '\''

end EncodeSet

def encodeChar (set : EncodeSet) (c : Char) : List Char :=
  if set c then (String.utf8EncodeChar c).flatMap fun b => '%' :: Hex.ofByte b else [c]

def percentEncode (set : EncodeSet) (s : List Char) : List Char := s.flatMap (encodeChar set)

/-- The bytes of a text, in which two digits after a percent sign are the byte of that number. -/
def percentDecode : List Char → Bytes
  | '%' :: high :: low :: rest =>
      match Hex.value? high, Hex.value? low with
      | some h, some l => UInt8.ofNat (16 * h + l) :: percentDecode rest
      | _, _ => 0x25 :: percentDecode (high :: low :: rest)
  | c :: rest => String.utf8EncodeChar c ++ percentDecode rest
  | [] => []

end InDoubt.Locator

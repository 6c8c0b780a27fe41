/-!
Hexadecimal digits, and bytes written as pairs of them. Writing uses uppercase; reading takes
either case and refuses anything but a whole number of pairs.
-/

namespace InDoubt.Hex

/-- The uppercase digit for a value below sixteen. -/
def digit (n : Nat) : Char :=
  if n < 10 then Char.ofNat (n + 48) else Char.ofNat (n + 55)

/-- The value of a digit of either case. -/
def value? (c : Char) : Option Nat :=
  let n := c.toNat
  if 48 ≤ n ∧ n ≤ 57 then some (n - 48)
  else if 65 ≤ n ∧ n ≤ 70 then some (n - 55)
  else if 97 ≤ n ∧ n ≤ 102 then some (n - 87)
  else none

/-- The two digits of a byte, the high one first. -/
def ofByte (b : UInt8) : List Char := [digit (b.toNat / 16), digit (b.toNat % 16)]

def encode (bytes : List UInt8) : List Char := bytes.flatMap ofByte

/-- The bytes that pairs of digits stand for. -/
def decode? : List Char → Option (List UInt8)
  | [] => some []
  | [_] => none
  | high :: low :: rest => do
      let h ← value? high
      let l ← value? low
      let bytes ← decode? rest
      return UInt8.ofNat (16 * h + l) :: bytes

/-- The shortest lowercase form of a number; zero is one digit. -/
def ofNat (n : Nat) : List Char := Nat.toDigits 16 n

end InDoubt.Hex

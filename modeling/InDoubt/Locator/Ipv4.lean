import InDoubt.Locator.Error
import InDoubt.Text.Hex
import InDoubt.Text.Split

/-!
Addresses of version 4 in host position. A host whose last label is a number is an address: one to
four numbers, each decimal, octal after a leading zero or hexadecimal after 0x, of which the last
fills the bytes that the others leave. An address is written as four decimal bytes.
-/

namespace InDoubt.Locator

structure Ipv4 where
  value : UInt32
  deriving DecidableEq

/-- The number that digits of a base stand for. -/
def digits? (base : Nat) (s : List Char) : Option Nat :=
  s.foldl (fun acc c => do
    let n ← acc
    let d ← Hex.value? c
    if d < base then some (n * base + d) else none) (some 0)

namespace Ipv4

/-- A number in one of the three notations. A bare 0x is zero. -/
def number? : List Char → Option Nat
  | [] => none
  | '0' :: 'x' :: rest => digits? 16 rest
  | '0' :: 'X' :: rest => digits? 16 rest
  | '0' :: d :: rest => digits? 8 (d :: rest)
  | s => digits? 10 s

/-- The labels of a host, without the empty one after a final dot. -/
def labels (host : List Char) : List (List Char) :=
  match (splitOn (· = '.') host).reverse with
  | [] :: rest => rest.reverse
  | all => all.reverse

/-- Whether a host has to be read as an address. -/
def endsInNumber (host : List Char) : Bool :=
  match (labels host).getLast? with
  | none => false
  | some last => (last ≠ [] && last.all Char.isDigit) || (number? last).isSome

/-- The number of addresses that some low bytes tell apart. -/
def span (bytes : Nat) : Nat := Nat.pow 256 bytes

/-- The address with these parts: all but the last are bytes. -/
def ofParts? (parts : List Nat) : Option Ipv4 :=
  match parts.reverse with
  | [] => none
  | last :: before =>
      if parts.length ≤ 4 ∧ before.all (· < 256) ∧ last < span (5 - parts.length) then
        let high := before.reverse.foldl (fun acc b => acc * 256 + b) 0
        some ⟨.ofNat (high * span (5 - parts.length) + last)⟩
      else none

def parse (host : List Char) : Except ParseError Ipv4 :=
  match (labels host).mapM number? >>= ofParts? with
  | some address => .ok address
  | none => .error .invalidIpv4

def toChars (a : Ipv4) : List Char :=
  let n := a.value.toNat
  let byte (i : Nat) := Nat.toDigits 10 (n / span i % 256)
  byte 3 ++ '.' :: byte 2 ++ '.' :: byte 1 ++ '.' :: byte 0

end Ipv4

end InDoubt.Locator

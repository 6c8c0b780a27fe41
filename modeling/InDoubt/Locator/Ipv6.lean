import InDoubt.Locator.Ipv4

/-!
Addresses of version 6 in host position: eight groups of up to four hexadecimal digits. One double
colon stands for the zero groups that are missing, at least one, and the last two groups may be
written as four decimal bytes. An address is written in lowercase, with a double colon for the
first of its longest runs of two or more zero groups.
-/

namespace InDoubt.Locator

structure Ipv6 where
  groups : List UInt16
  length_groups : groups.length = 8
  deriving DecidableEq

namespace Ipv6

/-- One to four hexadecimal digits. -/
def group? (s : List Char) : Option UInt16 :=
  if s ≠ [] ∧ s.length ≤ 4 then (digits? 16 s).map UInt16.ofNat else none

/-- A decimal byte without leading zeros. -/
def byte? (s : List Char) : Option Nat :=
  if s = ['0'] ∨ (s ≠ [] ∧ s.head? ≠ some '0') then
    match digits? 10 s with
    | some n => if n < 256 then some n else none
    | none => none
  else none

/-- The two groups that four decimal bytes fill. -/
def dotted? (s : List Char) : Option (List UInt16) :=
  match (splitOn (· = '.') s).mapM byte? with
  | some [a, b, c, d] => some [.ofNat (a * 256 + b), .ofNat (c * 256 + d)]
  | _ => none

/-- The groups of colon-separated pieces. Only the last piece of an address may be dotted. -/
def pieces? (dottedLast : Bool) : List (List Char) → Option (List UInt16)
  | [] => some []
  | [last] =>
      if dottedLast && last.contains '.' then dotted? last else (group? last).map ([·])
  | piece :: rest => do
      let g ← group? piece
      let gs ← pieces? dottedLast rest
      return g :: gs

/-- The groups of one side of a double colon, which may be empty. -/
def side? (dottedLast : Bool) (s : List Char) : Option (List UInt16) :=
  if s = [] then some [] else pieces? dottedLast (splitOn (· = ':') s)

/-- What stands before and after the first double colon. -/
def splitDouble : List Char → Option (List Char × List Char)
  | ':' :: ':' :: rest => some ([], rest)
  | c :: rest => (splitDouble rest).map fun (before, after) => (c :: before, after)
  | [] => none

def ofChars? (s : List Char) : Option Ipv6 :=
  match splitDouble s with
  | none => do
      let gs ← side? true s
      if h : gs.length = 8 then some ⟨gs, h⟩ else none
  | some (before, after) => do
      let front ← side? false before
      let back ← side? true after
      if h : front.length + back.length < 8 then
        some ⟨front ++ List.replicate (8 - (front.length + back.length)) 0 ++ back, by
          simp only [List.length_append, List.length_replicate]; omega⟩
      else none

def parse (s : List Char) : Except ParseError Ipv6 :=
  match ofChars? s with
  | some address => .ok address
  | none => .error .invalidIpv6

/-- Where the first of the longest runs of zero groups starts, and its length. -/
def longestZeros : List UInt16 → Nat × Nat
  | [] => (0, 0)
  | g :: gs =>
      let here := ((g :: gs).takeWhile (· = 0)).length
      let (start, length) := longestZeros gs
      if length ≤ here then (0, here) else (start + 1, length)

def joinGroups (gs : List UInt16) : List Char :=
  [':'].intercalate (gs.map fun g => Hex.ofNat g.toNat)

def toChars (a : Ipv6) : List Char :=
  let (start, length) := longestZeros a.groups
  if 2 ≤ length then
    joinGroups (a.groups.take start) ++ [':', ':'] ++ joinGroups (a.groups.drop (start + length))
  else joinGroups a.groups

end Ipv6

end InDoubt.Locator

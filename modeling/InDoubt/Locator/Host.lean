import InDoubt.Locator.Idna
import InDoubt.Locator.Ipv6
import InDoubt.Locator.Percent

/-!
Hosts. Under a special scheme a host is a domain name, read through percent-encoding and converted
to ASCII, or an address of either version. Under any other scheme it is an address of version 6 or a
name that is kept as it is, encoded where it must be. The empty name is the absence of a host.
-/

namespace InDoubt.Locator

inductive Host
  | name (text : List Char)
  | ipv4 (address : Ipv4)
  | ipv6 (address : Ipv6)
  deriving DecidableEq

namespace Host

def toChars : Host → List Char
  | .name text => text
  | .ipv4 address => address.toChars
  | .ipv6 address => '[' :: address.toChars ++ [']']

def isEmpty (h : Host) : Bool := h = .name []

/-- An address of version 6 between brackets, the first of which has been seen. -/
def bracketed (rest : List Char) : Except ParseError Host :=
  if rest.getLast? = some ']' then (Ipv6.parse rest.dropLast).map .ipv6
  else .error .invalidIpv6

/-- Characters that no name may contain under a scheme without rules of its own. -/
def forbidden (c : Char) : Bool :=
  c ∈ ['\x00', '\t', '\n', '\r', ' ', '#', '/', ':', '<', '>', '?', '@', '[', '\\', ']', '^', '|']

def parseName : List Char → Except ParseError Host
  | '[' :: rest => bracketed rest
  | s =>
      if s.any forbidden then .error .invalidDomainCharacter
      else .ok (.name (percentEncode .controls s))

def parseDomain (idna : Idna) : List Char → Except ParseError Host
  | '[' :: rest => bracketed rest
  | s =>
      match idna.toAscii (percentDecode s) with
      | none => .error .invalidInternationalDomain
      | some [] => .error .emptyHost
      | some domain =>
          if Ipv4.endsInNumber domain then (Ipv4.parse domain).map .ipv4 else .ok (.name domain)

end Host

end InDoubt.Locator

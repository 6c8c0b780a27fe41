/-!
Why a text is not a locator. Each part of a locator that can be refused has its own fault; the
first fault from the left is the one reported.
-/

namespace InDoubt.Locator

inductive ParseError
  | missingScheme
  | emptyHost
  | invalidPort
  | invalidIpv4
  | invalidIpv6
  | invalidDomainCharacter
  | invalidInternationalDomain
  deriving DecidableEq

def ParseError.message : ParseError → String
  | .missingScheme => "relative URL without a base"
  | .emptyHost => "empty host"
  | .invalidPort => "invalid port number"
  | .invalidIpv4 => "invalid IPv4 address"
  | .invalidIpv6 => "invalid IPv6 address"
  | .invalidDomainCharacter => "invalid domain character"
  | .invalidInternationalDomain => "invalid international domain name"

end InDoubt.Locator

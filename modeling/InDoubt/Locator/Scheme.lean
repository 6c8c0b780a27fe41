/-!
Schemes. Five of them are special: they always have a host and may have a default port. The file
scheme shares their path rules but may lack a host. All others are general.
-/

namespace InDoubt.Locator

inductive SchemeKind
  | special (defaultPort : Nat)
  | file
  | general
  deriving DecidableEq

def SchemeKind.of (scheme : List Char) : SchemeKind :=
  if scheme = "http".toList ∨ scheme = "ws".toList then .special 80
  else if scheme = "https".toList ∨ scheme = "wss".toList then .special 443
  else if scheme = "ftp".toList then .special 21
  else if scheme = "file".toList then .file
  else .general

/-- Whether a backslash separates like a slash. -/
def SchemeKind.takesBackslash : SchemeKind → Bool
  | .general => false
  | _ => true

def isSchemeChar (c : Char) : Bool := c.isAlphanum || c = '+' || c = '-' || c = '.'

/-- Tabs and line breaks, which stand for nothing wherever they are. -/
def isBreak (c : Char) : Bool := c = '\t' || c = '\n' || c = '\r'

def withoutBreaks (s : List Char) : List Char := s.filter (!isBreak ·)

/-- The scheme in lowercase, and what follows its colon with the breaks in it. -/
def splitScheme (s : List Char) : Option (List Char × List Char) :=
  match withoutBreaks (s.takeWhile (· ≠ ':')), s.dropWhile (· ≠ ':') with
  | first :: more, _ :: rest =>
      if first.isAlpha && more.all isSchemeChar then some ((first :: more).map Char.toLower, rest)
      else none
  | _, _ => none

end InDoubt.Locator

import InDoubt.Locator.FilePath

/-!
Reading a locator. Blanks and controls around the text are dropped, and so are tabs and line breaks
anywhere in it. The scheme then decides how the rest is read: special schemes have an authority
after any number of slashes, the file scheme a host after two, and general schemes an authority
after two slashes, a path of segments after one, and a path without structure after none. The main
function is `Locator.parseBy`, which is given the conversion of domains; `Locator.parse` reads with
the one for names in ASCII.
-/

namespace InDoubt.Locator

def trimmed (s : List Char) : List Char :=
  let isOuter (c : Char) : Bool := c.toNat ≤ 0x20
  ((s.dropWhile isOuter).reverse.dropWhile isOuter).reverse

/-- Whether a character ends an authority. -/
def endsAuthority (kind : SchemeKind) (c : Char) : Bool :=
  c = '/' || c = '?' || c = '#' || (kind.takesBackslash && c = '\\')

def isQueryOrFragment (c : Char) : Bool := c = '?' || c = '#'

/-- What stands before the last occurrence of an at sign, and what stands after it. -/
def splitLastAt : List Char → Option (List Char × List Char)
  | [] => none
  | c :: rest =>
      match splitLastAt rest with
      | some (before, after) => some (c :: before, after)
      | none => if c = '@' then some ([], rest) else none

/-- Username and password of the text before the at sign. -/
def credentialsOf (s : List Char) : List Char × Option (List Char) :=
  let username := percentEncode .userinfo (s.takeWhile (· ≠ ':'))
  match s.dropWhile (· ≠ ':') with
  | _ :: c :: rest => (username, some (percentEncode .userinfo (c :: rest)))
  | _ => (username, none)

/-- The host part: up to a colon that is not between brackets. -/
def splitHost (inBrackets : Bool) : List Char → List Char × List Char
  | [] => ([], [])
  | c :: rest =>
      if c = ':' ∧ !inBrackets then ([], c :: rest)
      else
        let inside := if c = '[' then true else if c = ']' then false else inBrackets
        let (host, after) := splitHost inside rest
        (c :: host, after)

/-- A port and what follows it. A backslash ends a port under every scheme. -/
def splitPort (kind : SchemeKind) (s : List Char) : Except ParseError (Option Nat × List Char) :=
  let digits := s.takeWhile Char.isDigit
  let rest := s.dropWhile Char.isDigit
  let port := (digits? 10 digits).getD 0
  if 65535 < port then .error .invalidPort
  else
    match rest with
    | c :: _ =>
        if c = '/' ∨ c = '\\' ∨ isQueryOrFragment c then
          .ok (if digits = [] ∨ kind = .special port then none else some port, rest)
        else .error .invalidPort
    | [] => .ok (if digits = [] ∨ kind = .special port then none else some port, rest)

/-- The host of an authority. -/
def hostOf (idna : Idna) (kind : SchemeKind) (s : List Char) : Except ParseError Host :=
  if kind = .general then Host.parseName s
  else if s = [] then .error .emptyHost
  else Host.parseDomain idna s

/-- Host and port, given the text from the host on; what follows them is left. -/
def hostAndPort (idna : Idna) (kind : SchemeKind) (s : List Char) :
    Except ParseError (Host × Option Nat × List Char) := do
  let stop := endsAuthority kind
  let (hostText, afterHost) := splitHost false (s.takeWhile (!stop ·))
  let host ← hostOf idna kind hostText
  match afterHost with
  | [] => return (host, none, s.dropWhile (!stop ·))
  | _ :: portText =>
      if host.isEmpty then .error .emptyHost
      else
        let (port, rest) ← splitPort kind (portText ++ s.dropWhile (!stop ·))
        return (host, port, rest)

/-- An authority and what follows it. Credentials without a host are refused. -/
def authorityOf (idna : Idna) (kind : SchemeKind) (s : List Char) :
    Except ParseError (Authority × List Char) := do
  let stop := endsAuthority kind
  let rest := s.dropWhile (!stop ·)
  match splitLastAt (s.takeWhile (!stop ·)) with
  | none =>
      let (host, port, after) ← hostAndPort idna kind s
      return (⟨[], none, host, port⟩, after)
  | some (info, afterAt) =>
      if info = [] ∧ afterAt = [] ∧ rest ≠ [] then .error .emptyHost
      else
        let (username, password) := credentialsOf info
        let (host, port, after) ← hostAndPort idna kind (afterAt ++ rest)
        if host.isEmpty ∧ (username ≠ [] ∨ password.isSome) then .error .emptyHost
        else return (⟨username, password, host, port⟩, after)

/-- The host of the file scheme. The local host is the same as none. -/
def fileHost (idna : Idna) (s : List Char) : Except ParseError Host :=
  if s = [] then .ok (.name [])
  else do
    let host ← Host.parseDomain idna s
    return if host = .name "localhost".toList then .name [] else host

/-- The authority, the path, and what follows them. -/
abbrev Hierarchy := Option Authority × Path × List Char

/-- The path after an authority, up to the query or fragment. -/
def withPath (kind : SchemeKind) (authority : Authority) (s : List Char) : Hierarchy :=
  let inPath (c : Char) : Bool := !isQueryOrFragment c
  (some authority, .afterAuthority kind (s.takeWhile inPath), s.dropWhile inPath)

def specialHierarchy (idna : Idna) (kind : SchemeKind) (s : List Char) :
    Except ParseError Hierarchy := do
  let (authority, rest) ← authorityOf idna kind (s.dropWhile (separates kind))
  return withPath kind authority rest

/-- What follows a slash in front. -/
def afterSlash (s : List Char) : Option (List Char) :=
  match s.dropWhile isBreak with
  | c :: rest => if separates .file c then some rest else none
  | [] => none

/-- A host of the file scheme with the path after it, up to the query or fragment. -/
def withFilePath (host : Host) (s : List Char) : Hierarchy :=
  let inPath (c : Char) : Bool := !isQueryOrFragment c
  let (segments, replaced) := fileSegments (s.takeWhile inPath)
  (some ⟨[], none, if replaced then .name [] else host, none⟩, .rooted segments,
    withoutBreaks (s.dropWhile inPath))

/-- After two slashes there is a host, unless it would be a drive. Only after a host that is not
empty the next slash belongs to no segment. -/
def hostedHierarchy (idna : Idna) (s : List Char) : Except ParseError Hierarchy :=
  let inHost (c : Char) : Bool := !endsAuthority .file c
  let rest := s.dropWhile inHost
  if (Drive.of? (s.takeWhile inHost)).any (·.behind.isNone) then .ok (withFilePath (.name []) s)
  else do
    let host ← fileHost idna (withoutBreaks (s.takeWhile inHost))
    return withFilePath host (if host.isEmpty then rest else (afterSlash rest).getD rest)

def fileHierarchy (idna : Idna) (s : List Char) : Except ParseError Hierarchy :=
  match afterSlash s with
  | none => .ok (withFilePath (.name []) s)
  | some path =>
      match afterSlash path with
      | none => .ok (withFilePath (.name []) path)
      | some rest => hostedHierarchy idna rest

def generalHierarchy (idna : Idna) (s : List Char) : Except ParseError Hierarchy :=
  let inPath (c : Char) : Bool := !isQueryOrFragment c
  match s with
  | '/' :: '/' :: rest => do
      let (authority, after) ← authorityOf idna .general rest
      return withPath .general authority after
  | '/' :: rest =>
      .ok (none, .rooted (segmentsOf .general (rest.takeWhile inPath)), rest.dropWhile inPath)
  | _ =>
      .ok (none, .rootless (percentEncode .controls (s.takeWhile inPath)), s.dropWhile inPath)

def hierarchyOf (idna : Idna) (kind : SchemeKind) (s : List Char) : Except ParseError Hierarchy :=
  match kind with
  | .special _ => specialHierarchy idna kind (withoutBreaks s)
  | .file => fileHierarchy idna s
  | .general => generalHierarchy idna (withoutBreaks s)

/-- The query and the fragment of what follows the path. -/
def queryAndFragment (kind : SchemeKind) (s : List Char) :
    Option (List Char) × Option (List Char) :=
  let set := if kind = .general then EncodeSet.query else EncodeSet.specialQuery
  match s with
  | '?' :: rest =>
      let query := percentEncode set (rest.takeWhile (· ≠ '#'))
      match rest.dropWhile (· ≠ '#') with
      | _ :: fragment => (some query, some (percentEncode .fragment fragment))
      | [] => (some query, none)
  | _ :: fragment => (none, some (percentEncode .fragment fragment))
  | [] => (none, none)

def parseCharsBy (idna : Idna) (s : List Char) : Except ParseError Locator := do
  match splitScheme (trimmed s) with
  | none => .error .missingScheme
  | some (scheme, rest) =>
      let kind := SchemeKind.of scheme
      let (authority, path, after) ← hierarchyOf idna kind rest
      let (query, fragment) := queryAndFragment kind after
      return ⟨scheme, authority, path, query, fragment⟩

/-- The locator that a text stands for. -/
def parseBy (idna : Idna) (s : String) : Except ParseError Locator := parseCharsBy idna s.toList

def parseChars (s : List Char) : Except ParseError Locator := parseCharsBy .ascii s

/-- The locator that a text stands for, if its domain is in ASCII without encoded labels. -/
def parse (s : String) : Except ParseError Locator := parseBy .ascii s

end InDoubt.Locator

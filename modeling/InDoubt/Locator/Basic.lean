import InDoubt.Locator.Host

/-!
Locators: where a branch of a transaction lives. A locator has a scheme, an authority unless it
names something without one, a path, and possibly a query and a fragment. Its parts hold the
characters that are written, so that writing a locator only joins them.
-/

namespace InDoubt

namespace Locator

/-- Who is addressed where. An empty password is no password, a default port is no port. -/
structure Authority where
  username : List Char
  password : Option (List Char)
  host : Host
  port : Option Nat
  deriving DecidableEq

/-- A path of segments below a root, none for the empty path, or one text without structure. -/
inductive Path
  | rooted (segments : List (List Char))
  | rootless (text : List Char)
  deriving DecidableEq

end Locator

structure Locator where
  scheme : List Char
  authority : Option Locator.Authority
  path : Locator.Path
  query : Option (List Char)
  fragment : Option (List Char)
  deriving DecidableEq

namespace Locator

def Authority.credentials (a : Authority) : List Char :=
  match a.password with
  | some password => a.username ++ ':' :: password ++ ['@']
  | none => if a.username = [] then [] else a.username ++ ['@']

def Authority.toChars (a : Authority) : List Char :=
  a.credentials ++ a.host.toChars ++
    match a.port with
    | some port => ':' :: Nat.toDigits 10 port
    | none => []

def Path.toChars : Path → List Char
  | .rooted segments => segments.flatMap ('/' :: ·)
  | .rootless text => text

/-- Whether a path without an authority would read as one: it starts with two slashes. -/
def Path.looksLikeAuthority : Path → Bool
  | .rooted ([] :: _ :: _) => true
  | _ => false

/-- The text between the scheme and the query. -/
def hierarchy (l : Locator) : List Char :=
  match l.authority with
  | some authority => '/' :: '/' :: authority.toChars ++ l.path.toChars
  | none =>
      if l.path.looksLikeAuthority then '/' :: '.' :: l.path.toChars else l.path.toChars

def toChars (l : Locator) : List Char :=
  l.scheme ++ ':' :: l.hierarchy ++
    (match l.query with
      | some query => '?' :: query
      | none => []) ++
    (match l.fragment with
      | some fragment => '#' :: fragment
      | none => [])

/-- The written form of a locator. -/
def text (l : Locator) : String := String.ofList l.toChars

end Locator

end InDoubt

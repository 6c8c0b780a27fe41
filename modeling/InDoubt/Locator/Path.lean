import InDoubt.Locator.Basic
import InDoubt.Locator.Scheme

/-!
Paths of segments. A dot segment disappears and a double-dot segment takes the one before it along,
unless that names a drive; either may be written with encoded dots, and as the last segment it
leaves an empty one.
-/

namespace InDoubt.Locator

/-- A segment with its encoded dots decoded, for recognising dot segments. -/
def plainDots : List Char → List Char
  | '%' :: '2' :: 'e' :: rest => '.' :: plainDots rest
  | '%' :: '2' :: 'E' :: rest => '.' :: plainDots rest
  | c :: rest => c :: plainDots rest
  | [] => []

def isDot (segment : List Char) : Bool := plainDots segment = ['.']

def isDoubleDot (segment : List Char) : Bool := plainDots segment = ['.', '.']

/-- Whether a segment names a drive: a letter with a colon or a bar, and nothing more unless a
backslash divides it from that. -/
def isDrive : List Char → Bool
  | letter :: mark :: rest =>
      letter.isAlpha && (mark = ':' || mark = '|') && (rest = [] || rest.head? = some '\\')
  | _ => false

/-- Takes the last segment off a stack, but no drive. -/
def leaveSegment : List (List Char) → List (List Char)
  | [] => []
  | segment :: stack => if isDrive segment then segment :: stack else stack

/-- Goes from the segments of a stack, whose head is the last one, through another segment. -/
def enter (stack : List (List Char)) (segment : List Char) : List (List Char) :=
  if isDoubleDot segment then leaveSegment stack
  else if isDot segment then stack
  else segment :: stack

/-- Puts segments after those of a stack. -/
def resolveDots : List (List Char) → List (List Char) → List (List Char)
  | stack, [] => stack
  | stack, [last] =>
      if isDoubleDot last || isDot last then [] :: enter stack last else enter stack last
  | stack, segment :: rest => resolveDots (enter stack segment) rest

def separates (kind : SchemeKind) (c : Char) : Bool := c = '/' || (kind.takesBackslash && c = '\\')

/-- The segments of what follows the first slash of a path. -/
def segmentsOf (kind : SchemeKind) (s : List Char) : List (List Char) :=
  (resolveDots [] ((splitOn (separates kind) s).map (percentEncode .path))).reverse

/-- A path after an authority, up to the query. Only a general scheme allows the empty path. -/
def Path.afterAuthority (kind : SchemeKind) (s : List Char) : Path :=
  match s with
  | [] => if kind = .general then .rooted [] else .rooted (segmentsOf kind [])
  | c :: rest => .rooted (segmentsOf kind (if separates kind c then rest else c :: rest))

end InDoubt.Locator

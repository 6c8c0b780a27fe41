import InDoubt.Locator.Parser
import InDoubt.Text.Blank
import InDoubt.Text.Lines

/-!
The content of a registry file: one record a line, each the text of a locator. Blank lines record
nothing. One bad line spoils the file, and the first one is reported.
-/

namespace InDoubt.Record

/-- The line that records a locator. -/
def encode (l : Locator) : String := l.text ++ "\n"

/-- A line that holds no locator, and why. -/
structure Malformed where
  line : String
  cause : Locator.ParseError
  deriving DecidableEq

/-- Whether a line records nothing. -/
def isBlankLine (line : List Char) : Bool := line.all Text.isBlank

def parseLineBy (idna : Locator.Idna) (line : List Char) : Except Malformed Locator :=
  match Locator.parseCharsBy idna line with
  | .ok l => .ok l
  | .error cause => .error ⟨String.ofList line, cause⟩

/-- The locators that a content records, in the order of their lines. -/
def parseBy (idna : Locator.Idna) (content : String) : Except Malformed (List Locator) :=
  ((Text.linesOf content.toList).filter (!isBlankLine ·)).mapM (parseLineBy idna)

def parseLine (line : List Char) : Except Malformed Locator := parseLineBy .ascii line

/-- The locators that a content records, if their domains are in ASCII without encoded labels. -/
def parse (content : String) : Except Malformed (List Locator) := parseBy .ascii content

end InDoubt.Record

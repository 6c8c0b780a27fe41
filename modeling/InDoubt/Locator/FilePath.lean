import InDoubt.Locator.Path

/-!
Paths under the file scheme. Such a path does not start with an empty segment unless it has no
other. A drive may stand in front of it, a letter with a colon or a bar, which is written as a
colon; it takes the place of the host. The texts here still have their breaks, since a break may
divide a drive from more text: the drive is a segment of its own then, and what follows it is a
segment even if it is a dot.
-/

namespace InDoubt.Locator

/-- Drops empty segments in front, but never the last segment. -/
def dropLeadingEmpty : List (List Char) → List (List Char)
  | [] :: segment :: rest => dropLeadingEmpty (segment :: rest)
  | segments => segments

/-- A drive in front of a path, and what a break divides from it. -/
structure Drive where
  letter : Char
  behind : Option (List Char)

/-- The segment that is written for a drive. -/
def Drive.segment (d : Drive) : List Char := [d.letter, ':']

/-- The drive that a text is or, divided by a break from more text, starts with. Only a colon is
followed by more. -/
def Drive.of? (s : List Char) : Option Drive :=
  match s.dropWhile isBreak with
  | [] => none
  | letter :: marked =>
      match marked.dropWhile isBreak with
      | [] => none
      | mark :: rest =>
          if !letter.isAlpha then none
          else if withoutBreaks rest = [] then
            if mark = ':' ∨ mark = '|' then some ⟨letter, none⟩ else none
          else if mark = ':' ∧ rest.head?.any isBreak then some ⟨letter, some (withoutBreaks rest)⟩
          else none

/-- The segment that a text stands for. -/
def segmentOf (s : List Char) : List Char := percentEncode .path (withoutBreaks s)

/-- The first drive that no segment is left in front of, and the texts behind it. -/
def leadingDrive (stack : List (List Char)) :
    List (List Char) → Option (Drive × List (List Char))
  | [] => none
  | s :: rest =>
      match if stack = [] then Drive.of? s else none with
      | some drive => some (drive, rest)
      | none => leadingDrive (enter stack (segmentOf s)) rest

/-- The segments of a path under the file scheme and whether a drive takes the place of the host,
which it does unless it is divided from more text. -/
def fileSegments (s : List Char) : List (List Char) × Bool :=
  let texts := splitOn (separates .file) s
  match leadingDrive [] texts with
  | some (drive, rest) =>
      let front := drive.behind.toList.map (percentEncode .path) ++ [drive.segment]
      ((resolveDots front (rest.map segmentOf)).reverse, drive.behind.isNone)
  | none => (dropLeadingEmpty (resolveDots [] (texts.map segmentOf)).reverse, false)

end InDoubt.Locator

/-!
What a file operation can fail with, and how each failure reads. A failure that the system reports
carries its number; a path that holds a NUL byte is refused before the system is asked.
-/

namespace InDoubt

inductive SystemError
  | nulInPath
  | notFound
  | busy
  | alreadyExists
  | notDirectory
  | isDirectory
  | invalidArgument
  | nameTooLong
  | notEmpty
  | tooManyLinks
  deriving DecidableEq

def SystemError.number? : SystemError → Option Nat
  | .nulInPath => none
  | .notFound => some 2
  | .busy => some 16
  | .alreadyExists => some 17
  | .notDirectory => some 20
  | .isDirectory => some 21
  | .invalidArgument => some 22
  | .nameTooLong => some 36
  | .notEmpty => some 39
  | .tooManyLinks => some 40

def SystemError.description : SystemError → String
  | .nulInPath => "file name contained an unexpected NUL byte"
  | .notFound => "No such file or directory"
  | .busy => "Device or resource busy"
  | .alreadyExists => "File exists"
  | .notDirectory => "Not a directory"
  | .isDirectory => "Is a directory"
  | .invalidArgument => "Invalid argument"
  | .nameTooLong => "File name too long"
  | .notEmpty => "Directory not empty"
  | .tooManyLinks => "Too many levels of symbolic links"

def SystemError.message (e : SystemError) : String :=
  match e.number? with
  | some number => e.description ++ " (os error " ++ toString number ++ ")"
  | none => e.description

end InDoubt

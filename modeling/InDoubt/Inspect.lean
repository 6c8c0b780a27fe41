import InDoubt.Config
import InDoubt.RegistryFile

/-!
The inspection of a recovery directory. `list` shows every registry file with its locators, `verify`
says of each whether it can be read. Both only read; neither takes a file from anybody. The help
that the program can print is left out.
-/

namespace InDoubt.Inspect

inductive Command
  | list
  | verify
  deriving DecidableEq

/-- What the arguments of the program ask for. -/
inductive Request
  | version
  | usageError
  | run (baseDir : String) (command : Command)
  deriving DecidableEq

/-- What the program prints, and the code it exits with. -/
structure Report where
  exitCode : UInt8
  output : String
  deriving DecidableEq

def versionLine : String := "xaregistry-inspect 0.1.0\n"

/-- What an option that must have a value takes from the argument that follows it. -/
def isValue (arg : String) : Bool := arg = "-" || !(arg.startsWith "-" || arg.isEmpty)

def shortOption : List Char := "-b".toList

def longOption : List Char := "--base-dir=".toList

/-- The value of a base directory option that is written in one argument with it. -/
def attached? (arg : List Char) : Option String :=
  if longOption.isPrefixOf arg then some (String.ofList (arg.drop longOption.length))
  else if shortOption.isPrefixOf arg then
    match arg.drop shortOption.length with
    | '=' :: value => some (String.ofList value)
    | value => some (String.ofList value)
  else none

def Command.ofName? (name : String) : Option Command :=
  if name = "list" then some .list else if name = "verify" then some .verify else none

/-- Whether nothing more is asked for after the subcommand. The mark that ends options may stand
there once. -/
def endsArguments (args : List String) : Bool := args = [] || args = ["--"]

/-- Reads arguments. The base directory may be given once, before the subcommand. Arguments that ask
for help (`--help`, `-h`, `help`) count as a usage error. -/
def requestFrom (baseDir : Option String) : List String → Request
  | [] => .usageError
  | arg :: rest =>
      match Command.ofName? arg with
      | some command =>
          if endsArguments rest then .run (baseDir.getD ".") command else .usageError
      | none =>
          if arg = "-b" ∨ arg = "--base-dir" then
            match baseDir, rest with
            | none, value :: others =>
                if isValue value then requestFrom (some value) others else .usageError
            | _, _ => .usageError
          else if arg = "--version" ∨ arg.startsWith "-V" then .version
          else
            match baseDir, attached? arg.toList with
            | none, some value =>
                if value.isEmpty then .usageError else requestFrom (some value) rest
            | _, _ => .usageError

def request (args : List String) : Request := requestFrom none args

/-- How a fault is shown: the cause of a failed reading, the whole message of a bad record. -/
def faultText : Failure → String
  | .readFailed _ cause => cause.message
  | f => f.message

/-- The line that heads a file. -/
def heading (name : String) : String :=
  match Xid.parse name with
  | .ok xid =>
      name ++ " (format " ++ toString xid.formatId.toInt ++ ", gtrid " ++
        toString xid.gtrid.length ++ " bytes, bqual " ++ toString xid.bqual.length ++ " bytes)"
  | .error _ => name ++ " (not an xid)"

/-- The lines that show what a file holds. -/
def listing : Except Failure (List Locator) → List String
  | .ok [] => ["    <empty>"]
  | .ok locators => locators.map fun l => "    " ++ l.text
  | .error f => ["    error: " ++ faultText f]

/-- The line that judges a file. -/
def verdict (name : String) : Except Failure (List Locator) → String
  | .ok locators => "ok       " ++ name ++ " (" ++ toString locators.length ++ " locators)"
  | .error f => "MALFORMED " ++ name ++ ": " ++ faultText f

def isFault : Except Failure (List Locator) → Bool
  | .ok _ => false
  | .error _ => true

def unlines (lines : List String) : String := String.join (lines.map (· ++ "\n"))

/-- The named files of a directory with what reading each gives. -/
def readAll (fs : FileSystem) (dir : String) (names : List String) :
    List (String × Except Failure (List Locator)) :=
  names.map fun name => (name, fs.readRecords (joinPath dir name))

def list (files : List (String × Except Failure (List Locator))) : Report :=
  if files.isEmpty then ⟨0, "no registry files\n"⟩
  else ⟨0, unlines (files.flatMap fun (name, held) => heading name :: listing held)⟩

def verify (files : List (String × Except Failure (List Locator))) : Report :=
  let faults := files.countP fun (_, held) => isFault held
  let summary := toString files.length ++ " files, " ++ toString faults ++ " malformed"
  ⟨if faults = 0 then 0 else 1,
    unlines (files.map (fun (name, held) => verdict name held) ++ [summary])⟩

/-- A subcommand on the recovery directory under a base directory. -/
def perform (fs : FileSystem) (baseDir : String) (command : Command) : Report :=
  let dir := recoveryDir baseDir
  match fs.registryFiles dir with
  | .error _ => ⟨1, ""⟩
  | .ok names =>
      match command with
      | .list => list (readAll fs dir names)
      | .verify => verify (readAll fs dir names)

/-- The program as a function of its arguments and the files. -/
def inspect (fs : FileSystem) (args : List String) : Report :=
  match request args with
  | .version => ⟨0, versionLine⟩
  | .usageError => ⟨2, ""⟩
  | .run baseDir command => perform fs baseDir command

end InDoubt.Inspect

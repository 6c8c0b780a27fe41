import InDoubt.FileSystem.Error
import InDoubt.Record
import InDoubt.Xid

/-!
What an operation of a recovery log can fail with. A failure names the file or directory concerned
and the cause; its message is made of these. Only a failed deletion maps onto a code of the
transaction protocol: the resource manager could not complete a branch.
-/

namespace InDoubt

/-- Why an operation on a registry file did not succeed. -/
inductive Cause
  | system (e : SystemError)
  | notUtf8
  | alreadyOpen
  | fileClosed
  deriving DecidableEq

def Cause.message : Cause → String
  | .system e => e.message
  | .notUtf8 => "stream did not contain valid UTF-8"
  | .alreadyOpen => "a registry is already open for this transaction"
  | .fileClosed => "recovery file already closed"

inductive Failure
  | createFailed (path : String) (cause : Cause)
  | appendFailed (locator : Locator) (path : String) (cause : Cause)
  | deleteFailed (path : String) (branch : String) (cause : Cause)
  | readFailed (path : String) (cause : Cause)
  | malformedRecord (path : String) (record : Record.Malformed)
  | listFailed (path : String) (cause : Cause)
  | invalidXid (fault : Xid.Fault)
  | registriesOpen (count : Nat)
  deriving DecidableEq

/-- The codes of the transaction protocol that a failure can map onto. -/
inductive XaCode
  | resourceManagerError
  deriving DecidableEq

def XaCode.number : XaCode → Int
  | .resourceManagerError => -3

def XaCode.name : XaCode → String
  | .resourceManagerError => "XAER_RMERR(" ++ toString XaCode.resourceManagerError.number ++ ")"

namespace Failure

/-- The file or directory concerned. -/
def path? : Failure → Option String
  | .createFailed path _ | .appendFailed _ path _ | .deleteFailed path _ _ | .readFailed path _
  | .malformedRecord path _ | .listFailed path _ => some path
  | .invalidXid _ | .registriesOpen _ => none

def code? : Failure → Option XaCode
  | .deleteFailed _ _ _ => some .resourceManagerError
  | _ => none

def message : Failure → String
  | .createFailed path cause =>
      "failed to create recovery file " ++ path ++ ": " ++ cause.message
  | .appendFailed locator path cause =>
      "failed to append " ++ locator.text ++ " to recovery file " ++ path ++ ": " ++ cause.message
  | .deleteFailed path branch cause =>
      XaCode.resourceManagerError.name ++ ": failed to delete recovery file " ++ path ++ " for " ++
        branch ++ ": " ++ cause.message
  | .readFailed path cause => "failed to read recovery file " ++ path ++ ": " ++ cause.message
  | .malformedRecord path record =>
      "malformed record " ++ Text.quoted record.line ++ " in recovery file " ++ path ++ ": " ++
        record.cause.message
  | .listFailed path cause =>
      "failed to list recovery directory " ++ path ++ ": " ++ cause.message
  | .invalidXid fault => "Invalid xid: " ++ fault.message
  | .registriesOpen count =>
      "Configuration error: cannot move recovery directory while " ++ toString count ++
        " registries are open"

end Failure

end InDoubt

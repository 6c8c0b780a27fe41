import InDoubt.Text.Utf8
import InDoubt.Text.Hex
import InDoubt.Text.Quoted

/-!
Identifiers of transaction branches. The name of a branch is its bytes in hexadecimal: four bytes
of format identifier, the length of the global transaction identifier, that identifier, and the
branch qualifier up to the end. The name serves as the name of the branch's registry file.

Only the two size limits restrict an identifier. Reading takes digits of either case, so a name in
other than uppercase reads as an identifier whose own name differs from it.
-/

namespace InDoubt

/-- The most bytes a global transaction identifier or a branch qualifier may have. -/
def Xid.maxPart : Nat := 64

structure Xid where
  formatId : Int32
  gtrid : Bytes
  bqual : Bytes
  gtrid_le : gtrid.length ≤ Xid.maxPart
  bqual_le : bqual.length ≤ Xid.maxPart
  deriving DecidableEq

namespace Xid

/-- Why a text or a pair of parts is not an identifier. -/
inductive Fault
  | oddDigits (text : String)
  | notHex (text : String)
  | tooShort (text : String)
  | overrun (text : String) (declared held : Nat)
  | gtridTooLong (size : Nat)
  | bqualTooLong (size : Nat)
  deriving DecidableEq

def Fault.message : Fault → String
  | .oddDigits text => Text.quoted text ++ " has an odd number of hex digits"
  | .notHex text => Text.quoted text ++ " is not valid hex"
  | .tooShort text => Text.quoted text ++ " is too short to hold a format id and length"
  | .overrun text declared held =>
      Text.quoted text ++ " declares " ++ toString declared ++ " gtrid bytes but holds " ++
        toString held
  | .gtridTooLong size =>
      "global transaction id is " ++ toString size ++ " bytes (max " ++ toString maxPart ++ ")"
  | .bqualTooLong size =>
      "branch qualifier is " ++ toString size ++ " bytes (max " ++ toString maxPart ++ ")"

/-- The identifier with these parts. If both are too long the global one is reported. -/
def make (formatId : Int32) (gtrid bqual : Bytes) : Except Fault Xid :=
  if hg : gtrid.length ≤ maxPart then
    if hb : bqual.length ≤ maxPart then
      .ok ⟨formatId, gtrid, bqual, hg, hb⟩
    else .error (.bqualTooLong bqual.length)
  else .error (.gtridTooLong gtrid.length)

/-- The four bytes of a format identifier, the most significant first. -/
def formatBytes (formatId : Int32) : Bytes :=
  let n := formatId.toUInt32.toNat
  [.ofNat (n / 256 / 256 / 256), .ofNat (n / 256 / 256), .ofNat (n / 256), .ofNat n]

def toBytes (x : Xid) : Bytes :=
  formatBytes x.formatId ++ [.ofNat x.gtrid.length] ++ x.gtrid ++ x.bqual

/-- The name of a branch. -/
def name (x : Xid) : String := String.ofList (Hex.encode x.toBytes)

/-- The identifier that a sequence of bytes stands for; `text` is what the fault quotes. -/
def ofBytes (text : String) : Bytes → Except Fault Xid
  | a :: b :: c :: d :: size :: rest =>
      if rest.length < size.toNat then
        .error (.overrun text size.toNat rest.length)
      else
        let n := ((a.toNat * 256 + b.toNat) * 256 + c.toNat) * 256 + d.toNat
        make (UInt32.ofNat n).toInt32 (rest.take size.toNat) (rest.drop size.toNat)
  | _ => .error (.tooShort text)

/-- The identifier with a given name. Parity is judged on bytes, before any digit is read. -/
def parse (text : String) : Except Fault Xid :=
  if text.utf8ByteSize % 2 = 0 then
    match Hex.decode? text.toList with
    | some bytes => ofBytes text bytes
    | none => .error (.notHex text)
  else .error (.oddDigits text)

end Xid

end InDoubt

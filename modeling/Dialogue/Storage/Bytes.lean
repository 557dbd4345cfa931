import Dialogue.Text.Quoted
import Dialogue.Text.Utf8
/-!
Numbers, texts and lists as bytes.

A number below 251 is one byte.  A larger one follows a mark that tells its width: 251 for two
bytes, 252 for four, 253 for eight, the lowest byte first.  Numbers with a sign are first folded
onto numbers without one (0, -1, 1, -2, … become 0, 1, 2, 3, …).  Texts and lists begin with their
length.

A reader takes bytes from the front of a list and returns the rest.
-/

namespace Dialogue.Storage

/-! ## Writing -/

/-- The lowest `width` bytes of `n`, the lowest one first. -/
def littleEndian : (width : Nat) → (n : Nat) → List UInt8
  | 0, _ => []
  | width + 1, n => UInt8.ofNat n :: littleEndian width (n / 256)

/-- A number without sign. -/
def writeNat (n : Nat) : List UInt8 :=
  if n < 251 then [UInt8.ofNat n]
  else if n < UInt16.size then 251 :: littleEndian 2 n
  else if n < UInt32.size then 252 :: littleEndian 4 n
  else 253 :: littleEndian 8 n

/-- Folds the numbers with a sign onto those without one. -/
def foldSign (z : Int) : Nat :=
  if 0 ≤ z then 2 * z.toNat else 2 * (-z).toNat - 1

/-- The inverse of `foldSign`. -/
def unfoldSign (n : Nat) : Int :=
  if n % 2 = 0 then ((n / 2 : Nat) : Int) else -((n / 2 : Nat) : Int) - 1

/-- A number with a sign. -/
def writeInt (z : Int64) : List UInt8 :=
  writeNat (foldSign z.toInt)

/-- A truth value. -/
def writeBool (b : Bool) : List UInt8 :=
  [if b then 1 else 0]

/-- A text. -/
def writeText (s : String) : List UInt8 :=
  let bytes := Text.encodeUtf8 s
  writeNat bytes.length ++ bytes

/-! ## Reading -/

/-- Why bytes could not be read. -/
inductive Fault
  /-- The input ends, and this many bytes are missing for what is being read. -/
  | unexpectedEnd (missing : Nat)
  /-- The mark of a number is too wide, or no mark. -/
  | badNumber
  /-- A truth value that is neither 0 nor 1. -/
  | badBool (byte : UInt8)
  /-- A number that stands for none of `count` alternatives. -/
  | badAlternative (n count : Nat)
  /-- A text that is not UTF-8. -/
  | badText (fault : Text.Utf8Fault)
deriving DecidableEq

/-- What a person is told about a fault. -/
def Fault.message : Fault → String
  | unexpectedEnd missing => "UnexpectedEnd \x7b additional: " ++ toString missing ++ " \x7d"
  | badNumber => "InvalidIntegerType"
  | badBool byte => "InvalidBooleanValue(" ++ toString byte.toNat ++ ")"
  | badAlternative n count =>
    "OtherString(" ++ Text.quote ("invalid value: integer `" ++ toString n ++
      "`, expected variant index 0 <= i < " ++ toString count) ++ ")"
  | badText fault =>
    "Utf8 \x7b inner: Utf8Error \x7b valid_up_to: " ++ toString fault.validUpTo ++
      ", error_len: " ++
      (match fault.errorLength with
        | some n => "Some(" ++ toString n ++ ")"
        | none => "None") ++ " \x7d \x7d"

/-- Takes bytes from the front of a list and returns the rest with the result. -/
abbrev Reader := StateT (List UInt8) (Except Fault)

/-- The next `n` bytes. -/
def take (n : Nat) : Reader (List UInt8) := fun bytes =>
  let piece := bytes.take n
  if piece.length < n then .error (.unexpectedEnd (n - piece.length))
  else .ok (piece, bytes.drop n)

/-- The next byte. -/
def readByte : Reader UInt8
  | [] => .error (.unexpectedEnd 1)
  | b :: bytes => .ok (b, bytes)

/-- The number that bytes stand for, the lowest byte first. -/
def ofLittleEndian : List UInt8 → Nat
  | [] => 0
  | b :: bytes => b.toNat + 256 * ofLittleEndian bytes

/-- A number without sign of at most `width` bytes.  A mark may be wider than the number needs. -/
def readNat (width : Nat) : Reader Nat := do
  let b ← readByte
  if b < 251 then return b.toNat
  let bytes := if b == 251 then 2 else if b == 252 then 4 else 8
  if 253 < b || width < bytes then throw .badNumber
  return ofLittleEndian (← take bytes)

/-- A number of four bytes. -/
def readWord : Reader UInt32 :=
  UInt32.ofNat <$> readNat 4

/-- A length. -/
def readLength : Reader Nat :=
  readNat 8

/-- A number with a sign. -/
def readInt : Reader Int64 :=
  (fun n => Int64.ofInt (unfoldSign n)) <$> readNat 8

/-- A truth value. -/
def readBool : Reader Bool := do
  let b ← readByte
  if b == 0 then return false
  else if b == 1 then return true
  else throw (.badBool b)

/-- A text. -/
def readText : Reader String := do
  let bytes ← take (← readLength)
  match Text.decodeUtf8 bytes with
  | .ok s => return s
  | .error fault => throw (.badText fault)

/-- `count` items, one after the other. -/
def readItems {α : Type} (item : Reader α) : (count : Nat) → Reader (List α)
  | 0 => return []
  | count + 1 => do
    let first ← item
    let rest ← readItems item count
    return first :: rest

/-- A list: its length, then its items. -/
def readList {α : Type} (item : Reader α) : Reader (List α) := do
  readItems item (← readLength)

end Dialogue.Storage

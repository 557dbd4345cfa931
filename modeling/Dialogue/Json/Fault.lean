import Dialogue.Json.Printer
import Dialogue.Text.Quoted
/-!
What can be wrong with a JSON text.

A text is read once from left to right, and the first fault ends the reading.  So there are faults
of the syntax and faults of the content (a value of the wrong type, a member that is missing or
stands twice) side by side in one type.
-/

namespace Dialogue.Json

/-- What was asked for. -/
inductive Expected
  | text
  | flag
  | list
  | dict
  /-- A number without sign of 32 bits. -/
  | word
  /-- A number with sign of 64 bits. -/
  | int
  /-- The record with this name. -/
  | record (name : String)
deriving DecidableEq

/-- What was asked for, in words. -/
def Expected.phrase : Expected → String
  | text => "a string"
  | flag => "a boolean"
  | list => "a sequence"
  | dict => "a map"
  | word => "u32"
  | int => "i64"
  | record name => "struct " ++ name

/-- What was found instead. -/
inductive Found
  | null
  | bool (value : Bool)
  | num (value : JsonNumber)
  | text (value : String)
  | list
  | dict
deriving DecidableEq

/-- What was found, in words. -/
def Found.phrase : Found → String
  | null => "null"
  | bool b => "boolean `" ++ String.ofList (writeBool b) ++ "`"
  | num (.int n) => "integer `" ++ toString n ++ "`"
  | num (.float x) => "floating point `" ++ String.ofList (writeFloat x) ++ "`"
  | text s => "string " ++ Text.quote s
  | list => "sequence"
  | dict => "map"

/-- What a value is found to be. -/
def found : Json → Found
  | null => .null
  | bool b => .bool b
  | num n => .num n
  | str s => .text s
  | arr _ => .list
  | obj _ => .dict

/-- What is wrong with a JSON text. -/
inductive Fault
  /-- The text ends where a value should stand. -/
  | endInValue
  | endInList
  | endInObject
  | endInText
  | expectedValue
  /-- A word that begins like `null`, `true` or `false`. -/
  | expectedWord
  | expectedColon
  | expectedListComma
  | expectedObjectComma
  | keyNotText
  | trailingComma
  | trailingCharacters
  | badNumber
  /-- A number that is too large for a double. -/
  | numberTooLarge
  | badEscape
  | controlCharacter
  /-- One half of a surrogate pair without the other. -/
  | loneSurrogate
  /-- The first half of a surrogate pair that no escape follows. -/
  | brokenPair
  /-- Containers that are nested too deep. -/
  | tooDeep
  | missingField (name : String)
  | duplicateField (name : String)
  | wrongType (found : Found) (expected : Expected)
  | outOfRange (found : Found) (expected : Expected)
  /-- A list of values for a record of which the one at `position` is missing. -/
  | tooShort (position : Nat) (name : String) (fields : Nat)
deriving DecidableEq

/-- What a person is told about a fault. -/
def Fault.message : Fault → String
  | endInValue => "EOF while parsing a value"
  | endInList => "EOF while parsing a list"
  | endInObject => "EOF while parsing an object"
  | endInText => "EOF while parsing a string"
  | expectedValue => "expected value"
  | expectedWord => "expected ident"
  | expectedColon => "expected `:`"
  | expectedListComma => "expected `,` or `]`"
  | expectedObjectComma => "expected `,` or `\x7d`"
  | keyNotText => "key must be a string"
  | trailingComma => "trailing comma"
  | trailingCharacters => "trailing characters"
  | badNumber => "invalid number"
  | numberTooLarge => "number out of range"
  | badEscape => "invalid escape"
  | controlCharacter => "control character (\\u0000-\\u001F) found while parsing a string"
  | loneSurrogate => "lone leading surrogate in hex escape"
  | brokenPair => "unexpected end of hex escape"
  | tooDeep => "recursion limit exceeded"
  | missingField name => "missing field `" ++ name ++ "`"
  | duplicateField name => "duplicate field `" ++ name ++ "`"
  | wrongType found expected =>
    "invalid type: " ++ found.phrase ++ ", expected " ++ expected.phrase
  | outOfRange found expected =>
    "invalid value: " ++ found.phrase ++ ", expected " ++ expected.phrase
  | tooShort position name fields =>
    "invalid length " ++ toString position ++ ", expected " ++ (Expected.record name).phrase ++
      " with " ++ toString fields ++ (if fields = 1 then " element" else " elements")

end Dialogue.Json

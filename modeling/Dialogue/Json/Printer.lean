import Dialogue.Decimal.Shortest
import Dialogue.Json.Value
/-!
JSON text.

There are two forms: `compact` without any space, and `pretty` with one item a line, two spaces for
each level, and empty arrays and objects closed at once.  In a text only the quote, the backslash
and the characters below U+0020 are escaped.
-/

namespace Dialogue.Json

/-- A digit of a number in base 16, lower case. -/
def hexDigit (n : Nat) : Char :=
  Nat.digitChar (n % 16)

/-- One character of a text. -/
def escapeChar (c : Char) : List Char :=
  match c with
  | '"' => ['\\', '"']
  | '\\' => ['\\', '\\']
  | '\x08' => ['\\', 'b']
  | '\x0c' => ['\\', 'f']
  | '\n' => ['\\', 'n']
  | '\r' => ['\\', 'r']
  | '\t' => ['\\', 't']
  | c =>
    if c.toNat < 0x20 then ['\\', 'u', '0', '0', hexDigit (c.toNat / 16), hexDigit c.toNat]
    else [c]

/-- A text between quotes. -/
def writeText (s : String) : List Char :=
  '"' :: (s.toList.flatMap escapeChar ++ ['"'])

/-- The digits of a number that is not zero, with the exponent of the first digit.  Exponents from
-5 to 15 are written out with at least one decimal; others follow the letter `e` with their sign. -/
def writeDigits (digits : List Char) (exponent : Int) : List Char :=
  if 0 ≤ exponent ∧ exponent ≤ 15 then
    let whole := exponent.toNat + 1
    let fraction := digits.drop whole
    digits.take whole ++ List.replicate (whole - digits.length) '0' ++
      '.' :: (if fraction.isEmpty then ['0'] else fraction)
  else if -5 ≤ exponent ∧ exponent < 0 then
    '0' :: '.' :: (List.replicate ((-exponent).toNat - 1) '0' ++ digits)
  else
    let mantissa := match digits with
      | [] => []
      | [d] => [d]
      | d :: rest => d :: '.' :: rest
    let sign := if exponent < 0 then '-' else '+'
    mantissa ++ 'e' :: sign :: Nat.toDigits 10 exponent.natAbs

/-- A finite double, by the shortest digits that read back. -/
def writeFloat (x : Float) : List Char :=
  let bits := x.toBits
  let sign := if bits < 0x8000000000000000 then [] else ['-']
  let binary := Binary.ofBits bits
  if binary.significand = 0 then sign ++ ['0', '.', '0']
  else
    let (digits, exponent) := binary.shortest.scientific
    sign ++ writeDigits digits exponent

/-- A number. -/
def writeNumber : JsonNumber → List Char
  | .int n => (toString n).toList
  | .float x => writeFloat x

/-- The words `true` and `false`. -/
def writeBool (b : Bool) : List Char :=
  (if b then "true" else "false").toList

mutual

/-- A value without spaces. -/
def write : Json → List Char
  | null => ['n', 'u', 'l', 'l']
  | bool b => writeBool b
  | num n => writeNumber n
  | str s => writeText s
  | arr items => '[' :: (writeItems items ++ [']'])
  | obj members => '{' :: (writeMembers members ++ ['}'])

/-- The items of an array, without its brackets. -/
def writeItems : List Json → List Char
  | [] => []
  | [item] => write item
  | item :: more => write item ++ ',' :: writeItems more

/-- The members of an object, without its braces. -/
def writeMembers : List (String × Json) → List Char
  | [] => []
  | [(key, value)] => writeText key ++ ':' :: write value
  | (key, value) :: more => writeText key ++ ':' :: (write value ++ ',' :: writeMembers more)

end

/-- The start of a line at depth `depth`. -/
def newline (depth : Nat) : List Char :=
  '\n' :: List.replicate (2 * depth) ' '

mutual

/-- A value with one item a line, which itself stands at depth `depth`. -/
def writePretty (depth : Nat) : Json → List Char
  | null => ['n', 'u', 'l', 'l']
  | bool b => writeBool b
  | num n => writeNumber n
  | str s => writeText s
  | arr [] => ['[', ']']
  | arr (item :: more) =>
    '[' :: (newline (depth + 1) ++ writePretty (depth + 1) item ++
      writePrettyItems (depth + 1) more ++ newline depth ++ [']'])
  | obj [] => ['{', '}']
  | obj ((key, value) :: more) =>
    '{' :: (newline (depth + 1) ++ writeText key ++ ':' :: ' ' ::
      (writePretty (depth + 1) value ++
        writePrettyMembers (depth + 1) more ++ newline depth ++ ['}']))

/-- The items after the first one. -/
def writePrettyItems (depth : Nat) : List Json → List Char
  | [] => []
  | item :: more =>
    ',' :: (newline depth ++ writePretty depth item ++ writePrettyItems depth more)

/-- The members after the first one. -/
def writePrettyMembers (depth : Nat) : List (String × Json) → List Char
  | [] => []
  | (key, value) :: more =>
    ',' :: (newline depth ++ writeText key ++ ':' :: ' ' ::
      (writePretty depth value ++ writePrettyMembers depth more))

end

/-- The text of a value without spaces. -/
def compact (j : Json) : String :=
  String.ofList j.write

/-- The text of a value with one item a line. -/
def pretty (j : Json) : String :=
  String.ofList (j.writePretty 0)

end Dialogue.Json

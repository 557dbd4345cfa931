import Dialogue.Text.Visible
/-!
Texts in quotes, as listings and messages show them.

A quoted text stands between double quotes.  A backslash marks a quote, a backslash, a line feed, a
carriage return, a tabulator and the character with number zero; any other character that is not
visible is given by its number in hexadecimal.  Every character that is written is visible, so a
quoted text never breaks a line.
-/

namespace Dialogue.Text

/-- A number in hexadecimal, lower case and without leading zeros. -/
def hexadecimal (n : Nat) : String :=
  String.ofList (Nat.toDigits 16 n)

/-- One character of a quoted text. -/
def quoteChar (c : Char) : String :=
  match c with
  | '"' => "\\\""
  | '\\' => "\\\\"
  | '\n' => "\\n"
  | '\r' => "\\r"
  | '\t' => "\\t"
  | '\x00' => "\\0"
  | c => if isVisible c then c.toString else "\\u\x7b" ++ hexadecimal c.toNat ++ "\x7d"

/-- A text in quotes. -/
def quote (s : String) : String :=
  "\"" ++ String.join (s.toList.map quoteChar) ++ "\""

end Dialogue.Text

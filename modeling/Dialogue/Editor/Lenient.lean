import Dialogue.Decimal.Rounding
import Dialogue.Json.Lexer
import Dialogue.Text.Blank
/-!
Numbers and truth values from whatever a form holds.

The editor saves the content of an input field as a number, a truth value or a text, as it comes.
Nothing is refused here: what makes no sense counts as zero, or as true.
-/

namespace Dialogue.Editor

/-- The number that a list of digits stands for. -/
def naturalOf? (cs : List Char) : Option Nat :=
  if cs.isEmpty || !cs.all Char.isDigit then none else some (Json.digitsValue cs)

/-- A number of 64 bits, if it is one. -/
def word? (z : Int) : Option Int64 :=
  if Int64.minValue.toInt ≤ z && z ≤ Int64.maxValue.toInt then some (Int64.ofInt z) else none

theorem word?_eq_some_iff {z : Int} {w : Int64} : word? z = some w ↔ w.toInt = z := by
  constructor
  · intro h
    obtain ⟨hfits, hw⟩ := Option.ite_none_right_eq_some.1 h
    obtain ⟨hmin, hmax⟩ := Bool.and_eq_true_iff.1 hfits
    rw [← Option.some.inj hw]
    exact Int64.toInt_ofInt_of_le (of_decide_eq_true hmin)
      (Int.lt_add_one_of_le (of_decide_eq_true hmax))
  · rintro rfl
    have hmin := decide_eq_true w.minValue_le_toInt
    have hmax := decide_eq_true w.toInt_le
    rw [word?, if_pos (Bool.and_eq_true_iff.2 ⟨hmin, hmax⟩), Int64.ofInt_toInt]

/-- The number of 64 bits that is nearest to `z`. -/
def saturate (z : Int) : Int64 :=
  if z < Int64.minValue.toInt then Int64.minValue
  else if Int64.maxValue.toInt < z then Int64.maxValue
  else Int64.ofInt z

/-- The number of 64 bits that a text stands for: digits, with a sign if need be, and nothing
else. -/
def int64Of? : List Char → Option Int64
  | '-' :: ds => (naturalOf? ds).bind fun n => word? (-n)
  | '+' :: ds => (naturalOf? ds).bind fun n => word? n
  | ds => (naturalOf? ds).bind fun n => word? n

/-- The number that a value stands for.  A number with a fraction loses it.  A number that has not
64 bits is taken as a double, and if it is too large or too small it becomes the largest or the
smallest one. -/
def lenientInt : Option Json → Int64
  | some (.num (.int n)) => (word? n).getD (saturate (asDouble n))
  | some (.num (.float x)) => x.toInt64
  | some (.str s) => (int64Of? (Text.trimChars s.toList)).getD 0
  | _ => 0

/-- The truth value that a value stands for: everything is true but `false`, the whole number 0 and
the words for them. -/
def lenientBool : Option Json → Bool
  | some (.bool b) => b
  | some (.num (.int n)) => n != 0
  | some (.str s) =>
    match Text.lowerAscii (Text.trim s) with
    | "off" | "false" | "0" => false
    | _ => true
  | _ => true

end Dialogue.Editor

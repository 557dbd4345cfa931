import Dialogue.Text.Blank
/-!
Conditions on the state of the game.

A condition asks for a switch, compares a variable with a number, or is an expression of the
engine's script language.  In a program all three are expressions (`Condition.expression`).
-/

namespace Dialogue

/-- How two numbers are compared. -/
inductive Comparison
  | equal
  | notEqual
  | greater
  | less
  | greaterOrEqual
  | lessOrEqual
deriving DecidableEq

namespace Comparison

/-- Reads an operator.  What is no operator stands for equality. -/
def parse (s : String) : Comparison :=
  match Text.trim s with
  | "!=" => notEqual
  | ">" => greater
  | "<" => less
  | ">=" => greaterOrEqual
  | "<=" => lessOrEqual
  | _ => equal

/-- The operator in the script language. -/
def symbol : Comparison → String
  | equal => "=="
  | notEqual => "!="
  | greater => ">"
  | less => "<"
  | greaterOrEqual => ">="
  | lessOrEqual => "<="

end Comparison

/-- A condition on the state of the game. -/
inductive Condition
  /-- Switch `id` is on, or off. -/
  | switch (id : UInt32) (on : Bool)
  /-- Variable `id` compares to `value` as said. -/
  | compare (id : UInt32) (comparison : Comparison) (value : Int64)
  /-- An expression of the script language; without one the condition always holds. -/
  | script (expression : Option String)
deriving DecidableEq

namespace Condition

/-- The condition that always holds. -/
def always : Condition := .script none

/-- The expression of the script language that a condition stands for.  An expression of blanks only
counts as none. -/
def expression : Condition → String
  | switch id on =>
    "$gameSwitches.value(" ++ toString id.toNat ++ ") === " ++ (if on then "true" else "false")
  | compare id comparison value =>
    "$gameVariables.value(" ++ toString id.toNat ++ ") " ++ comparison.symbol ++ " " ++
      toString value.toInt
  | script (some s) => if Text.trim s = "" then "true" else s
  | script none => "true"

end Condition

end Dialogue

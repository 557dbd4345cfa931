import Dialogue.Graph.Menu
import Dialogue.Json.Printer
/-!
The script behind a menu whose choices depend on the state of the game.

The script fills two arrays of the same length: the texts of the choices that are shown, and for
each of them its place among the choices of the menu.  The window answers with a place in the first
array; the callback looks it up in the second one and leaves the result in a variable of the game.
-/

namespace Dialogue

/-- The variable of the game that holds the player's choice. -/
def choiceVariable : UInt32 := 99

/-- What the variable holds after the window was cancelled. -/
def cancelledChoice : Int64 := -1

/-- What a compiler may be told. -/
structure Options where
  /-- What stands before the text of a choice that is disabled. -/
  disabledMark : String := "\\C[8]"
deriving DecidableEq

/-- A text as a literal of the script language. -/
def literal (s : String) : String :=
  (Json.str s).compact

/-- The condition that the player took the choice `selection`. -/
def selectionCondition (selection : Int64) : Condition :=
  .compare choiceVariable .equal selection

/-- The line that offers the choice at `index`. -/
def Choice.offer (disabledMark : String) (index : Nat) (c : Choice) : String :=
  let shown := match c.disable with
    | some condition =>
      "(" ++ condition.expression ++ ") ? " ++ literal (disabledMark ++ c.text) ++ " : " ++
        literal c.text
    | none => literal c.text
  let push := "choices.push(" ++ shown ++ "); map.push(" ++ toString index ++ ");"
  match c.hide with
  | some condition => "if (!(" ++ condition.expression ++ ")) \x7b " ++ push ++ " \x7d"
  | none => push

/-- The code for cancelling, as an expression of the script language. -/
def CancelMode.expression : CancelMode → String
  | disallow => "-1"
  | branch => "-2"
  | lastChoice => "choices.length - 1"

/-- The lines of the script that sets up a menu. -/
def Menu.scriptLines (m : Menu) (disabledMark : String) : List String :=
  ["const choices = [];", "const map = [];"] ++ m.choices.mapIdx (Choice.offer disabledMark) ++
    ["$gameMessage.setChoices(choices, 0, " ++ m.cancel.expression ++ ");",
      "$gameMessage.setChoicePositionType(" ++ toString m.position.toInt ++ ");",
      "$gameMessage.setChoiceBackground(" ++ toString m.background.toInt ++ ");",
      "$gameMessage.setChoiceCallback(n => $gameVariables.setValue(" ++
        toString choiceVariable.toNat ++ ", n >= 0 ? map[n] : " ++
        toString cancelledChoice.toInt ++ "));"]

/-- The script that sets up a menu. -/
def Menu.script (m : Menu) (disabledMark : String) : String :=
  String.intercalate "\n" (m.scriptLines disabledMark)

end Dialogue

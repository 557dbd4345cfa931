import Dialogue.Graph.Action
import Dialogue.Graph.Condition
/-!
Menus: windows in which the player chooses how a dialogue goes on.
-/

namespace Dialogue

/-- What happens when the player cancels a menu. -/
inductive CancelMode
  /-- A menu cannot be cancelled. -/
  | disallow
  /-- A branch of its own. -/
  | branch
  /-- The same as the last choice. -/
  | lastChoice
deriving DecidableEq

/-- The number by which the engine knows the mode, for a menu with `choices` choices. -/
def CancelMode.code (choices : Nat) : CancelMode → Int64
  | disallow => -1
  | branch => -2
  | lastChoice => Int64.ofNat choices - 1

/-- One choice of a menu. -/
structure Choice where
  /-- The name of the choice. -/
  id : String
  /-- What the player reads. -/
  text : String
  /-- The choice is left out if this holds. -/
  hide : Option Condition := none
  /-- The choice is marked as disabled if this holds. -/
  disable : Option Condition := none
deriving DecidableEq

/-- Whether the choice depends on the state of the game. -/
def Choice.isDynamic (c : Choice) : Bool :=
  c.hide.isSome || c.disable.isSome

/-- A window in which the player chooses how the dialogue goes on. -/
structure Menu where
  /-- What is said before. -/
  prompt : Option Message := none
  /-- The choices, in order. -/
  choices : List Choice := []
  /-- What happens when the player cancels. -/
  cancel : CancelMode := .disallow
  /-- The place of the window. -/
  position : Int64 := 2
  /-- The look of the window. -/
  background : Int64 := 0
deriving DecidableEq

/-- Whether the choices that are shown depend on the state of the game. -/
def Menu.isDynamic (m : Menu) : Bool :=
  m.choices.any Choice.isDynamic

end Dialogue

import Dialogue.Dict
import Dialogue.Text.Blank
/-!
Actions: what a node of a dialogue does.
-/

namespace Dialogue

/-- How a variable is changed. -/
inductive VariableOperation
  | set
  | add
  | subtract
  | multiply
  | divide
  | modulo
deriving DecidableEq

namespace VariableOperation

/-- Reads the name or the sign of an operation.  What is neither stands for `set`. -/
def parse (s : String) : VariableOperation :=
  match Text.lowerAscii (Text.trim s) with
  | "add" | "+" | "+=" => add
  | "subtract" | "sub" | "-" | "-=" => subtract
  | "multiply" | "mul" | "*" | "*=" => multiply
  | "divide" | "div" | "/" | "/=" => divide
  | "modulo" | "mod" | "%" | "%=" => modulo
  | _ => set

/-- The number by which the engine knows the operation. -/
def code : VariableOperation → Int64
  | set => 0
  | add => 1
  | subtract => 2
  | multiply => 3
  | divide => 4
  | modulo => 5

end VariableOperation

/-- A text to show, with the window in which it appears. -/
structure Message where
  /-- The picture beside the text. -/
  faceName : String := ""
  /-- Which face of the picture. -/
  faceIndex : Int64 := 0
  /-- The look of the window. -/
  background : Int64 := 0
  /-- The place of the window. -/
  position : Int64 := 2
  /-- What is said. -/
  text : String
deriving DecidableEq

/-- What a node of a dialogue does. -/
inductive Action
  /-- Runs a script. -/
  | script (code : String)
  /-- Changes variable `id`. -/
  | setVariable (id : UInt32) (operation : VariableOperation) (value : Int64)
  /-- Turns switch `id` on or off. -/
  | setSwitch (id : UInt32) (on : Bool)
  /-- Runs the common event `id`. -/
  | commonEvent (id : UInt32)
  /-- Shows a text. -/
  | showText (message : Message)
  /-- Calls a command of a plugin. -/
  | pluginCommand (plugin command : String) (args : Dict String)
deriving DecidableEq

end Dialogue

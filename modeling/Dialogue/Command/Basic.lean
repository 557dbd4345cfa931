import Dialogue.Command.Opcode
import Dialogue.Dict
import Dialogue.Text.Lines
/-!
Commands of the engine's event interpreter.

A command has an opcode, the depth of the block in which it stands and parameters.  The functions
here build each kind of command with the parameters that the engine expects for it; texts that may
have several lines (scripts) become several commands.
-/

namespace Dialogue

/-- A parameter of a command. -/
inductive Parameter
  | int (value : Int64)
  | str (value : String)
  | bool (value : Bool)
  | list (items : List Parameter)
  | object (entries : Dict String)
deriving Inhabited

namespace Parameter

/-- The text of a parameter that is a text. -/
def text? : Parameter → Option String
  | str s => some s
  | _ => none

mutual

/-- Equality of parameters, decided. -/
def decEq : (p q : Parameter) → Decidable (p = q)
  | int a, q => match q with
    | int b => if h : a = b then isTrue (by rw [h]) else isFalse (by simpa using h)
    | str _ | bool _ | list _ | object _ => isFalse (by simp)
  | str a, q => match q with
    | str b => if h : a = b then isTrue (by rw [h]) else isFalse (by simpa using h)
    | int _ | bool _ | list _ | object _ => isFalse (by simp)
  | bool a, q => match q with
    | bool b => if h : a = b then isTrue (by rw [h]) else isFalse (by simpa using h)
    | int _ | str _ | list _ | object _ => isFalse (by simp)
  | list a, q => match q with
    | list b => match decEqList a b with
      | isTrue h => isTrue (by rw [h])
      | isFalse h => isFalse (by simpa using h)
    | int _ | str _ | bool _ | object _ => isFalse (by simp)
  | object a, q => match q with
    | object b => if h : a = b then isTrue (by rw [h]) else isFalse (by simpa using h)
    | int _ | str _ | bool _ | list _ => isFalse (by simp)

/-- Equality of lists of parameters, decided. -/
def decEqList : (ps qs : List Parameter) → Decidable (ps = qs)
  | [], [] => isTrue rfl
  | [], _ :: _ => isFalse (by simp)
  | _ :: _, [] => isFalse (by simp)
  | p :: ps, q :: qs => match decEq p q, decEqList ps qs with
    | isTrue h, isTrue hs => isTrue (by rw [h, hs])
    | isFalse h, _ => isFalse (by simp [h])
    | _, isFalse hs => isFalse (by simp [hs])

end

instance : DecidableEq Parameter := decEq

/-- A number without sign as a parameter. -/
def nat32 (n : UInt32) : Parameter :=
  int n.toUInt64.toInt64

end Parameter

/-- A command of the engine's event interpreter. -/
structure Command where
  /-- What the command does. -/
  opcode : Opcode
  /-- The depth of the block in which the command stands. -/
  indent : UInt32
  /-- What the command does it with. -/
  parameters : List Parameter
deriving DecidableEq

/-- The name of the label that stands at a node. -/
def labelName (id : String) : String :=
  "node_" ++ id

namespace Command

/-- The kind of a conditional whose condition is a script. -/
def scriptCondition : Int64 := 12

/-- The kind of an operand that is a constant. -/
def constantOperand : Int64 := 0

/-- Ends a block, or the whole program. -/
def stop (indent : UInt32) : Command :=
  ⟨.stop, indent, []⟩

/-- The label of node `id`. -/
def label (indent : UInt32) (id : String) : Command :=
  ⟨.label, indent, [.str (labelName id)]⟩

/-- A jump to the label of node `id`. -/
def jumpToLabel (indent : UInt32) (id : String) : Command :=
  ⟨.jumpToLabel, indent, [.str (labelName id)]⟩

/-- Opens the block that runs if `expression` holds. -/
def conditionalBranch (indent : UInt32) (expression : String) : Command :=
  ⟨.conditionalBranch, indent, [.int scriptCondition, .str expression]⟩

/-- Opens the block that runs otherwise. -/
def conditionalElse (indent : UInt32) : Command :=
  ⟨.conditionalElse, indent, []⟩

/-- Closes a conditional. -/
def conditionalEnd (indent : UInt32) : Command :=
  ⟨.conditionalEnd, indent, []⟩

/-- Opens a window with choices. -/
def showChoices (indent : UInt32) (texts : List String) (cancel first position background : Int64) :
    Command :=
  ⟨.showChoices, indent,
    [.list (texts.map .str), .int cancel, .int first, .int position, .int background]⟩

/-- Opens the block of the choice at `index`. -/
def choiceBranch (indent : UInt32) (index : Nat) (text : String) : Command :=
  ⟨.choiceBranch, indent, [.int (Int64.ofNat index), .str text]⟩

/-- Opens the block that runs after the window was cancelled. -/
def choiceCancel (indent : UInt32) : Command :=
  ⟨.choiceCancel, indent, []⟩

/-- Closes the block of a window with choices. -/
def choiceBlockEnd (indent : UInt32) : Command :=
  ⟨.choiceBlockEnd, indent, []⟩

/-- Opens a text window. -/
def showText (indent : UInt32) (faceName : String) (faceIndex background position : Int64) :
    Command :=
  ⟨.showText, indent, [.str faceName, .int faceIndex, .int background, .int position]⟩

/-- One line of a text window. -/
def textLine (indent : UInt32) (line : String) : Command :=
  ⟨.textLine, indent, [.str line]⟩

/-- A script, one command a line.  A script without lines is one command with the empty line. -/
def script (indent : UInt32) (code : String) : List Command :=
  match Text.lines code with
  | [] => [⟨.script, indent, [.str ""]⟩]
  | first :: rest =>
    ⟨.script, indent, [.str first]⟩ :: rest.map fun line => ⟨.scriptLine, indent, [.str line]⟩

/-- Runs the common event `id`. -/
def commonEvent (indent id : UInt32) : Command :=
  ⟨.commonEvent, indent, [.nat32 id]⟩

/-- Turns switch `id` on or off; the engine writes "on" as 0. -/
def controlSwitch (indent id : UInt32) (on : Bool) : Command :=
  ⟨.controlSwitches, indent, [.nat32 id, .nat32 id, .int (if on then 0 else 1)]⟩

/-- Changes variable `id` by the operation with code `operation` and a constant. -/
def controlVariable (indent id : UInt32) (operation value : Int64) : Command :=
  ⟨.controlVariables, indent,
    [.nat32 id, .nat32 id, .int operation, .int constantOperand, .int value]⟩

/-- Calls a command of a plugin. -/
def pluginCommand (indent : UInt32) (plugin command : String) (args : Dict String) : Command :=
  ⟨.pluginCommand, indent, [.str plugin, .str command, .object args]⟩

end Command

/-- A compiled program with its name: what is listed, exported and stored. -/
structure Script where
  /-- The name of the program. -/
  name : String
  /-- Its commands, in order. -/
  commands : List Command
deriving DecidableEq

end Dialogue

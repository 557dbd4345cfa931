/-!
Opcodes: what a command does.

The engine knows a command by a number.  Blocks are opened and closed by commands of their own, so
the opcodes come in families: text, choices, conditionals, labels, game state, scripts.
-/

namespace Dialogue

/-- What a command does. -/
inductive Opcode
  /-- Ends a block, or the whole program. -/
  | stop
  /-- Opens a text window. -/
  | showText
  /-- One line of the text window. -/
  | textLine
  /-- Opens a window with choices. -/
  | showChoices
  /-- What happens after one of the choices. -/
  | choiceBranch
  /-- What happens after the window was cancelled. -/
  | choiceCancel
  /-- Closes the block of a window with choices. -/
  | choiceBlockEnd
  /-- Opens a block that runs under a condition. -/
  | conditionalBranch
  /-- What happens if the condition does not hold. -/
  | conditionalElse
  /-- Closes the block of a condition. -/
  | conditionalEnd
  /-- A place to jump to. -/
  | label
  /-- Goes on at a label. -/
  | jumpToLabel
  /-- Runs an event that is shared by the whole game. -/
  | commonEvent
  /-- Sets a switch. -/
  | controlSwitches
  /-- Changes a variable. -/
  | controlVariables
  /-- The first line of a script. -/
  | script
  /-- A further line of a script. -/
  | scriptLine
  /-- Calls a command of a plugin. -/
  | pluginCommand
deriving DecidableEq

namespace Opcode

/-- All opcodes.  Their places in this list are their numbers in stored scripts. -/
def all : List Opcode :=
  [stop, showText, textLine, showChoices, choiceBranch, choiceCancel, choiceBlockEnd,
    conditionalBranch, conditionalElse, conditionalEnd, label, jumpToLabel, commonEvent,
    controlSwitches, controlVariables, script, scriptLine, pluginCommand]

/-- The number by which the engine knows the opcode. -/
def code : Opcode → UInt16
  | stop => 0
  | showText => 101
  | textLine => 401
  | showChoices => 102
  | choiceBranch => 402
  | choiceCancel => 403
  | choiceBlockEnd => 404
  | conditionalBranch => 111
  | conditionalElse => 411
  | conditionalEnd => 412
  | label => 118
  | jumpToLabel => 119
  | commonEvent => 117
  | controlSwitches => 121
  | controlVariables => 122
  | script => 355
  | scriptLine => 655
  | pluginCommand => 357

/-- The opcode that the engine knows by a number. -/
def ofCode? : UInt16 → Option Opcode
  | 0 => some stop
  | 101 => some showText
  | 401 => some textLine
  | 102 => some showChoices
  | 402 => some choiceBranch
  | 403 => some choiceCancel
  | 404 => some choiceBlockEnd
  | 111 => some conditionalBranch
  | 411 => some conditionalElse
  | 412 => some conditionalEnd
  | 118 => some label
  | 119 => some jumpToLabel
  | 117 => some commonEvent
  | 121 => some controlSwitches
  | 122 => some controlVariables
  | 355 => some script
  | 655 => some scriptLine
  | 357 => some pluginCommand
  | _ => none

/-- The two tables are inverse to each other. -/
theorem ofCode?_eq_some_iff {n : UInt16} {o : Opcode} : ofCode? n = some o ↔ o.code = n := by
  constructor
  · intro h
    unfold ofCode? at h
    split at h
    case h_19 => cases h
    all_goals
      obtain rfl := Option.some.inj h
      rfl
  · rintro rfl
    cases o <;> rfl

/-- The name of the opcode in listings. -/
def name : Opcode → String
  | stop => "End"
  | showText => "ShowText"
  | textLine => "TextLine"
  | showChoices => "ShowChoices"
  | choiceBranch => "ChoiceBranch"
  | choiceCancel => "ChoiceCancel"
  | choiceBlockEnd => "ChoiceBlockEnd"
  | conditionalBranch => "ConditionalBranch"
  | conditionalElse => "ConditionalElse"
  | conditionalEnd => "ConditionalEnd"
  | label => "Label"
  | jumpToLabel => "JumpToLabel"
  | commonEvent => "CommonEvent"
  | controlSwitches => "ControlSwitches"
  | controlVariables => "ControlVariables"
  | script => "Script"
  | scriptLine => "ScriptLine"
  | pluginCommand => "PluginCommand"

/-- The place of the opcode in `all`. -/
def place (o : Opcode) : Nat :=
  all.idxOf o

/-- The opcode at a place of `all`. -/
def ofPlace? (n : Nat) : Option Opcode :=
  all[n]?

end Opcode

end Dialogue

import Dialogue.Command.Basic
import Dialogue.Graph.Action
/-!
The commands of messages and actions.
-/

namespace Dialogue

/-- The commands that show a message: a window, then its lines.  A message without lines shows the
empty line. -/
def Message.commands (m : Message) (indent : UInt32) : List Command :=
  .showText indent m.faceName m.faceIndex m.background m.position ::
    match Text.lines m.text with
    | [] => [.textLine indent ""]
    | lines => lines.map (.textLine indent)

/-- The commands that carry out an action. -/
def Action.commands (indent : UInt32) : Action → List Command
  | .script code => Command.script indent code
  | .setVariable id operation value => [.controlVariable indent id operation.code value]
  | .setSwitch id on => [.controlSwitch indent id on]
  | .commonEvent id => [.commonEvent indent id]
  | .showText message => message.commands indent
  | .pluginCommand plugin command args => [.pluginCommand indent plugin command args]

end Dialogue

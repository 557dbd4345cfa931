import Dialogue.Command.Basic
import Dialogue.Json.Printer
/-!
Commands in the form that the engine loads.

A command is an object with the members `code`, `indent` and `parameters`, and a program is the
array of its commands.
-/

namespace Dialogue

mutual

/-- A parameter as the engine reads it. -/
def Parameter.toJson : Parameter → Json
  | .int n => .int n.toInt
  | .str s => .str s
  | .bool b => .bool b
  | .list items => .arr (Parameter.toJsonList items)
  | .object entries => .obj (entries.entries.map fun kv => (kv.1, .str kv.2))

/-- The parameters of a command as the engine reads them. -/
def Parameter.toJsonList : List Parameter → List Json
  | [] => []
  | p :: ps => p.toJson :: Parameter.toJsonList ps

end

/-- A command as the engine reads it. -/
def Command.toJson (c : Command) : Json :=
  .obj [("code", .int c.opcode.code.toNat), ("indent", .int c.indent.toNat),
    ("parameters", .arr (Parameter.toJsonList c.parameters))]

/-- A program as the engine reads it. -/
def Script.toJson (s : Script) : Json :=
  .arr (s.commands.map Command.toJson)

/-- The text of the file that the engine loads. -/
def Script.exportText (s : Script) : String :=
  s.toJson.pretty

end Dialogue

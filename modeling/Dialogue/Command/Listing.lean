import Dialogue.Command.Basic
import Dialogue.Text.Blank
import Dialogue.Text.Quoted
/-!
Listings: programs for people.

A listing has a head, one line for each command and a foot.  A line gives the position, the depth
and the code of the command, its name, indented by the depth, and its parameters.
-/

namespace Dialogue

mutual

/-- A parameter in a listing. -/
def Parameter.shown : Parameter → String
  | .int n => toString n.toInt
  | .str s => Text.quote s
  | .bool b => if b then "true" else "false"
  | .list items => "[" ++ Parameter.shownList items ++ "]"
  | .object entries =>
    "\x7b" ++ String.intercalate ", "
      (entries.entries.map fun kv => kv.1 ++ ": " ++ Text.quote kv.2) ++ "\x7d"

/-- Parameters in a listing, with commas between them. -/
def Parameter.shownList : List Parameter → String
  | [] => ""
  | [p] => p.shown
  | p :: ps => p.shown ++ ", " ++ Parameter.shownList ps

end

/-- The line of the command at a position of the listing. -/
def Command.line (position : Nat) (c : Command) : String :=
  Text.padLeft 4 '0' (toString position) ++ ": [" ++
    Text.padLeft 3 ' ' (toString c.indent.toNat) ++ "] " ++
    String.ofList (List.replicate (2 * c.indent.toNat) ' ') ++
    Text.padLeft 3 ' ' (toString c.opcode.code.toNat) ++ " " ++ c.opcode.name ++
    (if c.parameters.isEmpty then "" else " [" ++ Parameter.shownList c.parameters ++ "]")

/-- The lines of a listing. -/
def Script.listingLines (s : Script) : List String :=
  ("======== EVENT COMMANDS for: " ++ s.name ++ " (" ++ toString s.commands.length ++
      " commands) ========") ::
    s.commands.mapIdx Command.line ++ ["================ END OF LIST ================"]

/-- The listing of a program; each of its lines is ended by a line feed. -/
def Script.listing (s : Script) : String :=
  String.join (s.listingLines.map (· ++ "\n"))

end Dialogue

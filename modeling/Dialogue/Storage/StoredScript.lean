import Dialogue.Command.Basic
import Dialogue.Storage.Bytes
/-!
Scripts as bytes.

A script is its name and the list of its commands, a command its opcode, its depth and the list of
its parameters.  An opcode is written as its place among all opcodes, and a parameter begins with
the number of its kind.
-/

namespace Dialogue.Storage

mutual

/-- The bytes of a parameter. -/
def writeParameter : Parameter → List UInt8
  | .int n => writeNat 0 ++ writeInt n
  | .str s => writeNat 1 ++ writeText s
  | .bool b => writeNat 2 ++ writeBool b
  | .list items => writeNat 3 ++ writeNat items.length ++ writeParameters items
  | .object entries =>
    writeNat 4 ++ writeNat entries.entries.length ++
      entries.entries.flatMap fun kv => writeText kv.1 ++ writeText kv.2

/-- The bytes of parameters, one after the other. -/
def writeParameters : List Parameter → List UInt8
  | [] => []
  | p :: ps => writeParameter p ++ writeParameters ps

end

/-- The bytes of a command. -/
def writeCommand (c : Command) : List UInt8 :=
  writeNat c.opcode.place ++ writeNat c.indent.toNat ++
    writeNat c.parameters.length ++ writeParameters c.parameters

/-- The bytes of a script. -/
def writeScript (s : Script) : List UInt8 :=
  writeText s.name ++ writeNat s.commands.length ++ s.commands.flatMap writeCommand

/-- An entry of an object. -/
def readEntry : Reader (String × String) := do
  let key ← readText
  let value ← readText
  return (key, value)

/-- A parameter, in which lists are nested at most `depth` deep.  Each level takes a byte at least,
so the length of the input is depth enough. -/
def readParameter : (depth : Nat) → Reader Parameter
  | 0 => throw (.unexpectedEnd 1)
  | depth + 1 => do
    match ← readWord with
    | 0 => return .int (← readInt)
    | 1 => return .str (← readText)
    | 2 => return .bool (← readBool)
    | 3 => return .list (← readList (readParameter depth))
    | 4 => return .object (.ofList (← readList readEntry))
    | n => throw (.badAlternative n.toNat 5)

/-- An opcode. -/
def readOpcode : Reader Opcode := do
  let n ← readWord
  match Opcode.ofPlace? n.toNat with
  | some o => return o
  | none => throw (.badAlternative n.toNat Opcode.all.length)

/-- A command. -/
def readCommand (depth : Nat) : Reader Command := do
  let opcode ← readOpcode
  let indent ← readWord
  let parameters ← readList (readParameter depth)
  return ⟨opcode, indent, parameters⟩

/-- A script. -/
def readScript (depth : Nat) : Reader Script := do
  let name ← readText
  let commands ← readList (readCommand depth)
  return ⟨name, commands⟩

/-- The script that bytes stand for.  Bytes after its end do not matter. -/
def decodeScript (bytes : List UInt8) : Except Fault Script :=
  (readScript (bytes.length + 1) bytes).map Prod.fst

end Dialogue.Storage

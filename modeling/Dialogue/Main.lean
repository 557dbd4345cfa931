import Dialogue.CommandLine.Run
/-!
The command line.
-/

namespace Dialogue.CommandLine

/-- What went wrong, in the words of the disk.  The system's number 21 says that a directory stands
where a file should be, and its number 36 that a name is too long. -/
def diskFaultOf (e : IO.Error) : Storage.DiskFault :=
  match e with
  | .noFileOrDirectory .. => .notFound
  | .inappropriateType _ number _ => if number == 21 then .isDirectory else .notDirectory
  | .invalidArgument _ 36 _ => .nameTooLong
  | e => .other (toString e)

/-- The system on which the program is run. -/
def realSystem : System IO where
  readText path := do
    try
      let file ← IO.FS.Handle.mk path .read
      return Storage.textOf (← file.readBinToEnd).toList
    catch e => return .error (diskFaultOf e)
  write path bytes := do
    try
      IO.FS.writeBinFile path ⟨bytes.toArray⟩
      return .ok ()
    catch e => return .error (diskFaultOf e)
  out s := IO.print s
  err s := IO.eprint s

end Dialogue.CommandLine

/-- Runs the command line. -/
def main (args : List String) : IO UInt32 := do
  match Dialogue.CommandLine.parse args with
  | some request => Dialogue.CommandLine.run Dialogue.CommandLine.realSystem request
  | none =>
    IO.eprintln "Usage: compile GRAPH [-o FILE] [-l] [--save FILE] [--disabled-prefix TEXT]"
    IO.eprintln "       reach GRAPH NODE [-u]"
    IO.eprintln "       path GRAPH FROM TO"
    return 2

import Dialogue.Command.Export
import Dialogue.Command.Listing
import Dialogue.CommandLine.Arguments
import Dialogue.Compile.Emission
import Dialogue.Editor.Conversion
import Dialogue.Graph.ShortestPath
import Dialogue.Storage.Artifact
/-!
The program that is run from a command line.

What it does is written once, over an abstract system that reads and writes files and prints.
`Host` is such a system inside of the logic: a disk and two texts.
-/

namespace Dialogue.CommandLine

open Storage

/-- What a program needs of the system on which it runs. -/
structure System (m : Type → Type) where
  /-- Reads a file. -/
  readText : (path : String) → m (Except DiskFault String)
  /-- Writes a file. -/
  write : (path : String) → List UInt8 → m (Except DiskFault Unit)
  /-- Prints a result. -/
  out : String → m Unit
  /-- Prints a remark. -/
  err : String → m Unit

/-- The name of the program that is compiled from a file: that of the file without its ending. -/
def scriptName (path : String) : String :=
  match ((parts path).filter fun p => p != "" && p != ".").getLast? with
  | none | some ".." => "graph"
  | some name =>
    let ending := name.toList.reverse.takeWhile (· != '.')
    match (name.toList.reverse.drop ending.length) with
    | [] | ['.'] => name
    | _ :: stem => String.ofList stem.reverse

variable {m : Type → Type} [Monad m]

/-- Reports an error. -/
def fail (system : System m) (message : String) : m UInt32 := do
  system.err ("\nError: " ++ message ++ "\n")
  return 1

/-- Goes on with the graph in a file, if there is one. -/
def withGraph (system : System m) (path : String) (go : Document → m UInt32) : m UInt32 := do
  match ← system.readText path with
  | .error fault => fail system ("Failed to read graph file '" ++ path ++ "': " ++ fault.message)
  | .ok text =>
    match Document.load text with
    | .error e => fail system ("Failed to load graph '" ++ path ++ "': " ++ e.message)
    | .ok document => go document

/-- Writes the form that the engine loads to a file, or prints it. -/
def exportScript (system : System m) (script : Script) : Option String → m (Except String Unit)
  | none => do
    system.out (script.exportText ++ "\n")
    return .ok ()
  | some path => do
    match ← system.write path (Text.encodeUtf8 script.exportText) with
    | .ok () => return .ok ()
    | .error fault => return .error ("Failed to write output '" ++ path ++ "': " ++ fault.message)

/-- Saves a script, if a file is named. -/
def saveScript (system : System m) (script : Script) : Option String → m (Except String Unit)
  | none => return .ok ()
  | some path => do
    match ← system.write path (writeScript script) with
    | .ok () => return .ok ()
    | .error fault =>
      return .error ("Failed to save artifact: " ++ (ArtifactError.disk path fault).message)

/-- Compiles a graph and writes what was asked for. -/
def compile (system : System m) (graph : String) (output : Option String) (listing : Bool)
    (artifact disabledMark : Option String) : m UInt32 :=
  withGraph system graph fun document => do
    let options : Options := match disabledMark with
      | some mark => { disabledMark := mark }
      | none => {}
    let script := document.compileScript (scriptName graph) options
    if listing then system.err (script.listing ++ "\n")
    match ← exportScript system script output with
    | .error message => fail system message
    | .ok () =>
      match ← saveScript system script artifact with
      | .error message => fail system message
      | .ok () => return 0

/-- Shows what hangs together with a node. -/
def reach (system : System m) (graph node : String) (direction : Direction) : m UInt32 :=
  withGraph system graph fun document => do
    let index := Index.ofDocument document
    let found := index.reach direction node
    let nodes := found.nodeIds
    let edges := found.edgeIds
    let kind (id : String) : String := match index.node? id with
      | some n => n.kind.name
      | none => "missing"
    let word := match direction with
      | .forward => "Downstream"
      | .backward => "Upstream"
    system.out (word ++ " from '" ++ node ++ "': " ++
      toString nodes.length ++ " node(s), " ++ toString edges.length ++ " edge(s)\n" ++
      String.join (nodes.map fun id => "  node " ++ id ++ " (" ++ kind id ++ ")\n") ++
      String.join (edges.map fun id => "  edge " ++ id ++ "\n"))
    return 0

/-- Shows a shortest path. -/
def path (system : System m) (graph source target : String) : m UInt32 :=
  withGraph system graph fun document => do
    match (Index.ofDocument document).shortestPath? source target with
    | some ids =>
      system.out (String.intercalate " -> " ids ++ "\n")
      return 0
    | none =>
      system.out ("'" ++ target ++ "' is unreachable from '" ++ source ++ "'\n")
      return 2

/-- Does what is asked for and gives the exit code. -/
def run (system : System m) : Request → m UInt32
  | .compile graph output listing save disabledMark =>
    compile system graph output listing save disabledMark
  | .reach graph node direction => reach system graph node direction
  | .path graph source target => path system graph source target

/-! ## A system inside of the logic -/

/-- A disk, and what was printed. -/
structure Host where
  /-- The files. -/
  disk : Disk := {}
  /-- The results. -/
  out : String := ""
  /-- The remarks. -/
  err : String := ""

/-- The system of a host. -/
def hostSystem : System (StateM Host) where
  readText path := return (← get).disk.readText path
  write path bytes := do
    match (← get).disk.write path bytes with
    | .ok disk => modify fun host => { host with disk }; return .ok ()
    | .error fault => return .error fault
  out s := modify fun host => { host with out := host.out ++ s }
  err s := modify fun host => { host with err := host.err ++ s }

/-- Runs the program on a host and gives the exit code. -/
def runOn (host : Host) (request : Request) : UInt32 × Host :=
  (run hostSystem request).run host

end Dialogue.CommandLine

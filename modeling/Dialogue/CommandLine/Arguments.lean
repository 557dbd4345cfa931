import Dialogue.Graph.Reach
/-!
The words of a command line.

A word that begins with a hyphen is an option, alone or with others: `--output FILE`,
`--output=FILE`, `-o FILE`, `-oFILE`, `-lo FILE`.  The hyphen alone is none, and after the word
`--` all words are taken as they are.  Options and other words may be mixed.  No option may be
given twice.
-/

namespace Dialogue.CommandLine

/-- An option. -/
structure Switch where
  /-- Its name after two hyphens. -/
  long : String
  /-- Its letter after one hyphen. -/
  short : Option Char := none
  /-- Whether a value belongs to it. -/
  valued : Bool := false
deriving DecidableEq

/-- One part of a command line. -/
inductive Item
  /-- An option without a value. -/
  | flag (long : String)
  /-- An option with its value. -/
  | valued (long value : String)
  /-- Any other word. -/
  | plain (word : String)
deriving DecidableEq

/-- Whether a word is an option. -/
def isOption (word : String) : Bool :=
  match word.toList with
  | ['-'] => false
  | '-' :: _ => true
  | _ => false

/-- A text up to its first equals sign, and what follows that sign. -/
def splitEquals (cs : List Char) : String × Option String :=
  match cs.dropWhile (· != '=') with
  | [] => (String.ofList cs, none)
  | _ :: value => (String.ofList (cs.takeWhile (· != '=')), some (String.ofList value))

/-- What one word of options gives: parts of the command line, and perhaps an option that still
waits for its value. -/
abbrev Scanned := List Item × Option String

/-- A word of letters after one hyphen.  What follows the letter of an option with a value is that
value, with or without an equals sign. -/
def scanShort (switches : List Switch) : List Char → Option Scanned
  | [] => some ([], none)
  | c :: cs => do
    let s ← switches.find? (·.short == some c)
    if s.valued then
      match cs with
      | [] => return ([], some s.long)
      | '=' :: value => return ([.valued s.long (String.ofList value)], none)
      | value => return ([.valued s.long (String.ofList value)], none)
    else
      let (items, waiting) ← scanShort switches cs
      return (.flag s.long :: items, waiting)

/-- A name after two hyphens, perhaps with a value. -/
def scanLong (switches : List Switch) (cs : List Char) : Option Scanned := do
  let (name, value) := splitEquals cs
  let s ← switches.find? (·.long == name)
  match s.valued, value with
  | true, some value => return ([.valued s.long value], none)
  | true, none => return ([], some s.long)
  | false, none => return ([.flag s.long], none)
  | false, some _ => none

/-- The parts of a command line. -/
def scan (switches : List Switch) : List String → Option (List Item)
  | [] => some []
  | "--" :: words => some (words.map .plain)
  | word :: words =>
    if isOption word then do
      let (items, waiting) ← match word.toList with
        | '-' :: '-' :: cs => scanLong switches cs
        | _ :: cs => scanShort switches cs
        | [] => none
      match waiting with
      | none => return items ++ (← scan switches words)
      | some long =>
        match words with
        | value :: words =>
          if isOption value then none
          else return items ++ .valued long value :: (← scan switches words)
        | [] => none
    else return .plain word :: (← scan switches words)

/-- The name of the option that a part is. -/
def Item.long? : Item → Option String
  | flag long | valued long _ => some long
  | plain _ => none

/-- The word that a part is, if it is no option. -/
def Item.plain? : Item → Option String
  | plain word => some word
  | flag _ | valued _ _ => none

/-- The value of an option. -/
def valueOf (items : List Item) (long : String) : Option String :=
  items.findSome? fun
    | .valued name value => if name = long then some value else none
    | _ => none

/-- What the program is asked to do. -/
inductive Request
  /-- Compile a graph. -/
  | compile (graph : String) (output : Option String) (listing : Bool) (save : Option String)
      (disabledMark : Option String)
  /-- Show what hangs together with a node. -/
  | reach (graph node : String) (direction : Direction)
  /-- Show a shortest path. -/
  | path (graph source target : String)
deriving DecidableEq

/-- The options of `compile`. -/
def compileSwitches : List Switch :=
  [{ long := "output", short := some 'o', valued := true },
    { long := "listing", short := some 'l' },
    { long := "save", valued := true },
    { long := "disabled-prefix", valued := true }]

/-- The options of `reach`. -/
def reachSwitches : List Switch :=
  [{ long := "upstream", short := some 'u' }]

/-- The options and the other words of a command line on which no option stands twice. -/
def scanOnce (switches : List Switch) (words : List String) :
    Option (List Item × List String) := do
  let items ← scan switches words
  if (items.filterMap Item.long?).Nodup then return (items, items.filterMap Item.plain?) else none

/-- Reads a command line; nothing if it makes no sense. -/
def parse : List String → Option Request
  | "compile" :: words => do
    match ← scanOnce compileSwitches words with
    | (items, [graph]) =>
      return .compile graph (valueOf items "output") (items.contains (.flag "listing"))
        (valueOf items "save") (valueOf items "disabled-prefix")
    | _ => none
  | "reach" :: words => do
    match ← scanOnce reachSwitches words with
    | (items, [graph, node]) =>
      return .reach graph node (if items.contains (.flag "upstream") then .backward else .forward)
    | _ => none
  | "path" :: words => do
    match ← scanOnce [] words with
    | (_, [graph, source, target]) => return .path graph source target
    | _ => none
  | _ => none

end Dialogue.CommandLine

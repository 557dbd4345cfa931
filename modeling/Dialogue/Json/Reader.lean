import Dialogue.Json.Lexer
/-!
Reading values.

A reader takes characters from the front of a JSON text and returns the rest with its result.  The
first fault ends the reading.  A value that is kept may stand in a limited number of containers
(`depthLimit`); a reader of such values is given the number of containers that may still be opened.
Values that are skipped may be nested as deep as they like.
-/

namespace Dialogue.Json

/-- Takes characters from the front of a text and returns the rest with the result. -/
abbrev Reader := StateT (List Char) (Except Fault)

/-- In how many containers a value that is kept may stand. -/
def depthLimit : Nat := 127

/-- The characters that may stand between the parts of a JSON text. -/
def isSpace (c : Char) : Bool :=
  c == ' ' || c == '\n' || c == '\t' || c == '\r'

/-- The next character that is no space; it is not taken. -/
def peek : Reader (Option Char) := fun cs =>
  let rest := cs.dropWhile isSpace
  .ok (rest.head?, rest)

/-- Takes one character. -/
def advance : Reader Unit := fun cs => .ok ((), cs.tail)

/-- Repeats `step` until it gives a result, once for each character of `clock` and once more. -/
def iterate {σ α : Type} (step : σ → Reader (σ ⊕ α)) : (clock : List Char) → σ → Reader α
  | [], s => do
    match ← step s with
    | .inl _ => throw .endInValue
    | .inr a => return a
  | _ :: clock, s => do
    match ← step s with
    | .inl s => iterate step clock s
    | .inr a => return a

/-- Repeats `step` until it gives a result.  A step that gives none has to take a character, so the
text that is read can serve as the clock. -/
def loop {σ α : Type} (step : σ → Reader (σ ⊕ α)) (s : σ) : Reader α := fun cs =>
  iterate step cs s cs

/-! ## Scalars -/

/-- The rest of a text whose opening quote was taken. -/
def textRest : Reader String := fun cs =>
  (textBody true cs).map fun (s, rest) => (String.ofList s, rest)

/-- A number, after its sign. -/
def numberRest (negative : Bool) : Reader JsonNumber := fun cs => do
  let (n, rest) ← numeral .endInValue cs
  return (← n.value negative, rest)

/-- A word, by its letters after the first one. -/
def word {α : Type} (letters : String) (a : α) : Reader α := fun cs =>
  (wordRest letters.toList cs).map fun rest => (a, rest)

/-- The beginning of a value: all of it if it is a scalar, else the kind of its bracket, which is
not taken. -/
inductive Head
  | scalar (value : Json)
  | list
  | object

/-- What is found at the beginning of a value. -/
def Head.found : Head → Found
  | scalar j => j.found
  | list => .list
  | object => .dict

/-- The beginning of a value. -/
def head : Reader Head := do
  match ← peek with
  | none => throw .endInValue
  | some 'n' => do advance; word "ull" (.scalar .null)
  | some 't' => do advance; word "rue" (.scalar (.bool true))
  | some 'f' => do advance; word "alse" (.scalar (.bool false))
  | some '"' => do advance; return .scalar (.str (← textRest))
  | some '-' => do advance; return .scalar (.num (← numberRest true))
  | some '[' => return .list
  | some '{' => return .object
  | some c =>
    if c.isDigit then return .scalar (.num (← numberRest false)) else throw .expectedValue

/-! ## Containers -/

/-- Takes an opening bracket, if a further container is allowed, and reads on with one less. -/
def nested {α : Type} (depth : Nat) (body : Nat → Reader α) : Reader α :=
  match depth with
  | 0 => throw .tooDeep
  | depth + 1 => do advance; body depth

/-- Whether a list has a further item.  If it has, the comma before it is taken. -/
def hasItem (first : Bool) : Reader Bool := do
  match ← peek with
  | none => throw .endInList
  | some ']' => return false
  | some c =>
    if first then return true
    else if c == ',' then
      advance
      match ← peek with
      | none => throw .endInValue
      | some ']' => throw .trailingComma
      | some _ => return true
    else throw .expectedListComma

/-- Whether an object has a further member.  If it has, the comma before it is taken. -/
def hasMember (first : Bool) : Reader Bool := do
  match ← peek with
  | none => throw .endInObject
  | some '}' => return false
  | some c =>
    if first then
      if c == '"' then return true else throw .keyNotText
    else if c == ',' then
      advance
      match ← peek with
      | none => throw .endInValue
      | some '"' => return true
      | some '}' => throw .trailingComma
      | some _ => throw .keyNotText
    else throw .expectedObjectComma

/-- The key of a member; its opening quote is the next character. -/
def key : Reader String := do
  advance
  textRest

/-- The colon after a key. -/
def colon : Reader Unit := do
  match ← peek with
  | none => throw .endInObject
  | some ':' => advance
  | some _ => throw .expectedColon

/-- The closing bracket of a list of which no further item is wanted. -/
def closeList : Reader Unit := do
  match ← peek with
  | none => throw .endInList
  | some ']' => advance
  | some ',' => do
    advance
    match ← peek with
    | some ']' => throw .trailingComma
    | _ => throw .trailingCharacters
  | some _ => throw .trailingCharacters

/-- The items of a list whose opening bracket was taken. -/
def items {α : Type} (item : Reader α) : Reader (List α) :=
  loop (fun (found : List α) => do
    if ← hasItem found.isEmpty then
      return .inl ((← item) :: found)
    else
      advance
      return .inr found.reverse) []

/-- The members of an object whose opening brace was taken, in increasing order of their keys; of
two members with one key the later one counts. -/
def members {α : Type} (value : Reader α) : Reader (List (String × α)) :=
  loop (fun ((first, found) : Bool × List (String × α)) => do
    if ← hasMember first then
      let k ← key
      colon
      return .inl (false, putEntry k (← value) found)
    else
      advance
      return .inr found) (true, [])

/-- A value that is kept. -/
def value : (depth : Nat) → Reader Json
  | 0 => do
    match ← head with
    | .scalar j => return j
    | .list | .object => throw .tooDeep
  | depth + 1 => do
    match ← head with
    | .scalar j => return j
    | .list => do advance; return .arr (← items (value depth))
    | .object => do advance; return .obj (← members (value depth))

/-- Nothing but spaces follows. -/
def finish : Reader Unit := do
  match ← peek with
  | none => return ()
  | some _ => throw .trailingCharacters

/-- The value of a whole text. -/
def readAll {α : Type} (reader : Reader α) (s : String) : Except Fault α :=
  (do let a ← reader; finish; return a : Reader α).run' s.toList

/-- The value that a JSON text stands for. -/
def parse (s : String) : Except Fault Json :=
  readAll (value depthLimit) s

/-! ## Skipping -/

/-- A container that is being skipped. -/
inductive Container
  | list
  | object
deriving DecidableEq

/-- Skips the rest of a text whose opening quote was taken. -/
def skipTextRest : Reader Unit := fun cs =>
  (textBody false cs).map fun (_, rest) => ((), rest)

/-- Skips a number, after its sign. -/
def skipNumberRest : Reader Unit := fun cs =>
  (numeral .badNumber cs).map fun (_, rest) => ((), rest)

/-- Skips the key of a member and its colon. -/
def skipKey : Reader Unit := do
  match ← peek with
  | none => throw .endInObject
  | some '"' => do
    advance
    skipTextRest
    colon
  | some _ => throw .keyNotText

/-- What follows a value that was skipped inside of `containers`, the innermost first.  The result
is the containers in which the next value stands, or nothing if there is none. -/
def skipAfter : (containers : List Container) → Reader (List Container ⊕ Unit)
  | [] => return .inr ()
  | .list :: outer => do
    match ← peek with
    | none => throw .endInList
    | some ',' => do advance; return .inl (.list :: outer)
    | some ']' => do advance; skipAfter outer
    | some _ => throw .expectedListComma
  | .object :: outer => do
    match ← peek with
    | none => throw .endInObject
    | some ',' => do advance; skipKey; return .inl (.object :: outer)
    | some '}' => do advance; skipAfter outer
    | some _ => throw .expectedObjectComma

/-- Skips a scalar, or the opening bracket of a container, inside of `containers`. -/
def skipStep (containers : List Container) : Reader (List Container ⊕ Unit) := do
  match ← peek with
  | none => throw .endInValue
  | some 'n' => do advance; word "ull" (); skipAfter containers
  | some 't' => do advance; word "rue" (); skipAfter containers
  | some 'f' => do advance; word "alse" (); skipAfter containers
  | some '"' => do
    advance
    skipTextRest
    skipAfter containers
  | some '-' => do
    advance
    skipNumberRest
    skipAfter containers
  | some '[' => do
    advance
    match ← peek with
    | none => throw .endInList
    | some ']' => do advance; skipAfter containers
    | some _ => return .inl (.list :: containers)
  | some '{' => do
    advance
    match ← peek with
    | none => throw .endInObject
    | some '}' => do advance; skipAfter containers
    | some _ => do skipKey; return .inl (.object :: containers)
  | some c =>
    if c.isDigit then do
      skipNumberRest
      skipAfter containers
    else throw .expectedValue

/-- Skips a value. -/
def skip : Reader Unit :=
  loop skipStep []

end Dialogue.Json

import Dialogue.Dict
/-!
JSON values.

Numbers keep how they were written: a whole number stays apart from a number with a fraction or an
exponent.  The members of an object stand in increasing order of their keys (`putEntry`).
-/

namespace Dialogue

/-- A JSON number. -/
inductive JsonNumber
  /-- A whole number. -/
  | int (value : Int)
  /-- A number that was written with a fraction or an exponent, or is too large for a word. -/
  | float (value : Float)
deriving DecidableEq

/-- A JSON value. -/
inductive Json
  | null
  | bool (value : Bool)
  | num (value : JsonNumber)
  | str (value : String)
  | arr (items : List Json)
  | obj (members : List (String × Json))

instance : Inhabited Json := ⟨.null⟩

namespace Json

/-- A whole number as a value. -/
def int (n : Int) : Json :=
  .num (.int n)

end Json

end Dialogue

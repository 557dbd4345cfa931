import Dialogue.Json.Fault
/-!
Texts, numbers and words in a JSON text.

Each function takes characters from the front of a list and returns the rest.  Values that are kept
are checked more strictly than values that are skipped: only in the former do surrogates have to
come in pairs and numbers have to fit into a double.
-/

namespace Dialogue.Json

/-! ## Texts -/

/-- The value of a digit in base 16. -/
def hexValue? (c : Char) : Option Nat :=
  if '0' ≤ c && c ≤ '9' then some (c.toNat - '0'.toNat)
  else if 'a' ≤ c && c ≤ 'f' then some (c.toNat - 'a'.toNat + 10)
  else if 'A' ≤ c && c ≤ 'F' then some (c.toNat - 'A'.toNat + 10)
  else none

/-- The number that four digits stand for. -/
def hexNumber? (a b c d : Char) : Option Nat := do
  return ((← hexValue? a) * 16 + (← hexValue? b)) * 256 + (← hexValue? c) * 16 + (← hexValue? d)

/-- The four digits of an escape.  What is left of the input counts in bytes: with fewer than four
the text ends too early. -/
def hexEscape : List Char → Except Fault (Nat × List Char)
  | a :: b :: c :: d :: rest =>
    match hexNumber? a b c d with
    | some n => .ok (n, rest)
    | none => .error .badEscape
  | rest => .error (if 4 ≤ (String.ofList rest).utf8ByteSize then .badEscape else .endInText)

/-- The first half of a surrogate pair. -/
def isHighSurrogate (n : Nat) : Bool :=
  0xD800 ≤ n && n ≤ 0xDBFF

/-- The second half of a surrogate pair. -/
def isLowSurrogate (n : Nat) : Bool :=
  0xDC00 ≤ n && n ≤ 0xDFFF

/-- The character that a surrogate pair stands for. -/
def pairChar (high low : Nat) : Char :=
  Char.ofNat (0x10000 + (high - 0xD800) * 0x400 + (low - 0xDC00))

/-- The second half of a pair, after the first one was read. -/
def pairEscape (high : Nat) : List Char → Except Fault (Char × List Char)
  | '\\' :: 'u' :: rest => do
    let (low, rest) ← hexEscape rest
    if isLowSurrogate low then return (pairChar high low, rest) else throw .loneSurrogate
  | [] | ['\\'] => .error .endInText
  | _ => .error .brokenPair

/-- An escape by a number, after its letter `u`. -/
def unicodeEscape (strict : Bool) (cs : List Char) : Except Fault (Char × List Char) := do
  let (n, rest) ← hexEscape cs
  if strict && isLowSurrogate n then throw .loneSurrogate
  else if strict && isHighSurrogate n then pairEscape n rest
  else return (Char.ofNat n, rest)

/-- An escape, after its backslash. -/
def escape (strict : Bool) : List Char → Except Fault (Char × List Char)
  | [] => .error .endInText
  | '"' :: rest => .ok ('"', rest)
  | '\\' :: rest => .ok ('\\', rest)
  | '/' :: rest => .ok ('/', rest)
  | 'b' :: rest => .ok ('\x08', rest)
  | 'f' :: rest => .ok ('\x0c', rest)
  | 'n' :: rest => .ok ('\n', rest)
  | 'r' :: rest => .ok ('\r', rest)
  | 't' :: rest => .ok ('\t', rest)
  | 'u' :: rest => unicodeEscape strict rest
  | _ :: _ => .error .badEscape

theorem length_hexEscape {cs rest : List Char} {n : Nat} (h : hexEscape cs = .ok (n, rest)) :
    rest.length < cs.length := by
  unfold hexEscape at h
  split at h
  · split at h
    · simp only [Except.ok.injEq, Prod.mk.injEq] at h
      obtain ⟨-, rfl⟩ := h
      simp only [List.length_cons]
      omega
    · simp at h
  · simp at h

theorem length_pairEscape {cs rest : List Char} {high : Nat} {c : Char}
    (h : pairEscape high cs = .ok (c, rest)) : rest.length < cs.length := by
  unfold pairEscape at h
  split at h
  · next r =>
    cases hr : hexEscape r with
    | error e => simp [hr, bind, Except.bind] at h
    | ok v =>
      obtain ⟨low, r'⟩ := v
      have hlt := length_hexEscape hr
      rw [hr] at h
      simp only [bind, Except.bind] at h
      split at h
      · simp only [pure, Except.pure, Except.ok.injEq, Prod.mk.injEq] at h
        obtain ⟨-, rfl⟩ := h
        simp only [List.length_cons]
        omega
      · simp [throw, throwThe, MonadExceptOf.throw] at h
  · simp at h
  · simp at h
  · simp at h

theorem length_unicodeEscape {cs rest : List Char} {strict : Bool} {c : Char}
    (h : unicodeEscape strict cs = .ok (c, rest)) : rest.length < cs.length := by
  unfold unicodeEscape at h
  cases hr : hexEscape cs with
  | error e => simp [hr, bind, Except.bind] at h
  | ok v =>
    obtain ⟨n, r⟩ := v
    have hlt := length_hexEscape hr
    rw [hr] at h
    simp only [bind, Except.bind] at h
    split at h
    · simp [throw, throwThe, MonadExceptOf.throw] at h
    · split at h
      · have := length_pairEscape h
        omega
      · simp only [pure, Except.pure, Except.ok.injEq, Prod.mk.injEq] at h
        obtain ⟨-, rfl⟩ := h
        exact hlt

/-- An escape uses up a character at least. -/
theorem length_escape {cs rest : List Char} {strict : Bool} {c : Char}
    (h : escape strict cs = .ok (c, rest)) : rest.length < cs.length := by
  unfold escape at h
  split at h
  case h_10 =>
    have := length_unicodeEscape h
    simp only [List.length_cons]
    omega
  all_goals
    first
    | (simp only [Except.ok.injEq, Prod.mk.injEq] at h
       obtain ⟨-, rfl⟩ := h
       simp)
    | simp at h

/-- The characters of a text up to its closing quote, and the rest after it. -/
def textBody (strict : Bool) (cs : List Char) : Except Fault (List Char × List Char) :=
  match cs with
  | [] => .error .endInText
  | '"' :: rest => .ok ([], rest)
  | '\\' :: rest =>
    match _h : escape strict rest with
    | .error fault => .error fault
    | .ok (c, rest) => do
      let (more, rest) ← textBody strict rest
      return (c :: more, rest)
  | c :: rest =>
    if c.toNat < 0x20 then .error .controlCharacter
    else do
      let (more, rest) ← textBody strict rest
      return (c :: more, rest)
termination_by cs.length
decreasing_by
  · have := length_escape _h
    simp only [List.length_cons]
    omega
  · simp

/-! ## Numbers -/

/-- A number as it is written. -/
structure Numeral where
  /-- The digits before the point. -/
  whole : List Char
  /-- The digits after the point; none if there is no point. -/
  fraction : List Char
  /-- Whether the exponent is negative, and its digits. -/
  exponent : Option (Bool × List Char)

/-- The digits at the front. -/
def digits (cs : List Char) : List Char × List Char :=
  (cs.takeWhile Char.isDigit, cs.dropWhile Char.isDigit)

/-- One digit at least; `atEnd` is the fault of an input that ends here. -/
def someDigits (atEnd : Fault) (cs : List Char) : Except Fault (List Char × List Char) :=
  match digits cs with
  | ([], []) => .error atEnd
  | ([], _ :: _) => .error .badNumber
  | found => .ok found

/-- The digits before the point; a zero stands alone. -/
def wholePart (atEnd : Fault) (cs : List Char) : Except Fault (List Char × List Char) := do
  let (whole, rest) ← someDigits atEnd cs
  match whole with
  | '0' :: _ :: _ => throw .badNumber
  | _ => return (whole, rest)

/-- The digits after the point. -/
def fractionPart (atEnd : Fault) : List Char → Except Fault (List Char × List Char)
  | '.' :: rest => someDigits atEnd rest
  | rest => .ok ([], rest)

/-- The exponent. -/
def exponentPart (atEnd : Fault) (cs : List Char) :
    Except Fault (Option (Bool × List Char) × List Char) :=
  match cs with
  | c :: rest =>
    if c == 'e' || c == 'E' then
      let (negative, rest) := match rest with
        | '+' :: rest => (false, rest)
        | '-' :: rest => (true, rest)
        | rest => (false, rest)
      do
        let (power, rest) ← someDigits atEnd rest
        return (some (negative, power), rest)
    else .ok (none, cs)
  | [] => .ok (none, [])

/-- A number without its sign. -/
def numeral (atEnd : Fault) (cs : List Char) : Except Fault (Numeral × List Char) := do
  let (whole, rest) ← wholePart atEnd cs
  let (fraction, rest) ← fractionPart atEnd rest
  let (exponent, rest) ← exponentPart atEnd rest
  return (⟨whole, fraction, exponent⟩, rest)

/-- The value of a digit. -/
def digitValue (c : Char) : Nat :=
  c.toNat - '0'.toNat

/-- Appends digits to a number as long as it fits into 64 bits; the count is that of the digits
which are left over. -/
def absorb (n : Nat) : List Char → Nat × Nat
  | [] => (n, 0)
  | d :: ds =>
    let next := n * 10 + digitValue d
    if next < UInt64.size then absorb next ds else (n, ds.length + 1)

/-- The number that digits stand for. -/
def digitsValue (ds : List Char) : Nat :=
  ds.foldl (fun n d => n * 10 + digitValue d) 0

/-- The double next to a power of ten. -/
def tenTo (n : Nat) : Float :=
  Float.ofScientific 1 false n

/-- A double times a power of ten, rounded at each step; none if it is too large.  The steps are
those of a table with the powers up to 308: smaller numbers take several divisions. -/
def scale (x : Float) (exponent : Int) : Option Float :=
  if exponent.natAbs ≤ 308 then
    if 0 ≤ exponent then
      let y := x * tenTo exponent.natAbs
      if y.isInf then none else some y
    else some (x / tenTo exponent.natAbs)
  else if x == 0 then some x
  else if 0 ≤ exponent then none
  else scale (x / tenTo 308) (exponent + 308)
termination_by exponent.natAbs
decreasing_by omega

/-- What a number stands for.  A whole number that fits into 64 bits, with its sign if it has one,
is kept as it is; any other number is a double, and so is `-0`. -/
def Numeral.value (negative : Bool) (n : Numeral) : Except Fault JsonNumber :=
  let (significand, dropped) := absorb 0 n.whole
  let double : Except Fault JsonNumber :=
    let (significand, ignored) := absorb significand n.fraction
    let shift : Int := dropped - ((n.fraction.length - ignored : Nat) : Int)
    let power : Int := match n.exponent with
      | none => 0
      | some (false, ds) => digitsValue ds
      | some (true, ds) => -(digitsValue ds : Int)
    match scale significand.toUInt64.toFloat (shift + power) with
    | some x => .ok (.float (if negative then -x else x))
    | none => .error .numberTooLarge
  if n.fraction.isEmpty && n.exponent.isNone && dropped = 0 then
    if !negative then .ok (.int significand)
    else if 0 < significand && Int64.minValue.toInt ≤ -(significand : Int) then
      .ok (.int (-significand))
    else .ok (.float (-significand.toUInt64.toFloat))
  else double

/-! ## Words -/

/-- The rest of a word whose first letter was read. -/
def wordRest : (expected : List Char) → List Char → Except Fault (List Char)
  | [], cs => .ok cs
  | _ :: _, [] => .error .endInValue
  | e :: es, c :: cs => if c = e then wordRest es cs else .error .expectedWord

end Dialogue.Json

/-!
The shortest decimal that reads back as a given double.

A finite double is `m · 2 ^ q`.  The real numbers that round to it form an interval around it; its
ends belong to it exactly if `m` is even, since a tie goes to the even neighbour.  The decimals with
`n` digits near the double form a grid, and if a point of that grid lies in the interval, then so
does one of the two that enclose the double.  `shortest` takes the least `n` for which this happens
and of the two points the nearer one, on a tie the even one.
-/

namespace Dialogue

/-- A finite double without its sign: `significand · 2 ^ exponent`. -/
structure Binary where
  /-- The whole-number part of the double. -/
  significand : Nat
  /-- The power of two by which it is scaled. -/
  exponent : Int
  /-- Whether the neighbour below is closer than the one above. -/
  isBoundary : Bool

/-- How many fractions a double can have: its fraction takes 52 bits. -/
def Binary.fractionSize : Nat := 0x10000000000000

/-- The parts of a finite double with the given bits. -/
def Binary.ofBits (bits : UInt64) : Binary :=
  let fraction : Nat := bits.toNat % fractionSize
  let exponent : Nat := bits.toNat / fractionSize % 0x800
  if exponent = 0 then ⟨fraction, -1074, false⟩
  else ⟨fraction + fractionSize, (exponent : Int) - 1075, fraction = 0 && exponent ≠ 1⟩

/-- A decimal `coefficient · 10 ^ exponent`. -/
structure Decimal where
  /-- The digits, as a number. -/
  coefficient : Nat
  /-- The power of ten by which they are scaled. -/
  exponent : Int

/-- The numerator and the denominator of `base ^ exponent`. -/
def Decimal.power (base : Nat) (exponent : Int) : Nat × Nat :=
  (Nat.pow base exponent.toNat, Nat.pow base (-exponent).toNat)

/-- How many digits `n` has. -/
def Decimal.digitCount (n : Nat) : Nat :=
  (Nat.toDigits 10 n).length

/-- The exponent of the first digit of a double that is not zero. -/
def Binary.leading (b : Binary) : Int :=
  let (num, den) := Decimal.power 2 b.exponent
  let num := b.significand * num
  if den ≤ num then (Decimal.digitCount (num / den) : Int) - 1
  else -(Decimal.digitCount ((den - 1) / num) : Int)

/-- The point of the grid `10 ^ k` that is nearest to `b`, if it or its neighbour on the other side
of `b` reads back as `b`. -/
def Binary.nearest? (b : Binary) (k : Int) : Option Nat :=
  let two := Decimal.power 2 (b.exponent - 2)
  let ten := Decimal.power 10 k
  -- Everything is measured in quarters of the last place of `b`, and then in `1 / (two · ten)`.
  let unit := two.1 * ten.2
  let grid := ten.1 * two.2
  let value := 4 * b.significand * unit
  let low := (4 * b.significand - if b.isBoundary then 1 else 2) * unit
  let high := (4 * b.significand + 2) * unit
  let closed := b.significand % 2 = 0
  let inside (d : Nat) : Bool :=
    if closed then low ≤ d * grid && d * grid ≤ high else low < d * grid && d * grid < high
  let below := value / grid
  let toBelow := value - below * grid
  let toAbove := (below + 1) * grid - value
  match inside below, inside (below + 1) with
  | false, false => none
  | true, false => some below
  | false, true => some (below + 1)
  | true, true =>
    if toBelow < toAbove || (toBelow = toAbove && below % 2 = 0) then some below
    else some (below + 1)

/-- The first of the grids with `digits`, `digits + 1`, … digits that has a point which reads back,
with that point; `more` grids are tried. -/
def Binary.search (b : Binary) (digits : Nat) : (more : Nat) → Decimal
  | 0 => ⟨0, 0⟩
  | more + 1 =>
    let k := b.leading - digits + 1
    match b.nearest? k with
    | some d => ⟨d, k⟩
    | none => search b (digits + 1) more

/-- The shortest decimal that reads back as `b`.  Seventeen digits always suffice. -/
def Binary.shortest (b : Binary) : Decimal :=
  b.search 1 17

/-- The digits of a decimal without zeros at the end, and the exponent of the first of them. -/
def Decimal.scientific (d : Decimal) : List Char × Int :=
  let digits := Nat.toDigits 10 d.coefficient
  ((digits.reverse.dropWhile (· == '0')).reverse, d.exponent + digits.length - 1)

end Dialogue

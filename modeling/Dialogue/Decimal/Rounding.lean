/-!
Whole numbers as doubles.

A double has 53 binary digits.  A whole number that has more of them is rounded to a multiple of its
last place: to the nearest one, and to the even one of two that are equally near.
-/

namespace Dialogue

/-- The multiple of `unit` that is nearest to `n`; a tie goes to the even multiple. -/
def roundTo (unit n : Nat) : Nat :=
  let quotient := n / unit
  let rest := n % unit
  if 2 * rest < unit ∨ 2 * rest = unit ∧ quotient % 2 = 0 then unit * quotient
  else unit * (quotient + 1)

/-- What the last of 53 binary digits counts in a number of the size of `n`. -/
def lastPlace (n : Nat) : Nat :=
  Nat.pow 2 (n.log2 - 52)

/-- The double that is nearest to a whole number. -/
def asDouble (z : Int) : Int :=
  z.sign * roundTo (lastPlace z.natAbs) z.natAbs

end Dialogue

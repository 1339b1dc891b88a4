import StoryWorld.Decimal.Shortest

/-!
# The double nearest a decimal

A decimal text is read as the double nearest to `digits * 10 ^ exponent`. A decimal past the
greatest finite double has none. The powers of ten are only computed where they can matter, so a
huge exponent costs nothing.
-/

namespace StoryWorld.Decimal

/-- The finite double nearest a decimal. -/
def Digits.nearest? (d : Digits) : Option Float :=
  let leading := d.exponent + digitCount d.digits
  if d.digits = 0 ∨ leading < -330 then some 0.0
  else if 310 < leading then none
  else
    let x := Float.ofScientific d.digits (d.exponent < 0) d.exponent.natAbs
    if x.isFinite then some x else none

/-- The value of decimal digits, read from the left. -/
def ofDigits (digits : List Char) : Nat :=
  digits.foldl (fun n c => 10 * n + (c.toNat - '0'.toNat)) 0

end StoryWorld.Decimal

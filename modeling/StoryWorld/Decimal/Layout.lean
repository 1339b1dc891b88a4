import StoryWorld.Decimal.Shortest

/-!
# Writing doubles

The decimal of a double is written in one of three layouts. Diagnostics write it positionally
however long that gets; range problems and stored data switch to an exponent for very small and
very large values, and always show that the number is not an integer. A draw is written rounded to
a fixed number of places.
-/

namespace StoryWorld.Decimal

/-- How a finite double is laid out. -/
structure Layout where
  /-- Decimal exponents of the first digit from which positional notation starts. -/
  least : Option Int
  /-- Decimal exponents of the first digit at which positional notation has ended. -/
  bound : Option Int
  /-- Whether a whole number is written with a final `.0`. -/
  pointZero : Bool
  /-- Whether a positive exponent carries its sign. -/
  plusExponent : Bool
  tie : Tie

/-- Diagnostics: positional, no point in a whole number. -/
def diagnostic : Layout := ⟨none, none, false, false, .up⟩

/-- Bounds of a range: an exponent below `1e-4` and from `1e16`. -/
def bound : Layout := ⟨some (-4), some 16, true, false, .up⟩

/-- Stored data: an exponent below `1e-5` and from `1e16`. -/
def stored : Layout := ⟨some (-5), some 16, true, true, .toEven⟩

/-- `digits` with a point after the first `point` of them, padded with zeros on either side. -/
def positional (digits : List Char) (point : Int) (pointZero : Bool) : List Char :=
  if point ≤ 0 then '0' :: '.' :: (List.replicate (-point).toNat '0' ++ digits)
  else
    let whole := point.toNat
    if digits.length ≤ whole then
      digits ++ List.replicate (whole - digits.length) '0' ++ (if pointZero then ['.', '0'] else [])
    else digits.take whole ++ '.' :: digits.drop whole

/-- `digits` as one digit, a fraction and a power of ten. -/
def scientific (digits : List Char) (exponent : Int) (plus : Bool) : List Char :=
  let mantissa := match digits with
    | [] => ['0']
    | [d] => [d]
    | d :: rest => d :: '.' :: rest
  let sign := if exponent < 0 then ['-'] else if plus then ['+'] else []
  mantissa ++ 'e' :: sign ++ Nat.toDigits 10 exponent.natAbs

def Layout.digits (l : Layout) (d : Digits) : List Char :=
  let ds := Nat.toDigits 10 d.digits
  let leading := d.exponent + ds.length - 1
  if d.digits ≠ 0 ∧ (l.least.any (leading < ·) || l.bound.any (· ≤ leading)) then
    scientific ds leading l.plusExponent
  else positional ds (leading + 1) l.pointZero

/-- Whether the sign bit is set. -/
def isNegative (x : Float) : Bool := x.toBits.toNat / Nat.pow 2 63 = 1

/-- The text of `x`; a value that is not finite is named. -/
def Layout.write (l : Layout) (x : Float) : String :=
  if x.isNaN then "NaN"
  else
    let magnitude :=
      if x.isFinite then l.digits ((Binary.ofFloat x).shortest l.tie) else "inf".toList
    String.ofList (if isNegative x then '-' :: magnitude else magnitude)

/-- As a diagnostic, with the sign of a positive value written too. -/
def writeSigned (x : Float) : String :=
  if x.isNaN || isNegative x then diagnostic.write x else "+" ++ diagnostic.write x

/-- `numerator / denominator` rounded to a whole number, a half to the even neighbour. -/
def roundDiv (numerator denominator : Nat) : Nat :=
  let n := numerator / denominator
  let rest := 2 * (numerator % denominator)
  if rest < denominator then n
  else if denominator < rest then n + 1
  else if n % 2 = 0 then n else n + 1

/-- The text of `x` rounded to `places` decimal places. -/
def writeFixed (places : Nat) (x : Float) : String :=
  if x.isFinite then
    let b := Binary.ofFloat x
    let scaled := roundDiv (b.mantissa * Nat.pow 2 b.exponent.toNat * Nat.pow 10 places)
      (Nat.pow 2 (-b.exponent).toNat)
    let whole := Nat.toDigits 10 (scaled / Nat.pow 10 places)
    let fraction := Nat.toDigits 10 (scaled % Nat.pow 10 places)
    let padded := List.replicate (places - fraction.length) '0' ++ fraction
    let text := whole ++ (if places = 0 then [] else '.' :: padded)
    String.ofList (if isNegative x then '-' :: text else text)
  else diagnostic.write x

end StoryWorld.Decimal

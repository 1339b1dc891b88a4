/-!
# The shortest decimal of a double

A finite double is `mantissa * 2 ^ exponent`, and every real in an interval around it reads back
as that double. Its shortest decimal is the one with the fewest significant digits inside the
interval, and of those the nearest. All arithmetic is exact: the value and the two ends of the
interval are natural numbers over one common denominator.

A grid of `n` significant digits that meets the interval meets it at one of the value's two
neighbours on that grid, so only those two are tried, for `n = 1, 2, …, 17`.
-/

namespace StoryWorld.Decimal

/-- The magnitude of a finite double. -/
structure Binary where
  mantissa : Nat
  exponent : Int
  deriving DecidableEq, Repr

/-- The magnitude written in the bits of `x`, sign dropped. -/
def Binary.ofFloat (x : Float) : Binary :=
  let bits := x.toBits.toNat
  let scale : Nat := bits / Nat.pow 2 52 % Nat.pow 2 11
  let fraction := bits % Nat.pow 2 52
  if scale = 0 then ⟨fraction, -1074⟩ else ⟨fraction + Nat.pow 2 52, (scale : Int) - 1075⟩

/-- Which of two decimals at the same distance is taken. -/
inductive Tie where
  | up
  | toEven
  deriving DecidableEq, Repr

/-- The decimal `digits * 10 ^ exponent`. -/
structure Digits where
  digits : Nat
  exponent : Int
  deriving DecidableEq, Repr

/-- A value and the ends of the interval that reads back as it, over a common denominator. The
ends themselves read back when `closed`. -/
structure Span where
  low : Nat
  value : Nat
  high : Nat
  denominator : Nat
  closed : Bool

/-- The neighbours of a double lie one unit of its mantissa away, or half a unit below the least
mantissa of a binade; the interval ends halfway to them. -/
def Binary.span (b : Binary) : Span :=
  let below := if b.mantissa = Nat.pow 2 52 ∧ b.exponent ≠ -1074 then 1 else 2
  let up := Nat.pow 2 (b.exponent - 2).toNat
  { low := (4 * b.mantissa - below) * up
    value := 4 * b.mantissa * up
    high := (4 * b.mantissa + 2) * up
    denominator := Nat.pow 2 (2 - b.exponent).toNat
    closed := b.mantissa % 2 = 0 }

/-- The span over a denominator, with its values, scaled by a power of ten. -/
def Span.shift (s : Span) (places : Int) : Span :=
  let up := Nat.pow 10 places.toNat
  { s with
    low := s.low * up
    value := s.value * up
    high := s.high * up
    denominator := s.denominator * Nat.pow 10 (-places).toNat }

def Span.admits (s : Span) (n : Nat) : Bool :=
  let x := n * s.denominator
  if s.closed then s.low ≤ x && x ≤ s.high else s.low < x && x < s.high

/-- The whole number nearest the value among those of its two neighbours the span admits. -/
def Span.nearest? (s : Span) (tie : Tie) : Option Nat :=
  let n := s.value / s.denominator
  let below := s.value - n * s.denominator
  let above := (n + 1) * s.denominator - s.value
  match s.admits n, s.admits (n + 1) with
  | false, false => none
  | true, false => some n
  | false, true => some (n + 1)
  | true, true =>
    if below < above then some n
    else if above < below then some (n + 1)
    else match tie with
      | .up => some (n + 1)
      | .toEven => some (if n % 2 = 0 then n else n + 1)

/-- How many decimal digits `n` is written with. -/
def digitCount (n : Nat) : Nat := (Nat.toDigits 10 n).length

/-- The `k` with `10 ^ (k - 1) ≤ value < 10 ^ k`. -/
def Span.magnitude (s : Span) : Int :=
  if s.denominator ≤ s.value then digitCount (s.value / s.denominator)
  else
    let t := digitCount (s.denominator / s.value)
    if s.denominator = s.value * Nat.pow 10 (t - 1) then 2 - t else 1 - t

/-- The first grid, of `n` digits up to `n + fuel`, on which the span has a decimal. -/
def Span.shortestFrom (s : Span) (tie : Tie) (magnitude : Int) (n : Nat) : Nat → Digits
  | 0 => ⟨s.value / s.denominator, 0⟩
  | fuel + 1 =>
    let places := n - magnitude
    match (s.shift places).nearest? tie with
    | some digits => ⟨digits, -places⟩
    | none => s.shortestFrom tie magnitude (n + 1) fuel

/-- The decimal without trailing zeros among its digits. -/
def Digits.strip (d : Digits) : Nat → Digits
  | 0 => d
  | fuel + 1 =>
    if d.digits ≠ 0 ∧ d.digits % 10 = 0 then Digits.strip ⟨d.digits / 10, d.exponent + 1⟩ fuel
    else d

/-- The shortest decimal that reads back as a double of this magnitude. -/
def Binary.shortest (b : Binary) (tie : Tie) : Digits :=
  if b.mantissa = 0 then ⟨0, 0⟩
  else (b.span.shortestFrom tie b.span.magnitude 1 17).strip 20

end StoryWorld.Decimal

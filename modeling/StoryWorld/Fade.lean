import StoryWorld.Datum.Basic

/-!
# Fading

How much of something is lost per tick, and how much of it arrives over a distance. A negative
distance counts as none and a reach that is not positive as one. Apart from the absolute curve,
which gives the reach that is left, every curve stays in the unit interval.
-/

namespace StoryWorld

/-- `x` moved into the unit interval; a NaN stays one. -/
def clampUnit (x : Float) : Float := if x < 0 then 0 else if 1 < x then 1 else x

/-- `x` but at least zero, also for a NaN. -/
def nonNegative (x : Float) : Float := if x.isNaN || x < 0 then 0 else x

/-- How fast something decays. -/
inductive DecayRate where
  | none
  | slow
  | medium
  | fast
  deriving DecidableEq, Repr, Inhabited

namespace DecayRate

/-- The fraction lost per tick. -/
def coefficient : DecayRate → Float
  | none => 0.0
  | slow => 0.01
  | medium => 0.03
  | fast => 0.06

def name : DecayRate → String
  | none => "none"
  | slow => "slow"
  | medium => "medium"
  | fast => "fast"

def label : DecayRate → String
  | none => "None"
  | slow => "Slow"
  | medium => "Medium"
  | fast => "Fast"

def ofName? : String → Option DecayRate
  | "none" => some none
  | "slow" => some slow
  | "medium" => some medium
  | "fast" => some fast
  | _ => Option.none

abbrev toDatum (r : DecayRate) : Datum := .ofChoice name r

abbrev ofDatum? (setting : Datum.Setting) : Datum → Option DecayRate :=
  Datum.asChoice setting ofName?

end DecayRate

/-- How an influence falls off with distance. -/
inductive Falloff where
  | absolute
  | none
  | linear
  | inverseSquare
  | sqrt
  | exponential
  deriving DecidableEq, Repr, Inhabited

namespace Falloff

/-- What is left at `distance` of an influence that reaches as far as `reach`. -/
def attenuate (f : Falloff) (distance reach : Float) : Float :=
  let d := if distance.isFinite then nonNegative distance else 1.0 / 0.0
  let reach := if 0 < reach then reach else 1
  match f with
  | absolute => nonNegative (reach - d)
  | none => 1
  | linear => clampUnit (1 - d / reach)
  | inverseSquare =>
    let scaled := d / reach
    1 / (1 + scaled * scaled)
  | sqrt => clampUnit (1 - (d / reach).sqrt)
  | exponential => (-d / reach).exp

def name : Falloff → String
  | absolute => "absolute"
  | none => "none"
  | linear => "linear"
  | inverseSquare => "inverse_square"
  | sqrt => "sqrt"
  | exponential => "exponential"

def label : Falloff → String
  | absolute => "Absolute"
  | none => "None"
  | linear => "Linear"
  | inverseSquare => "InverseSquare"
  | sqrt => "Sqrt"
  | exponential => "Exponential"

def ofName? : String → Option Falloff
  | "absolute" => some absolute
  | "none" => some none
  | "linear" => some linear
  | "inverse_square" => some inverseSquare
  | "sqrt" => some sqrt
  | "exponential" => some exponential
  | _ => Option.none

abbrev toDatum (f : Falloff) : Datum := .ofChoice name f

abbrev ofDatum? (setting : Datum.Setting) : Datum → Option Falloff :=
  Datum.asChoice setting ofName?

end Falloff

end StoryWorld

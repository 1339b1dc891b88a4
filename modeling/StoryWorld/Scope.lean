import StoryWorld.World.Query

/-!
# Scopes and references

Rules name entities by references: `$self` is the entity an evaluation is about, `$` with a name
is a variable, and anything else is an id. A scope says what these mean: it has a world, an
entity for `$self` and a meaning for every name. It comes from the cast of an action or from a
table of bindings. A reference that means nothing is no error; the rule that holds it decides.
-/

namespace StoryWorld

/-- What a variable stands for. -/
inductive Binding where
  | entity (e : Entity)
  | value (d : Datum)

namespace Binding

def entity? : Binding → Option Entity
  | entity e => some e
  | value _ => none

def number? : Binding → Option Float
  | entity _ => none
  | value d => d.asFloat

end Binding

/-- The reference to the entity an evaluation is about. -/
def selfReference : String := "$self"

structure Scope where
  world : World
  self? : Option Entity
  binding? : String → Option Binding

namespace Scope

/-- The entity a reference means. -/
def resolve (s : Scope) (reference : String) : Option Entity :=
  let reference := Text.trim reference
  if reference = selfReference then s.self?
  else
    match reference.toList with
    | '$' :: name => (s.binding? (String.ofList name)).bind Binding.entity?
    | _ => (EntityId.ofReference? reference).bind s.world.entity?

/-- What a name stands for; `$` signs in front of it are ignored. -/
def lookup (s : Scope) (name : String) : Option Binding := s.binding? (Text.dropSigils name)

end Scope

/-! ## Casts -/

/-- Who takes part in an action. -/
structure Cast where
  actor : Entity
  instigator : Option Entity := none
  target : Option Entity := none
  target2 : Option Entity := none

def Cast.role? (c : Cast) : String → Option Entity
  | "actor" => some c.actor
  | "instigator" => c.instigator
  | "target" => c.target
  | "target2" => c.target2
  | _ => none

/-- The scope of an action: `$self` is the actor and the roles are the variables. -/
def Scope.ofCast (world : World) (c : Cast) : Scope where
  world
  self? := some c.actor
  binding? name := (c.role? name).map .entity

/-! ## Bindings -/

abbrev Bindings := Table String Binding

/-- Binds a name; `$` signs in front of it are ignored. -/
def Bindings.bind (b : Bindings) (name : String) (value : Binding) : Bindings :=
  b.insert (Text.dropSigils name) value

/-- The scope of a table of bindings. -/
def Scope.ofBindings (world : World) (self? : Option Entity) (b : Bindings) : Scope where
  world
  self?
  binding? := b.find?

/-! ## What evaluations share -/

/-- Defaults that rules fall back to. -/
structure Tuning where
  /-- What the upper bound of an entity count is multiplied with. -/
  overshootFactor : Float := 1.5
  /-- How near is near. -/
  proximityMaxDistance : Float := 50
  /-- How far a falloff reaches. -/
  falloffMaxDistance : Float := 100

namespace Tuning

def toDatum (t : Tuning) : Datum :=
  .object [
    ("overshoot_factor", .ofFloat t.overshootFactor),
    ("proximity_max_distance", .ofFloat t.proximityMaxDistance),
    ("falloff_max_distance", .ofFloat t.falloffMaxDistance)]

def ofDatum? (d : Datum) : Option Tuning := do
  let fields ← d.asRecord .json
    ["overshoot_factor", "proximity_max_distance", "falloff_max_distance"]
  let start : Tuning := {}
  return {
    overshootFactor :=
      ← fields.withDefault "overshoot_factor" Datum.asFloat start.overshootFactor
    proximityMaxDistance :=
      ← fields.withDefault "proximity_max_distance" Datum.asFloat start.proximityMaxDistance
    falloffMaxDistance :=
      ← fields.withDefault "falloff_max_distance" Datum.asFloat start.falloffMaxDistance }

end Tuning

/-- What an evaluation reads: a scope, the tick it takes place at and the tuning. -/
structure Context extends Scope where
  tick : UInt64
  tuning : Tuning := {}

/-- The sets of entities that path steps captured, by name. -/
abbrev Captures := Table String (List EntityId)

/-- What an evaluation changes: the source of draws and the captured sets. -/
structure Scratch (σ : Type) where
  draws : σ
  captures : Captures := {}

end StoryWorld

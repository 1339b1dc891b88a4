import StoryWorld.Metric.Basic
import StoryWorld.Path.Basic

/-!
# Conditions

A condition is a yes-or-no question about a world and an entity in it. Most are tests, which only
look; one takes a draw and one walks a path. Conditions combine into trees by `all` and `any`. A
condition of an unknown type is never met.
-/

namespace StoryWorld

/-- How two pressures are compared. Equality leaves room for rounding. -/
inductive Comparison where
  | greater
  | less
  | greaterOrEqual
  | lessOrEqual
  | equal
  | notEqual
  deriving DecidableEq, Repr

namespace Comparison

/-- How far apart equal values may lie. -/
def tolerance : Float := 1e-9

def holds (c : Comparison) (a b : Float) : Bool :=
  match c with
  | greater => b < a
  | less => a < b
  | greaterOrEqual => b ≤ a
  | lessOrEqual => a ≤ b
  | equal => (a - b).abs < tolerance
  | notEqual => tolerance ≤ (a - b).abs

def symbol : Comparison → String
  | greater => ">"
  | less => "<"
  | greaterOrEqual => ">="
  | lessOrEqual => "<="
  | equal => "=="
  | notEqual => "!="

def ofName? : String → Option Comparison
  | ">" | "above" => some greater
  | "<" | "below" => some less
  | ">=" => some greaterOrEqual
  | "<=" => some lessOrEqual
  | "==" => some equal
  | "!=" => some notEqual
  | _ => none

abbrev toDatum (c : Comparison) : Datum := .ofChoice symbol c

abbrev ofDatum? (setting : Datum.Setting) : Datum → Option Comparison :=
  Datum.asChoice setting ofName?

end Comparison

/-- Which stamp of an entity time is measured from. -/
inductive TimeAnchor where
  | created
  | updated
  deriving DecidableEq, Repr

namespace TimeAnchor

def name : TimeAnchor → String
  | created => "created"
  | updated => "updated"

def label : TimeAnchor → String
  | created => "Created"
  | updated => "Updated"

def ofName? : String → Option TimeAnchor
  | "created" => some created
  | "updated" => some updated
  | _ => none

abbrev toDatum (a : TimeAnchor) : Datum := .ofChoice name a

abbrev ofDatum? (setting : Datum.Setting) : Datum → Option TimeAnchor :=
  Datum.asChoice setting ofName?

end TimeAnchor

/-- An inclusive range that may be open at either end. -/
structure Bounds (α : Type) where
  min : Option α := none
  max : Option α := none
  deriving DecidableEq

namespace Bounds

variable {α : Type}

def admits [LE α] [DecidableLE α] (b : Bounds α) (a : α) : Bool :=
  b.min.all (· ≤ a) && b.max.all (a ≤ ·)

def toFields (write : α → Datum) (b : Bounds α) : Fields :=
  [("min", .ofOption write b.min), ("max", .ofOption write b.max)]

def ofFields? (read : Datum → Option α) (fields : Fields) : Option (Bounds α) := do
  return { min := ← fields.optional "min" read, max := ← fields.optional "max" read }

/-- Bounds of a count. -/
def toNat (b : Bounds UInt64) : Bounds Nat := ⟨b.min.map (·.toNat), b.max.map (·.toNat)⟩

end Bounds

/-- Which relationships of the evaluated entity are meant: of a kind, in a direction, with a
partner that a reference means, and with what at the other end. -/
structure Incidence where
  kind : Option String := none
  direction : Direction := .both
  partner : Option String := none
  target : Target := {}
  deriving DecidableEq

namespace Incidence

def toFields (i : Incidence) : Fields :=
  [("relationship_kind", .ofOption .text i.kind), ("direction", i.direction.toDatum),
    ("with", .ofOption .text i.partner)] ++ i.target.toFields

def ofFields? (fields : Fields) : Option Incidence := do
  return {
    kind := ← fields.optional "relationship_kind" Datum.asText
    direction := ← fields.withDefault "direction" (Direction.ofDatum? .whole) .both
    partner := ← fields.optional "with" Datum.asText
    target := ← Target.ofFields? fields }

end Incidence

/-- A question that looking at the world answers. -/
inductive Test where
  | pressure (id : String) (range : Bounds Float)
  | pressureCompare (a b : String) (comparison : Comparison)
  | pressureAnyAbove (ids : List String) (threshold : Float)
  | entityCount (census : Census) (range : Bounds UInt64) (overshoot : Option Float)
  | relationshipCount (edges : Incidence) (range : Bounds UInt64)
  | relationshipExists (edges : Incidence)
  | tagExists (entity : Option String) (tag : String) (value : Option TagValue)
  | tagAbsent (entity : Option String) (tag : String)
  | status (wanted : String) (negated : Bool)
  | prominence (range : Bounds Prominence)
  | timeElapsed (minTicks : UInt64) (since : TimeAnchor)
  | cooldownElapsed (ticks : UInt64)
  | creationsPerEpoch (max : UInt32)
  | eraMatch (eras : List String)
  | entityExists (reference : String)
  | entityHasRelationship (reference kind : String) (direction : Direction)
  | always

inductive Condition where
  | test (t : Test)
  | randomChance (chance : Float)
  | path (assertion : PathAssertion)
  | all (conditions : List Condition)
  | any (conditions : List Condition)
  | unrecognized (typeName : String)

namespace Test

def typeName : Test → String
  | pressure .. => "pressure"
  | pressureCompare .. => "pressure_compare"
  | pressureAnyAbove .. => "pressure_any_above"
  | entityCount .. => "entity_count"
  | relationshipCount .. => "relationship_count"
  | relationshipExists .. => "relationship_exists"
  | tagExists .. => "tag_exists"
  | tagAbsent .. => "tag_absent"
  | status .. => "status"
  | prominence .. => "prominence"
  | timeElapsed .. => "time_elapsed"
  | cooldownElapsed .. => "cooldown_elapsed"
  | creationsPerEpoch .. => "creations_per_epoch"
  | eraMatch .. => "era_match"
  | entityExists .. => "entity_exists"
  | entityHasRelationship .. => "entity_has_relationship"
  | always => "always"

def ofFields? (type : String) (fields : Fields) : Option Test :=
  let text name := fields.required name Datum.asText
  let entity := fields.optional "entity" Datum.asText
  let counts := Bounds.ofFields? Datum.asUInt64 fields
  let edges := Incidence.ofFields? fields
  match type with
  | "pressure" => return pressure (← text "pressure_id") (← Bounds.ofFields? Datum.asFloat fields)
  | "pressure_compare" =>
    return pressureCompare (← text "pressure_a") (← text "pressure_b")
      (← fields.withDefault "operator" (Comparison.ofDatum? .whole) .greaterOrEqual)
  | "pressure_any_above" =>
    return pressureAnyAbove (← fields.required "pressure_ids" (Datum.asList Datum.asText))
      (← fields.required "threshold" Datum.asFloat)
  | "entity_count" =>
    return entityCount (← Census.ofFields? fields) (← counts)
      (← fields.optional "overshoot_factor" Datum.asFloat)
  | "relationship_count" => return relationshipCount (← edges) (← counts)
  | "relationship_exists" => return relationshipExists (← edges)
  | "tag_exists" =>
    return tagExists (← entity) (← text "tag") (← fields.optional "value" TagValue.ofDatum?)
  | "tag_absent" => return tagAbsent (← entity) (← text "tag")
  | "status" => return status (← text "status") (← fields.withDefault "not" Datum.asBool false)
  | "prominence" => return prominence (← Bounds.ofFields? Prominence.ofDatum? fields)
  | "time_elapsed" =>
    return timeElapsed (← fields.required "min_ticks" Datum.asUInt64)
      (← fields.withDefault "since" (TimeAnchor.ofDatum? .whole) .updated)
  | "cooldown_elapsed" =>
    return cooldownElapsed (← fields.required "cooldown_ticks" Datum.asUInt64)
  | "creations_per_epoch" =>
    return creationsPerEpoch (← fields.required "max_per_epoch" Datum.asUInt32)
  | "era_match" => return eraMatch (← fields.required "eras" (Datum.asList Datum.asText))
  | "entity_exists" => return entityExists (← text "entity")
  | "entity_has_relationship" =>
    return entityHasRelationship (← text "entity") (← text "relationship_kind")
      (← fields.withDefault "direction" (Direction.ofDatum? .whole) .both)
  | "always" => return always
  | _ => none

def toFields : Test → Fields
  | pressure id range => ("pressure_id", .text id) :: range.toFields .ofFloat
  | pressureCompare a b comparison =>
    [("pressure_a", .text a), ("pressure_b", .text b), ("operator", comparison.toDatum)]
  | pressureAnyAbove ids threshold =>
    [("pressure_ids", .ofList .text ids), ("threshold", .ofFloat threshold)]
  | entityCount census range overshoot =>
    census.toFields ++ range.toFields (.ofNat ·.toNat)
      ++ [("overshoot_factor", .ofOption .ofFloat overshoot)]
  | relationshipCount edges range => edges.toFields ++ range.toFields (.ofNat ·.toNat)
  | relationshipExists edges => edges.toFields
  | tagExists entity tag value =>
    [("entity", .ofOption .text entity), ("tag", .text tag),
      ("value", .ofOption TagValue.toDatum value)]
  | tagAbsent entity tag => [("entity", .ofOption .text entity), ("tag", .text tag)]
  | status wanted negated => [("status", .text wanted), ("not", .bool negated)]
  | prominence range => range.toFields Prominence.toDatum
  | timeElapsed minTicks since =>
    [("min_ticks", .ofNat minTicks.toNat), ("since", since.toDatum)]
  | cooldownElapsed ticks => [("cooldown_ticks", .ofNat ticks.toNat)]
  | creationsPerEpoch max => [("max_per_epoch", .ofNat max.toNat)]
  | eraMatch eras => [("eras", .ofList .text eras)]
  | entityExists reference => [("entity", .text reference)]
  | entityHasRelationship reference kind direction =>
    [("entity", .text reference), ("relationship_kind", .text kind),
      ("direction", direction.toDatum)]
  | always => []

end Test

namespace Condition

def typeNames : List String :=
  ["pressure", "pressure_compare", "pressure_any_above", "entity_count", "relationship_count",
    "relationship_exists", "tag_exists", "tag_absent", "status", "prominence", "time_elapsed",
    "cooldown_elapsed", "creations_per_epoch", "era_match", "random_chance", "graph_path",
    "entity_exists", "entity_has_relationship", "and", "or", "always"]

/-- The fields of each type, in their order. -/
def fieldNames? : String → Option (List String)
  | "pressure" => some ["pressure_id", "min", "max"]
  | "pressure_compare" => some ["pressure_a", "pressure_b", "operator"]
  | "pressure_any_above" => some ["pressure_ids", "threshold"]
  | "entity_count" => some ["kind", "subtype", "status", "min", "max", "overshoot_factor"]
  | "relationship_count" =>
    some ["relationship_kind", "direction", "min", "max", "with", "target_kind", "target_subtype",
      "target_status"]
  | "relationship_exists" =>
    some ["relationship_kind", "direction", "with", "target_kind", "target_subtype",
      "target_status"]
  | "tag_exists" => some ["entity", "tag", "value"]
  | "tag_absent" => some ["entity", "tag"]
  | "status" => some ["status", "not"]
  | "prominence" => some ["min", "max"]
  | "time_elapsed" => some ["min_ticks", "since"]
  | "cooldown_elapsed" => some ["cooldown_ticks"]
  | "creations_per_epoch" => some ["max_per_epoch"]
  | "era_match" => some ["eras"]
  | "random_chance" => some ["chance"]
  | "graph_path" => some ["assert"]
  | "entity_exists" => some ["entity"]
  | "entity_has_relationship" => some ["entity", "relationship_kind", "direction"]
  | "and" | "or" => some ["conditions"]
  | "always" => some []
  | _ => none

def typeName : Condition → String
  | test t => t.typeName
  | randomChance _ => "random_chance"
  | path _ => "graph_path"
  | all _ => "and"
  | any _ => "or"
  | unrecognized typeName => typeName

/-! ## Reading and writing -/

/-- A condition of a given type. `conditions` are its sub-conditions, where its type has some. -/
def ofFields? (conditions : Option (List Condition)) (type : String) (fields : Fields) :
    Option Condition :=
  match type with
  | "random_chance" => return randomChance (← fields.required "chance" Datum.asFloat)
  | "graph_path" => return path (← fields.required "assert" (PathAssertion.ofDatum? .whole))
  | "and" => return all (← conditions)
  | "or" => return any (← conditions)
  | type => return test (← Test.ofFields? type fields)

mutual

/-- A condition from settled data. -/
def ofSettled? : Datum → Option Condition
  | .object fields =>
    Datum.readSettled typeNames fieldNames? unrecognized (ofFields? (subconditions? fields))
      (.object fields)
  | .list items =>
    Datum.readSettled typeNames fieldNames? unrecognized (ofFields? (secondListed? items))
      (.list items)
  | _ => none

/-- The list under `conditions`. -/
def subconditions? : List (String × Datum) → Option (List Condition)
  | [] => none
  | (name, d) :: rest => if name = "conditions" then listed? d else subconditions? rest

/-- The list in second place, behind the type. -/
def secondListed? : List Datum → Option (List Condition)
  | _ :: d :: _ => listed? d
  | _ => none

def listed? : Datum → Option (List Condition)
  | .list items => ofItems? items
  | _ => none

def ofItems? : List Datum → Option (List Condition)
  | [] => some []
  | d :: rest => do
    let c ← ofSettled? d
    let cs ← ofItems? rest
    return c :: cs

end

def ofDatum? (d : Datum) : Option Condition := d.settled?.bind ofSettled?

mutual

/-- The data of a condition that is recognized through and through. -/
def toDatum? : Condition → Option Datum
  | test t => some (.ofRule t.typeName t.toFields)
  | randomChance chance => some (.ofRule "random_chance" [("chance", .ofFloat chance)])
  | path assertion => do return .ofRule "graph_path" [("assert", ← assertion.toDatum?)]
  | all conditions => do
    return .ofRule "and" [("conditions", .list (← toItems? conditions))]
  | any conditions => do
    return .ofRule "or" [("conditions", .list (← toItems? conditions))]
  | unrecognized _ => none

def toItems? : List Condition → Option (List Datum)
  | [] => some []
  | c :: rest => do
    let d ← toDatum? c
    let ds ← toItems? rest
    return d :: ds

end

end Condition

end StoryWorld

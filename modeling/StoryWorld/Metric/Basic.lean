import StoryWorld.Datum.Rule
import StoryWorld.Fade
import StoryWorld.Scope

/-!
# Metrics

A metric measures one thing about a world and may then scale what it measured: a coefficient is
multiplied in, and a cap bounds the product from above. The operands of a ratio are counts, which
are measures of the whole world and are never scaled.
-/

namespace StoryWorld

/-- Which entities are counted. -/
structure Census where
  kind : String
  subtype : Option String := none
  status : Option String := none
  deriving DecidableEq

namespace Census

def query (c : Census) : EntityQuery :=
  { kind := some c.kind, subtype := c.subtype, status := c.status }

def toFields (c : Census) : Fields :=
  [("kind", .text c.kind), ("subtype", .ofOption .text c.subtype),
    ("status", .ofOption .text c.status)]

def ofFields? (fields : Fields) : Option Census := do
  return {
    kind := ← fields.required "kind" Datum.asText
    subtype := ← fields.optional "subtype" Datum.asText
    status := ← fields.optional "status" Datum.asText }

end Census

/-- Which relationships are counted: those of the listed kinds, or of any kind when none is
listed, that are strong enough. -/
structure EdgeFilter where
  kinds : List String := []
  minStrength : Option Float := none

namespace EdgeFilter

def accepts (f : EdgeFilter) (r : Relationship) : Bool :=
  (f.kinds.isEmpty || f.kinds.contains r.kind) && f.minStrength.all (· ≤ r.effectiveStrength)

def toFields (f : EdgeFilter) : Fields :=
  [("relationship_kinds", .ofList .text f.kinds),
    ("min_strength", .ofOption .ofFloat f.minStrength)]

def ofFields? (fields : Fields) : Option EdgeFilter := do
  return {
    kinds := ← fields.withDefault "relationship_kinds" (Datum.asList Datum.asText) []
    minStrength := ← fields.optional "min_strength" Datum.asFloat }

end EdgeFilter

/-! ## Counts -/

/-- An operand of a ratio. -/
inductive Count where
  | entities (census : Census)
  | relationships (edges : EdgeFilter)
  | tagged (tag : String)
  | total
  | constant (value : Float)

namespace Count

def typeNames : List String :=
  ["entity_count", "relationship_count", "tag_count", "total_entities", "constant"]

/-- A count of a given type, from data that may hold other fields besides. -/
def ofTyped? (type : String) (d : Datum) : Option Count :=
  match type with
  | "entity_count" => do
    return entities (← Census.ofFields? (← d.asRecord .whole ["type", "kind", "subtype", "status"]))
  | "relationship_count" => do
    return relationships
      (← EdgeFilter.ofFields? (← d.asRecord .whole ["type", "relationship_kinds", "min_strength"]))
  | "tag_count" => do
    return tagged (← (← d.asRecord .whole ["type", "tag"]).required "tag" Datum.asText)
  | "total_entities" => do
    let _ ← d.asRecord .whole ["type"]
    return total
  | "constant" => do
    return constant (← (← d.asRecord .whole ["type", "value"]).required "value" Datum.asFloat)
  | _ => none

def ofDatum? (d : Datum) : Option Count := do
  let d ← d.whole?
  ofTyped? (← d.tagText? "type") d

/-- A count inside a rule. There the type may also be given by its place among the types. -/
def ofNested? (d : Datum) : Option Count := do ofTyped? (← d.tagChoice? "type" typeNames) d

def toDatum : Count → Datum
  | entities census => .ofRule "entity_count" census.toFields
  | relationships edges => .ofRule "relationship_count" edges.toFields
  | tagged tag => .ofRule "tag_count" [("tag", .text tag)]
  | total => .ofRule "total_entities" []
  | constant value => .ofRule "constant" [("value", .ofFloat value)]

end Count

/-! ## Scaling -/

structure Scale where
  coefficient : Option Float := none
  cap : Option Float := none

namespace Scale

/-- The smaller of two values, the cap when they are equal; a NaN gives way to the other. -/
def least (x cap : Float) : Float := if x < cap || cap.isNaN then x else cap

def apply (s : Scale) (value : Float) : Float :=
  let scaled := value * s.coefficient.getD 1
  match s.cap with
  | none => scaled
  | some cap => least scaled cap

/-- Whether there is nothing to apply. -/
def isTrivial (s : Scale) : Bool := s.coefficient.isNone && s.cap.isNone

/-- Unset parts are not written. -/
def toFields (s : Scale) : Fields :=
  (s.coefficient.map fun x => ("coefficient", Datum.ofFloat x)).toList
    ++ (s.cap.map fun x => ("cap", Datum.ofFloat x)).toList

def ofFields? (fields : Fields) : Option Scale := do
  return {
    coefficient := ← fields.optional "coefficient" Datum.asFloat
    cap := ← fields.optional "cap" Datum.asFloat }

def toDatum (s : Scale) : Datum := .object s.toFields

def ofDatum? (d : Datum) : Option Scale := do ofFields? (← d.asRecord .json ["coefficient", "cap"])

end Scale

/-! ## Measures -/

/-- What a metric measures. Where an entity is optional, it is `$self` when it is left out, except
that relationships are then counted in the whole world. -/
inductive Measure where
  | entityCount (census : Census)
  | relationshipCount (entity : Option String) (edges : EdgeFilter) (direction : Direction)
  | tagCount (tag : String)
  | totalEntities
  | constant (value : Float)
  | connectionCount (entity : Option String) (edges : EdgeFilter) (direction : Direction)
  | ratio (numerator denominator : Count) (fallback : Float)
  | statusRatio (kind : String) (subtype : Option String) (aliveStatus : String)
  | crossCultureRatio (kinds : List String)
  | sharedRelationship (kind : String) (direction : Direction) (minStrength : Option Float)
      (entity partner : Option String)
  | catalyzedEvents (entity : Option String)
  | prominenceMultiplier (entity : Option String) (curve : ProminenceCurve)
  | decayRate (rate : DecayRate)
  | falloff (falloff : Falloff) (distance : Float) (maxDistance : Option Float)
  | binding (name : String)

inductive Metric where
  | scaled (measure : Measure) (scale : Scale)
  | unrecognized (typeName : String)

namespace Measure

def typeName : Measure → String
  | entityCount .. => "entity_count"
  | relationshipCount .. => "relationship_count"
  | tagCount .. => "tag_count"
  | totalEntities => "total_entities"
  | constant .. => "constant"
  | connectionCount .. => "connection_count"
  | ratio .. => "ratio"
  | statusRatio .. => "status_ratio"
  | crossCultureRatio .. => "cross_culture_ratio"
  | sharedRelationship .. => "shared_relationship"
  | catalyzedEvents .. => "catalyzed_events"
  | prominenceMultiplier .. => "prominence_multiplier"
  | decayRate .. => "decay_rate"
  | falloff .. => "falloff"
  | binding .. => "variable"

def ofFields? (type : String) (fields : Fields) : Option Measure :=
  let text name := fields.required name Datum.asText
  let entity := fields.optional "entity" Datum.asText
  let edges := EdgeFilter.ofFields? fields
  let direction := fields.withDefault "direction" (Direction.ofDatum? .whole) .both
  match type with
  | "entity_count" => return entityCount (← Census.ofFields? fields)
  | "relationship_count" => return relationshipCount (← entity) (← edges) (← direction)
  | "tag_count" => return tagCount (← text "tag")
  | "total_entities" => return totalEntities
  | "constant" => return constant (← fields.required "value" Datum.asFloat)
  | "connection_count" => return connectionCount (← entity) (← edges) (← direction)
  | "ratio" =>
    return ratio (← fields.required "numerator" Count.ofNested?)
      (← fields.required "denominator" Count.ofNested?)
      (← fields.withDefault "fallback_value" Datum.asFloat 0)
  | "status_ratio" =>
    return statusRatio (← text "kind") (← fields.optional "subtype" Datum.asText)
      (← text "alive_status")
  | "cross_culture_ratio" =>
    return crossCultureRatio
      (← fields.withDefault "relationship_kinds" (Datum.asList Datum.asText) [])
  | "shared_relationship" =>
    return sharedRelationship (← text "shared_relationship_kind")
      (← fields.withDefault "shared_direction" (Direction.ofDatum? .whole) .src)
      (← fields.optional "min_strength" Datum.asFloat) (← entity)
      (← fields.optional "with" Datum.asText)
  | "catalyzed_events" => return catalyzedEvents (← entity)
  | "prominence_multiplier" =>
    return prominenceMultiplier (← entity)
      (← fields.withDefault "mode" (ProminenceCurve.ofDatum? .whole) .successChance)
  | "decay_rate" => return decayRate (← fields.required "rate" (DecayRate.ofDatum? .whole))
  | "falloff" =>
    return falloff (← fields.required "falloff_type" (Falloff.ofDatum? .whole))
      (← fields.required "distance" Datum.asFloat)
      (← fields.optional "max_distance" Datum.asFloat)
  | "variable" => return binding (← text "name")
  | _ => none

def toFields : Measure → Fields
  | entityCount census => census.toFields
  | relationshipCount entity edges direction | connectionCount entity edges direction =>
    [("entity", .ofOption .text entity), ("direction", direction.toDatum)] ++ edges.toFields
  | tagCount tag => [("tag", .text tag)]
  | totalEntities => []
  | constant value => [("value", .ofFloat value)]
  | ratio numerator denominator fallback =>
    [("numerator", numerator.toDatum), ("denominator", denominator.toDatum),
      ("fallback_value", .ofFloat fallback)]
  | statusRatio kind subtype aliveStatus =>
    [("kind", .text kind), ("subtype", .ofOption .text subtype),
      ("alive_status", .text aliveStatus)]
  | crossCultureRatio kinds => [("relationship_kinds", .ofList .text kinds)]
  | sharedRelationship kind direction minStrength entity partner =>
    [("shared_relationship_kind", .text kind), ("shared_direction", direction.toDatum),
      ("min_strength", .ofOption .ofFloat minStrength), ("entity", .ofOption .text entity),
      ("with", .ofOption .text partner)]
  | catalyzedEvents entity => [("entity", .ofOption .text entity)]
  | prominenceMultiplier entity curve =>
    [("entity", .ofOption .text entity), ("mode", curve.toDatum)]
  | decayRate rate => [("rate", rate.toDatum)]
  | falloff curve distance maxDistance =>
    [("falloff_type", curve.toDatum), ("distance", .ofFloat distance),
      ("max_distance", .ofOption .ofFloat maxDistance)]
  | binding name => [("name", .text name)]

end Measure

namespace Metric

def typeNames : List String :=
  ["entity_count", "relationship_count", "tag_count", "total_entities", "constant",
    "connection_count", "ratio", "status_ratio", "cross_culture_ratio", "shared_relationship",
    "catalyzed_events", "prominence_multiplier", "decay_rate", "falloff", "variable"]

def typeName : Metric → String
  | scaled measure _ => measure.typeName
  | unrecognized typeName => typeName

def scale : Metric → Scale
  | scaled _ scale => scale
  | unrecognized _ => {}

def ofFields? (type : String) (fields : Fields) : Option Metric := do
  return scaled (← Measure.ofFields? type fields) (← Scale.ofFields? fields)

/-- The scale has no place in a list, so no metric is given as one. -/
def ofDatum? : Datum → Option Metric :=
  Datum.readRule typeNames (fun _ => none) unrecognized ofFields?

/-- The data of a recognized metric. -/
def toDatum? : Metric → Option Datum
  | scaled measure scale => some (.ofRule measure.typeName (measure.toFields ++ scale.toFields))
  | unrecognized _ => none

end Metric

/-- What a metric came to, and why. -/
structure MetricResult where
  value : Float
  diagnostic : String
  details : Datum := .null

namespace MetricResult

def toDatum (r : MetricResult) : Datum :=
  .object [("value", .ofFloat r.value), ("diagnostic", .text r.diagnostic), ("details", r.details)]

def ofDatum? (d : Datum) : Option MetricResult := do
  let fields ← d.asRecord .json ["value", "diagnostic", "details"]
  return {
    value := ← fields.required "value" Datum.asFloat
    diagnostic := ← fields.required "diagnostic" Datum.asText
    details := ← fields.withDefault "details" Datum.settled? .null }

end MetricResult

end StoryWorld

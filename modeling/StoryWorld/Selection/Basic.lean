import StoryWorld.Filter.Basic
import StoryWorld.Selection.Pick

/-!
# Selection rules

A selection rule says which entities are candidates and how many of them to pick. It starts from
the entities of some kinds, narrows them by a strategy, by lists of subtypes and statuses, by
filters and by limits on how many relationships they already have, and picks from what is left. A
variable rule does the same for the entities a variable may stand for, which may also be the
neighbours of some entity, and prefers candidates that pass further filters.
-/

namespace StoryWorld

/-- How the pool is narrowed first. -/
inductive Strategy where
  /-- Not at all. -/
  | byKind
  /-- To the first of the listed subtypes that anyone has, if there is one. -/
  | byPreferenceOrder (subtypes : List String)
  /-- To those that have such a relationship, or to those that have none. -/
  | byRelationship (kind : Option String) (direction : Direction) (mustHave : Bool)
  /-- To those near an entity. -/
  | byProximity (reference : String) (maxDistance : Option Float)
  | byProminence (least : Prominence)

namespace Strategy

def typeNames : List String :=
  ["by_kind", "by_preference_order", "by_relationship", "by_proximity", "by_prominence"]

def typeName : Strategy → String
  | byKind => "by_kind"
  | byPreferenceOrder .. => "by_preference_order"
  | byRelationship .. => "by_relationship"
  | byProximity .. => "by_proximity"
  | byProminence .. => "by_prominence"

/-- A strategy of a given type, from data that may hold other fields besides. -/
def ofTyped? (type : String) (d : Datum) : Option Strategy :=
  match type with
  | "by_kind" => do
    let _ ← d.asRecord .whole ["strategy"]
    return byKind
  | "by_preference_order" => do
    let fields ← d.asRecord .whole ["strategy", "subtype_preferences"]
    return byPreferenceOrder
      (← fields.required "subtype_preferences" (Datum.asList Datum.asText))
  | "by_relationship" => do
    let fields ← d.asRecord .whole ["strategy", "relationship_kind", "direction", "must_have"]
    return byRelationship (← fields.optional "relationship_kind" Datum.asText)
      (← fields.withDefault "direction" (Direction.ofDatum? .whole) .both)
      (← fields.withDefault "must_have" Datum.asBool true)
  | "by_proximity" => do
    let fields ← d.asRecord .whole ["strategy", "reference_entity", "max_distance"]
    return byProximity (← fields.required "reference_entity" Datum.asText)
      (← fields.optional "max_distance" Datum.asFloat)
  | "by_prominence" => do
    let fields ← d.asRecord .whole ["strategy", "min_prominence"]
    return byProminence (← fields.withDefault "min_prominence" Prominence.ofDatum? .marginal)
  | _ => none

def ofDatum? (d : Datum) : Option Strategy := do
  let d ← d.whole?
  ofTyped? (← d.tagText? "strategy") d

/-- A strategy among the fields that a rule has no other use for. There it may also be given by its
place, but not in TOML, whose numbers are all signed. -/
def ofSpare? (setting : Datum.Setting) (fields : Fields) : Option Strategy := do
  let d ← (Datum.object fields).whole?
  match setting with
  | .toml => ofTyped? (← d.tagText? "strategy") d
  | _ => ofTyped? (← d.tagChoice? "strategy" typeNames) d

def toFields (s : Strategy) : Fields :=
  ("strategy", .text s.typeName) :: match s with
    | byKind => []
    | byPreferenceOrder subtypes => [("subtype_preferences", .ofList .text subtypes)]
    | byRelationship kind direction mustHave =>
      [("relationship_kind", .ofOption .text kind), ("direction", direction.toDatum),
        ("must_have", .bool mustHave)]
    | byProximity reference maxDistance =>
      [("reference_entity", .text reference), ("max_distance", .ofOption .ofFloat maxDistance)]
    | byProminence least => [("min_prominence", least.toDatum)]

def toDatum (s : Strategy) : Datum := .object s.toFields

end Strategy

/-- A candidate may have fewer than `maxCount` relationships of a kind, counting only those with
entities of the kind `fromKind` when one is given. -/
structure SaturationLimit where
  relationshipKind : String
  direction : Direction := .both
  fromKind : Option String := none
  maxCount : UInt64
  deriving DecidableEq

namespace SaturationLimit

def toDatum (l : SaturationLimit) : Datum :=
  .object [
    ("relationship_kind", .text l.relationshipKind),
    ("direction", l.direction.toDatum),
    ("from_kind", .ofOption .text l.fromKind),
    ("max_count", .ofNat l.maxCount.toNat)]

def ofDatum? (setting : Datum.Setting) (d : Datum) : Option SaturationLimit := do
  let fields ← d.asRecord setting ["relationship_kind", "direction", "from_kind", "max_count"]
  return {
    relationshipKind := ← fields.required "relationship_kind" Datum.asText
    direction := ← fields.withDefault "direction" (Direction.ofDatum? setting) .both
    fromKind := ← fields.optional "from_kind" Datum.asText
    maxCount := ← fields.required "max_count" Datum.asUInt64 }

end SaturationLimit

/-- The words a candidate's kind, subtype and status are held against. -/
structure Criteria where
  kind : Option String := none
  kinds : List String := []
  subtypes : List String := []
  status : Option String := none
  statuses : List String := []
  notStatus : Option String := none
  deriving DecidableEq

namespace Criteria

def toFields (c : Criteria) : Fields :=
  [("kind", .ofOption .text c.kind), ("kinds", .ofList .text c.kinds),
    ("subtypes", .ofList .text c.subtypes), ("status", .ofOption .text c.status),
    ("statuses", .ofList .text c.statuses), ("not_status", .ofOption .text c.notStatus)]

def fieldNames : List String :=
  ["kind", "kinds", "subtypes", "status", "statuses", "not_status"]

def ofFields? (fields : Fields) : Option Criteria := do
  let texts name := fields.withDefault name (Datum.asList Datum.asText) []
  return {
    kind := ← fields.optional "kind" Datum.asText
    kinds := ← texts "kinds"
    subtypes := ← texts "subtypes"
    status := ← fields.optional "status" Datum.asText
    statuses := ← texts "statuses"
    notStatus := ← fields.optional "not_status" Datum.asText }

end Criteria

structure SelectionRule where
  strategy : Strategy := .byKind
  criteria : Criteria := {}
  excludeSubtypes : List String := []
  filters : List Filter := []
  saturationLimits : List SaturationLimit := []
  pickStrategy : PickStrategy := .all
  maxResults : Option UInt64 := none

namespace SelectionRule

def toDatum? (r : SelectionRule) : Option Datum := do
  let filters ← Datum.ofListM Filter.toDatum? r.filters
  return .object (r.strategy.toFields ++ r.criteria.toFields ++ [
    ("exclude_subtypes", .ofList .text r.excludeSubtypes),
    ("filters", .list filters),
    ("saturation_limits", .ofList SaturationLimit.toDatum r.saturationLimits),
    ("pick_strategy", r.pickStrategy.toDatum),
    ("max_results", .ofOption (.ofNat ·.toNat) r.maxResults)])

def fieldNames : List String :=
  Criteria.fieldNames
    ++ ["exclude_subtypes", "filters", "saturation_limits", "pick_strategy", "max_results"]

/-- The fields of the strategy stand among the others, so a selection rule is never a list. -/
def ofDatum? (setting : Datum.Setting) (d : Datum) : Option SelectionRule := do
  let fields ← d.asNamed fieldNames
  return {
    strategy := ← Strategy.ofSpare? setting (fields.filter (·.1 ∉ fieldNames))
    criteria := ← Criteria.ofFields? fields
    excludeSubtypes := ← fields.withDefault "exclude_subtypes" (Datum.asList Datum.asText) []
    filters := ← fields.withDefault "filters" (Datum.asList Filter.ofDatum?) []
    saturationLimits :=
      ← fields.withDefault "saturation_limits" (Datum.asList (SaturationLimit.ofDatum? setting)) []
    pickStrategy := ← fields.withDefault "pick_strategy" (PickStrategy.ofDatum? setting) .all
    maxResults := ← fields.optional "max_results" Datum.asUInt64 }

end SelectionRule

/-- Where the candidates for a variable come from. -/
inductive VariableSource where
  | graph
  | related (anchor kind : String) (direction : Direction)
  deriving DecidableEq

namespace VariableSource

def toDatum : VariableSource → Datum
  | graph => .object [("source", .text "graph")]
  | related anchor kind direction =>
    .object [("source", .text "related"), ("related_to", .text anchor),
      ("relationship_kind", .text kind), ("direction", direction.toDatum)]

def ofDatum? (d : Datum) : Option VariableSource := do
  let d ← d.whole?
  match ← d.tagText? "source" with
  | "graph" =>
    let _ ← d.asRecord .whole ["source"]
    return graph
  | "related" =>
    let fields ← d.asRecord .whole ["source", "related_to", "relationship_kind", "direction"]
    return related (← fields.required "related_to" Datum.asText)
      (← fields.required "relationship_kind" Datum.asText)
      (← fields.withDefault "direction" (Direction.ofDatum? .whole) .both)
  | _ => none

end VariableSource

structure VariableRule where
  source : VariableSource := .graph
  criteria : Criteria := {}
  filters : List Filter := []
  /-- Filters that count only when somebody passes them. -/
  preferFilters : List Filter := []
  pickStrategy : PickStrategy := .random
  maxResults : Option UInt64 := none

namespace VariableRule

def toDatum? (r : VariableRule) : Option Datum := do
  let filters ← Datum.ofListM Filter.toDatum? r.filters
  let preferFilters ← Datum.ofListM Filter.toDatum? r.preferFilters
  return .object (("from", r.source.toDatum) :: r.criteria.toFields ++ [
    ("filters", .list filters),
    ("prefer_filters", .list preferFilters),
    ("pick_strategy", r.pickStrategy.toDatum),
    ("max_results", .ofOption (.ofNat ·.toNat) r.maxResults)])

def fieldNames : List String :=
  "from" :: Criteria.fieldNames
    ++ ["filters", "prefer_filters", "pick_strategy", "max_results"]

def ofDatum? (setting : Datum.Setting) (d : Datum) : Option VariableRule := do
  let fields ← d.asRecord setting fieldNames
  return {
    source := ← fields.withDefault "from" VariableSource.ofDatum? .graph
    criteria := ← Criteria.ofFields? fields
    filters := ← fields.withDefault "filters" (Datum.asList Filter.ofDatum?) []
    preferFilters := ← fields.withDefault "prefer_filters" (Datum.asList Filter.ofDatum?) []
    pickStrategy := ← fields.withDefault "pick_strategy" (PickStrategy.ofDatum? setting) .random
    maxResults := ← fields.optional "max_results" Datum.asUInt64 }

end VariableRule

end StoryWorld

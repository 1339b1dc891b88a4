import StoryWorld.World.Query

/-!
# Change sets

A change set is everything that rules propose to do to a world, as data: edits of entities, new
relationships, relationships to archive, strengths and pressures to move. Proposals are collected
by appending one set to another; nothing here touches a world.
-/

namespace StoryWorld

/-- An edit of one entity. -/
inductive EntityEdit where
  | setTag (entity : EntityId) (tag : String) (value : TagValue)
  | removeTag (entity : EntityId) (tag : String)
  | setStatus (entity : EntityId) (status : String)
  | shiftProminence (entity : EntityId) (steps : Int32)
  deriving DecidableEq

namespace EntityEdit

def entity : EntityEdit → EntityId
  | setTag e _ _ | removeTag e _ | setStatus e _ | shiftProminence e _ => e

def toDatum : EntityEdit → Datum
  | setTag e tag value =>
    .object [("op", .text "set_tag"), ("entity", e.toDatum), ("tag", .text tag),
      ("value", value.toDatum)]
  | removeTag e tag =>
    .object [("op", .text "remove_tag"), ("entity", e.toDatum), ("tag", .text tag)]
  | setStatus e status =>
    .object [("op", .text "set_status"), ("entity", e.toDatum), ("status", .text status)]
  | shiftProminence e steps =>
    .object [("op", .text "shift_prominence"), ("entity", e.toDatum), ("steps", .int steps.toInt)]

def ofDatum? (d : Datum) : Option EntityEdit := do
  let d ← d.whole?
  match ← d.tagText? "op" with
  | "set_tag" =>
    let fields ← d.asRecord .whole ["op", "entity", "tag", "value"]
    return setTag (← fields.required "entity" EntityId.ofDatum?)
      (← fields.required "tag" Datum.asText) (← fields.required "value" TagValue.ofDatum?)
  | "remove_tag" =>
    let fields ← d.asRecord .whole ["op", "entity", "tag"]
    return removeTag (← fields.required "entity" EntityId.ofDatum?)
      (← fields.required "tag" Datum.asText)
  | "set_status" =>
    let fields ← d.asRecord .whole ["op", "entity", "status"]
    return setStatus (← fields.required "entity" EntityId.ofDatum?)
      (← fields.required "status" Datum.asText)
  | "shift_prominence" =>
    let fields ← d.asRecord .whole ["op", "entity", "steps"]
    return shiftProminence (← fields.required "entity" EntityId.ofDatum?)
      (← fields.required "steps" Datum.asInt32)
  | _ => none

end EntityEdit

/-- Which relationships an edit is about: those of `kind` that join `entity` to `other`, seen from
`entity` in `direction`. -/
structure RelationshipKey where
  kind : String
  entity : EntityId
  other : EntityId
  direction : Direction
  deriving DecidableEq

namespace RelationshipKey

def covers (k : RelationshipKey) (r : Relationship) : Bool :=
  r.kind = k.kind && r.connects k.entity k.other k.direction

def toDatum (k : RelationshipKey) : Datum :=
  .object [("kind", .text k.kind), ("entity", k.entity.toDatum), ("other", k.other.toDatum),
    ("direction", k.direction.toDatum)]

def ofDatum? (d : Datum) : Option RelationshipKey := do
  let fields ← d.asRecord .json ["kind", "entity", "other", "direction"]
  return {
    kind := ← fields.required "kind" Datum.asText
    entity := ← fields.required "entity" EntityId.ofDatum?
    other := ← fields.required "other" EntityId.ofDatum?
    direction := ← fields.required "direction" (Direction.ofDatum? .json) }

end RelationshipKey

structure StrengthChange where
  key : RelationshipKey
  delta : Float

namespace StrengthChange

def toDatum (c : StrengthChange) : Datum :=
  .object [("key", c.key.toDatum), ("delta", .ofFloat c.delta)]

def ofDatum? (d : Datum) : Option StrengthChange := do
  let fields ← d.asRecord .json ["key", "delta"]
  return {
    key := ← fields.required "key" RelationshipKey.ofDatum?
    delta := ← fields.required "delta" Datum.asFloat }

end StrengthChange

structure PressureChange where
  pressure : String
  delta : Float

namespace PressureChange

def toDatum (c : PressureChange) : Datum :=
  .object [("pressure_id", .text c.pressure), ("delta", .ofFloat c.delta)]

def ofDatum? (d : Datum) : Option PressureChange := do
  let fields ← d.asRecord .json ["pressure_id", "delta"]
  return {
    pressure := ← fields.required "pressure_id" Datum.asText
    delta := ← fields.required "delta" Datum.asFloat }

end PressureChange

structure ChangeSet where
  entityEdits : List EntityEdit := []
  newRelationships : List Relationship := []
  archived : List RelationshipKey := []
  strengthChanges : List StrengthChange := []
  pressureChanges : List PressureChange := []

namespace ChangeSet

def isEmpty (c : ChangeSet) : Bool :=
  c.entityEdits.isEmpty && c.newRelationships.isEmpty && c.archived.isEmpty
    && c.strengthChanges.isEmpty && c.pressureChanges.isEmpty

/-- The changes of `a`, then those of `b`. -/
protected def append (a b : ChangeSet) : ChangeSet where
  entityEdits := a.entityEdits ++ b.entityEdits
  newRelationships := a.newRelationships ++ b.newRelationships
  archived := a.archived ++ b.archived
  strengthChanges := a.strengthChanges ++ b.strengthChanges
  pressureChanges := a.pressureChanges ++ b.pressureChanges

instance : Append ChangeSet := ⟨ChangeSet.append⟩

def toDatum (c : ChangeSet) : Datum :=
  .object [
    ("entity_changes", .ofList EntityEdit.toDatum c.entityEdits),
    ("new_relationships", .ofList Relationship.toDatum c.newRelationships),
    ("archived_relationships", .ofList RelationshipKey.toDatum c.archived),
    ("strength_changes", .ofList StrengthChange.toDatum c.strengthChanges),
    ("pressure_changes", .ofList PressureChange.toDatum c.pressureChanges)]

def fieldNames : List String :=
  ["entity_changes", "new_relationships", "archived_relationships", "strength_changes",
    "pressure_changes"]

def ofDatum? (d : Datum) : Option ChangeSet := do
  let fields ← d.asRecord .json fieldNames
  return {
    entityEdits := ← fields.required "entity_changes" (Datum.asList EntityEdit.ofDatum?)
    newRelationships := ← fields.required "new_relationships" (Datum.asList Relationship.ofDatum?)
    archived := ← fields.required "archived_relationships" (Datum.asList RelationshipKey.ofDatum?)
    strengthChanges := ← fields.required "strength_changes" (Datum.asList StrengthChange.ofDatum?)
    pressureChanges := ←
      fields.required "pressure_changes" (Datum.asList PressureChange.ofDatum?) }

end ChangeSet

end StoryWorld

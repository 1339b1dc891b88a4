import StoryWorld.Datum.Rule
import StoryWorld.Scope
import StoryWorld.World.Commit

/-!
# Mutations

A mutation proposes a change of a world in terms of references. Preparing it yields a change set
or a reason why there is none; committing the change set is a separate act. A mutation of an
unknown type proposes nothing.
-/

namespace StoryWorld

inductive Mutation where
  | setTag (entity tag : String) (value : TagValue)
  | removeTag (entity tag : String)
  | changeStatus (entity status : String)
  | adjustProminence (entity : String) (delta : Int32)
  | createRelationship (kind src dst : String) (strength : Option Float)
      (category : Option String) (bidirectional : Bool)
  | archiveRelationship (entity partner kind : String) (direction : Direction)
  | adjustStrength (src dst kind : String) (delta : Float)
  | modifyPressure (pressure : String) (delta : Float)
  | unrecognized (typeName : String)

namespace Mutation

def typeNames : List String :=
  ["set_tag", "remove_tag", "change_status", "adjust_prominence", "create_relationship",
    "archive_relationship", "adjust_relationship_strength", "modify_pressure"]

/-- The fields of each type, in their order. -/
def fieldNames? : String → Option (List String)
  | "set_tag" => some ["entity", "tag", "value"]
  | "remove_tag" => some ["entity", "tag"]
  | "change_status" => some ["entity", "new_status"]
  | "adjust_prominence" => some ["entity", "delta"]
  | "create_relationship" => some ["kind", "src", "dst", "strength", "category", "bidirectional"]
  | "archive_relationship" => some ["entity", "with", "kind", "direction"]
  | "adjust_relationship_strength" => some ["src", "dst", "kind", "delta"]
  | "modify_pressure" => some ["pressure_id", "delta"]
  | _ => none

def typeName : Mutation → String
  | setTag .. => "set_tag"
  | removeTag .. => "remove_tag"
  | changeStatus .. => "change_status"
  | adjustProminence .. => "adjust_prominence"
  | createRelationship .. => "create_relationship"
  | archiveRelationship .. => "archive_relationship"
  | adjustStrength .. => "adjust_relationship_strength"
  | modifyPressure .. => "modify_pressure"
  | unrecognized typeName => typeName

def ofFields? (type : String) (fields : Fields) : Option Mutation :=
  let text name := fields.required name Datum.asText
  let entity := fields.withDefault "entity" Datum.asText selfReference
  let amount := fields.required "delta" Datum.asFloat
  match type with
  | "set_tag" =>
    return setTag (← entity) (← text "tag")
      (← fields.withDefault "value" TagValue.ofDatum? (.flag true))
  | "remove_tag" => return removeTag (← entity) (← text "tag")
  | "change_status" => return changeStatus (← entity) (← text "new_status")
  | "adjust_prominence" =>
    return adjustProminence (← entity) (← fields.required "delta" Datum.asInt32)
  | "create_relationship" =>
    return createRelationship (← text "kind") (← text "src") (← text "dst")
      (← fields.optional "strength" Datum.asFloat) (← fields.optional "category" Datum.asText)
      (← fields.withDefault "bidirectional" Datum.asBool false)
  | "archive_relationship" =>
    return archiveRelationship (← entity) (← text "with") (← text "kind")
      (← fields.withDefault "direction" (Direction.ofDatum? .whole) .both)
  | "adjust_relationship_strength" =>
    return adjustStrength (← text "src") (← text "dst") (← text "kind") (← amount)
  | "modify_pressure" => return modifyPressure (← text "pressure_id") (← amount)
  | _ => none

def ofDatum? : Datum → Option Mutation :=
  Datum.readRule typeNames fieldNames? unrecognized ofFields?

/-- The data of a recognized mutation. -/
def toDatum? : Mutation → Option Datum
  | setTag entity tag value =>
    some (.ofRule "set_tag" [("entity", .text entity), ("tag", .text tag),
      ("value", value.toDatum)])
  | removeTag entity tag =>
    some (.ofRule "remove_tag" [("entity", .text entity), ("tag", .text tag)])
  | changeStatus entity status =>
    some (.ofRule "change_status" [("entity", .text entity), ("new_status", .text status)])
  | adjustProminence entity delta =>
    some (.ofRule "adjust_prominence" [("entity", .text entity), ("delta", .int delta.toInt)])
  | createRelationship kind src dst strength category bidirectional =>
    some (.ofRule "create_relationship" [("kind", .text kind), ("src", .text src),
      ("dst", .text dst), ("strength", .ofOption .ofFloat strength),
      ("category", .ofOption .text category), ("bidirectional", .bool bidirectional)])
  | archiveRelationship entity partner kind direction =>
    some (.ofRule "archive_relationship" [("entity", .text entity), ("with", .text partner),
      ("kind", .text kind), ("direction", direction.toDatum)])
  | adjustStrength src dst kind delta =>
    some (.ofRule "adjust_relationship_strength" [("src", .text src), ("dst", .text dst),
      ("kind", .text kind), ("delta", .ofFloat delta)])
  | modifyPressure pressure delta =>
    some (.ofRule "modify_pressure" [("pressure_id", .text pressure), ("delta", .ofFloat delta)])
  | unrecognized _ => none

end Mutation

end StoryWorld

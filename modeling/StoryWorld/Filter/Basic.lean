import StoryWorld.Path.Walk

/-!
# Filters

A filter narrows a list of candidates. Each kind of filter asks one thing of an entity, some of
them in comparison with an entity that a reference means. A filter of an unknown type lets nobody
through.
-/

namespace StoryWorld

inductive Filter where
  | exclude (references : List String)
  | hasRelationship (kind : String) (partner : Option String) (direction : Direction)
  | lacksRelationship (kind : String) (partner : Option String) (direction : Direction)
  | hasTag (tag : String) (value : Option TagValue)
  | lacksTag (tag : String) (value : Option TagValue)
  | hasTags (tags : List String)
  | hasAnyTag (tags : List String)
  | lacksAnyTag (tags : List String)
  | hasCulture (culture : String)
  | matchesCulture (model : Option String)
  | notMatchesCulture (model : Option String)
  | hasStatus (status : String)
  | hasProminence (least : Prominence)
  | sharesRelated (kind : String) (partner : String)
  | path (assertion : PathAssertion)
  | unrecognized (typeName : String)
  deriving DecidableEq

namespace Filter

def typeNames : List String :=
  ["exclude", "has_relationship", "lacks_relationship", "has_tag", "lacks_tag", "has_tags",
    "has_any_tag", "lacks_any_tag", "has_culture", "matches_culture", "not_matches_culture",
    "has_status", "has_prominence", "shares_related", "graph_path"]

/-- The fields of each type, in their order. -/
def fieldNames? : String → Option (List String)
  | "exclude" => some ["entities"]
  | "has_relationship" | "lacks_relationship" => some ["kind", "with", "direction"]
  | "has_tag" | "lacks_tag" => some ["tag", "value"]
  | "has_tags" | "has_any_tag" | "lacks_any_tag" => some ["tags"]
  | "has_culture" => some ["culture"]
  | "matches_culture" | "not_matches_culture" => some ["with"]
  | "has_status" => some ["status"]
  | "has_prominence" => some ["min_prominence"]
  | "shares_related" => some ["relationship_kind", "with"]
  | "graph_path" => some ["assert"]
  | _ => none

/-- A short text that says which filter this is. -/
def describe : Filter → String
  | exclude references => s!"exclude {references.length} reference(s)"
  | hasRelationship kind _ _ => s!"has_relationship {kind}"
  | lacksRelationship kind _ _ => s!"lacks_relationship {kind}"
  | hasTag tag _ => s!"has_tag {tag}"
  | lacksTag tag _ => s!"lacks_tag {tag}"
  | hasTags tags => "has_tags " ++ ",".intercalate tags
  | hasAnyTag tags => "has_any_tag " ++ ",".intercalate tags
  | lacksAnyTag tags => "lacks_any_tag " ++ ",".intercalate tags
  | hasCulture culture => s!"has_culture {culture}"
  | matchesCulture _ => "matches_culture"
  | notMatchesCulture _ => "not_matches_culture"
  | hasStatus status => s!"has_status {status}"
  | hasProminence least => s!"has_prominence >= {least}"
  | sharesRelated kind _ => s!"shares_related {kind}"
  | path assertion => s!"graph_path ({assertion.path.length} step(s))"
  | unrecognized typeName => s!"unrecognized '{typeName}'"

def ofFields? (type : String) (fields : Fields) : Option Filter :=
  let text name := fields.required name Datum.asText
  let texts name := fields.required name (Datum.asList Datum.asText)
  let value := fields.optional "value" TagValue.ofDatum?
  let partner := fields.optional "with" Datum.asText
  let direction := fields.withDefault "direction" (Direction.ofDatum? .whole) .both
  match type with
  | "exclude" => return exclude (← texts "entities")
  | "has_relationship" => return hasRelationship (← text "kind") (← partner) (← direction)
  | "lacks_relationship" => return lacksRelationship (← text "kind") (← partner) (← direction)
  | "has_tag" => return hasTag (← text "tag") (← value)
  | "lacks_tag" => return lacksTag (← text "tag") (← value)
  | "has_tags" => return hasTags (← texts "tags")
  | "has_any_tag" => return hasAnyTag (← texts "tags")
  | "lacks_any_tag" => return lacksAnyTag (← texts "tags")
  | "has_culture" => return hasCulture (← text "culture")
  | "matches_culture" => return matchesCulture (← partner)
  | "not_matches_culture" => return notMatchesCulture (← partner)
  | "has_status" => return hasStatus (← text "status")
  | "has_prominence" =>
    return hasProminence (← fields.required "min_prominence" Prominence.ofDatum?)
  | "shares_related" => return sharesRelated (← text "relationship_kind") (← text "with")
  | "graph_path" => return path (← fields.required "assert" (PathAssertion.ofDatum? .whole))
  | _ => none

def ofDatum? : Datum → Option Filter := Datum.readRule typeNames fieldNames? unrecognized ofFields?

/-- The data of a filter that is recognized through and through. -/
def toDatum? : Filter → Option Datum
  | exclude references =>
    some (.ofRule "exclude" [("entities", .ofList .text references)])
  | hasRelationship kind partner direction =>
    some (.ofRule "has_relationship" [("kind", .text kind), ("with", .ofOption .text partner),
      ("direction", direction.toDatum)])
  | lacksRelationship kind partner direction =>
    some (.ofRule "lacks_relationship" [("kind", .text kind), ("with", .ofOption .text partner),
      ("direction", direction.toDatum)])
  | hasTag tag value =>
    some (.ofRule "has_tag" [("tag", .text tag), ("value", .ofOption TagValue.toDatum value)])
  | lacksTag tag value =>
    some (.ofRule "lacks_tag" [("tag", .text tag), ("value", .ofOption TagValue.toDatum value)])
  | hasTags tags => some (.ofRule "has_tags" [("tags", .ofList .text tags)])
  | hasAnyTag tags => some (.ofRule "has_any_tag" [("tags", .ofList .text tags)])
  | lacksAnyTag tags => some (.ofRule "lacks_any_tag" [("tags", .ofList .text tags)])
  | hasCulture culture => some (.ofRule "has_culture" [("culture", .text culture)])
  | matchesCulture model =>
    some (.ofRule "matches_culture" [("with", .ofOption .text model)])
  | notMatchesCulture model =>
    some (.ofRule "not_matches_culture" [("with", .ofOption .text model)])
  | hasStatus status => some (.ofRule "has_status" [("status", .text status)])
  | hasProminence least => some (.ofRule "has_prominence" [("min_prominence", least.toDatum)])
  | sharesRelated kind partner =>
    some (.ofRule "shares_related" [("relationship_kind", .text kind), ("with", .text partner)])
  | path assertion => do return .ofRule "graph_path" [("assert", ← assertion.toDatum?)]
  | unrecognized _ => none

end Filter

end StoryWorld

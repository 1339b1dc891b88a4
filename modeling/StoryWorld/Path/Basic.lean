import StoryWorld.Datum.Rule
import StoryWorld.Scope

/-!
# Path assertions

A path assertion follows relationships from a start entity, one step after the other, and checks
how many entities it ends at. A step may narrow the entities it reaches and may capture them under
a name, and constraints narrow the entities at the end. A constraint of an unknown type lets no
entity through.
-/

namespace StoryWorld

/-- What is checked about the number of entities at the end. -/
inductive PathCheck where
  | nonempty
  | empty
  | atLeast
  | atMost
  deriving DecidableEq, Repr

namespace PathCheck

def name : PathCheck → String
  | nonempty => "exists"
  | empty => "not_exists"
  | atLeast => "count_min"
  | atMost => "count_max"

def ofName? : String → Option PathCheck
  | "exists" => some nonempty
  | "not_exists" => some empty
  | "count_min" => some atLeast
  | "count_max" => some atMost
  | _ => none

abbrev toDatum (c : PathCheck) : Datum := .ofChoice name c

abbrev ofDatum? (setting : Datum.Setting) : Datum → Option PathCheck :=
  Datum.asChoice setting ofName?

end PathCheck

/-- What an entity at the far end of a relationship has to be. An unset part allows anything. -/
structure Target where
  kind : Option String := none
  subtype : Option String := none
  status : Option String := none
  deriving DecidableEq

namespace Target

def toFields (t : Target) : Fields :=
  [("target_kind", .ofOption .text t.kind), ("target_subtype", .ofOption .text t.subtype),
    ("target_status", .ofOption .text t.status)]

def ofFields? (fields : Fields) : Option Target := do
  return {
    kind := ← fields.optional "target_kind" Datum.asText
    subtype := ← fields.optional "target_subtype" Datum.asText
    status := ← fields.optional "target_status" Datum.asText }

end Target

/-- One step along relationships of the kind `via`. -/
structure PathStep where
  via : String
  direction : Direction := .both
  target : Target := {}
  /-- The name the entities reached here are captured under. -/
  captureAs : Option String := none
  deriving DecidableEq

namespace PathStep

/-- Whether `wanted` is unset, the word `any`, or equal to `actual`. -/
def allows (wanted : Option String) (actual : String) : Bool :=
  wanted.all fun w => w = "any" || w = actual

def accepts (s : PathStep) (e : Entity) : Bool :=
  allows s.target.kind e.kind && allows s.target.subtype e.subtype
    && allows s.target.status e.status

def toDatum (s : PathStep) : Datum :=
  .object ([("via", .text s.via), ("direction", s.direction.toDatum)] ++ s.target.toFields
    ++ [("capture_as", .ofOption .text s.captureAs)])

def ofDatum? (setting : Datum.Setting) (d : Datum) : Option PathStep := do
  let fields ← d.asRecord setting
    ["via", "direction", "target_kind", "target_subtype", "target_status", "capture_as"]
  return {
    via := ← fields.required "via" Datum.asText
    direction := ← fields.withDefault "direction" (Direction.ofDatum? setting) .both
    target := ← Target.ofFields? fields
    captureAs := ← fields.optional "capture_as" Datum.asText }

end PathStep

/-- A condition on the entities at the end of a path. -/
inductive PathConstraint where
  | notIn (set : String)
  | isIn (set : String)
  | notSelf
  | hasRelationship (kind partner : String) (direction : Direction)
  | lacksRelationship (kind partner : String) (direction : Direction)
  | kindEquals (kind : String)
  | subtypeEquals (subtype : String)
  | unrecognized (typeName : String)
  deriving DecidableEq

namespace PathConstraint

def typeNames : List String :=
  ["not_in", "in", "not_self", "has_relationship", "lacks_relationship", "kind_equals",
    "subtype_equals"]

/-- The fields of each type, in their order. -/
def fieldNames? : String → Option (List String)
  | "not_in" | "in" => some ["set"]
  | "not_self" => some []
  | "has_relationship" | "lacks_relationship" => some ["kind", "with", "direction"]
  | "kind_equals" => some ["kind"]
  | "subtype_equals" => some ["subtype"]
  | _ => none

def ofFields? (type : String) (fields : Fields) : Option PathConstraint :=
  let text name := fields.required name Datum.asText
  let partner := fields.withDefault "with" Datum.asText selfReference
  let direction := fields.withDefault "direction" (Direction.ofDatum? .whole) .both
  match type with
  | "not_in" => return notIn (← text "set")
  | "in" => return isIn (← text "set")
  | "not_self" => return notSelf
  | "has_relationship" => return hasRelationship (← text "kind") (← partner) (← direction)
  | "lacks_relationship" => return lacksRelationship (← text "kind") (← partner) (← direction)
  | "kind_equals" => return kindEquals (← text "kind")
  | "subtype_equals" => return subtypeEquals (← text "subtype")
  | _ => none

def ofDatum? : Datum → Option PathConstraint :=
  Datum.readRule typeNames fieldNames? unrecognized ofFields?

/-- The data of a recognized constraint. -/
def toDatum? : PathConstraint → Option Datum
  | notIn set => some (.ofRule "not_in" [("set", .text set)])
  | isIn set => some (.ofRule "in" [("set", .text set)])
  | notSelf => some (.ofRule "not_self" [])
  | hasRelationship kind partner direction =>
    some (.ofRule "has_relationship" [("kind", .text kind), ("with", .text partner),
      ("direction", direction.toDatum)])
  | lacksRelationship kind partner direction =>
    some (.ofRule "lacks_relationship" [("kind", .text kind), ("with", .text partner),
      ("direction", direction.toDatum)])
  | kindEquals kind => some (.ofRule "kind_equals" [("kind", .text kind)])
  | subtypeEquals subtype => some (.ofRule "subtype_equals" [("subtype", .text subtype)])
  | unrecognized _ => none

end PathConstraint

structure PathAssertion where
  check : PathCheck
  path : List PathStep
  /-- The number a counting check compares with. -/
  count : Option UInt64 := none
  constraints : List PathConstraint := []
  deriving DecidableEq

namespace PathAssertion

def fieldNames : List String := ["check", "path", "count", "where"]

def ofDatum? (setting : Datum.Setting) (d : Datum) : Option PathAssertion := do
  let fields ← d.asRecord setting fieldNames
  return {
    check := ← fields.required "check" (PathCheck.ofDatum? setting)
    path := ← fields.required "path" (Datum.asList (PathStep.ofDatum? setting))
    count := ← fields.optional "count" Datum.asUInt64
    constraints := ← fields.withDefault "where" (Datum.asList PathConstraint.ofDatum?) [] }

def toDatum? (a : PathAssertion) : Option Datum := do
  let constraints ← Datum.ofListM PathConstraint.toDatum? a.constraints
  return .object [
    ("check", a.check.toDatum),
    ("path", .ofList PathStep.toDatum a.path),
    ("count", .ofOption (.ofNat ·.toNat) a.count),
    ("where", .list constraints)]

end PathAssertion

end StoryWorld

import StoryWorld.Entity.Id

/-!
# Relationships

A relationship is a directed edge of some kind between two entities. It is active until it is
archived; archived ones stay on record. Seen from an entity, a relationship lies in a direction:
`src` when the entity is its source, `dst` when it is its destination, and `both` for either.
-/

namespace StoryWorld

/-- Which end of a relationship an entity has to be. -/
inductive Direction where
  | src
  | dst
  | both
  deriving DecidableEq, Repr, Inhabited

namespace Direction

def name : Direction → String
  | src => "src"
  | dst => "dst"
  | both => "both"

def label : Direction → String
  | src => "Src"
  | dst => "Dst"
  | both => "Both"

/-- Path steps say `out`, `in` and `any`. -/
def ofName? : String → Option Direction
  | "src" | "out" => some src
  | "dst" | "in" => some dst
  | "both" | "any" => some both
  | _ => none

abbrev toDatum (d : Direction) : Datum := .ofChoice name d

abbrev ofDatum? (setting : Datum.Setting) : Datum → Option Direction :=
  Datum.asChoice setting ofName?

end Direction

inductive RelationshipStatus where
  | active
  | historical
  deriving DecidableEq, Repr, Inhabited

namespace RelationshipStatus

def name : RelationshipStatus → String
  | active => "active"
  | historical => "historical"

def ofName? : String → Option RelationshipStatus
  | "active" => some active
  | "historical" => some historical
  | _ => none

abbrev toDatum (s : RelationshipStatus) : Datum := .ofChoice name s

abbrev ofDatum? (setting : Datum.Setting) : Datum → Option RelationshipStatus :=
  Datum.asChoice setting ofName?

end RelationshipStatus

structure Relationship where
  kind : String
  src : EntityId
  dst : EntityId
  /-- The declared strength, between 0 and 1 by convention. -/
  strength : Option Float := none
  category : Option String := none
  distance : Option Float := none
  status : RelationshipStatus := .active
  /-- The entity that brought the relationship about. -/
  catalyzedBy : Option EntityId := none
  createdAt : UInt64 := 0

namespace Relationship

variable (r : Relationship)

/-- The strength, one half when none was declared. -/
def effectiveStrength : Float := r.strength.getD 0.5

def isActive : Bool := r.status = .active

/-- Whether `e` is the end of `r` that `direction` names. -/
def touches (e : EntityId) : Direction → Bool
  | .src => r.src = e
  | .dst => r.dst = e
  | .both => r.src = e || r.dst = e

/-- The end opposite `e`; that of a loop is `e` itself. -/
def otherEnd (e : EntityId) : EntityId := if r.src = e then r.dst else r.src

/-- Whether `r` joins `a` to `b`, seen from `a` in `direction`. -/
def connects (a b : EntityId) : Direction → Bool
  | .src => r.src = a && r.dst = b
  | .dst => r.dst = a && r.src = b
  | .both => r.src = a && r.dst = b || r.dst = a && r.src = b

def toDatum : Datum :=
  .object [
    ("kind", .text r.kind),
    ("src", r.src.toDatum),
    ("dst", r.dst.toDatum),
    ("strength", .ofOption .ofFloat r.strength),
    ("category", .ofOption .text r.category),
    ("distance", .ofOption .ofFloat r.distance),
    ("status", r.status.toDatum),
    ("catalyzed_by", .ofOption EntityId.toDatum r.catalyzedBy),
    ("created_at", .ofNat r.createdAt.toNat)]

def fieldNames : List String :=
  ["kind", "src", "dst", "strength", "category", "distance", "status", "catalyzed_by",
    "created_at"]

def ofDatum? (d : Datum) : Option Relationship := do
  let fields ← d.asRecord .json fieldNames
  return {
    kind := ← fields.required "kind" Datum.asText
    src := ← fields.required "src" EntityId.ofDatum?
    dst := ← fields.required "dst" EntityId.ofDatum?
    strength := ← fields.optional "strength" Datum.asFloat
    category := ← fields.optional "category" Datum.asText
    distance := ← fields.optional "distance" Datum.asFloat
    status := ← fields.withDefault "status" (RelationshipStatus.ofDatum? .json) .active
    catalyzedBy := ← fields.optional "catalyzed_by" EntityId.ofDatum?
    createdAt := ← fields.withDefault "created_at" Datum.asUInt64 0 }

end Relationship

end StoryWorld

import StoryWorld.Entity.Id
import StoryWorld.Entity.Prominence

/-!
# Entities

An entity is anything the story can talk about: a person, a place, a faction, an event. Its kind,
subtype and status are words chosen by the content. It carries tags, each with a value, and the
events it set in motion. The encoder writes every field; the decoder lets those be missing that
have a natural start value.
-/

namespace StoryWorld

/-- What a tag says: yes or no, or a text. -/
inductive TagValue where
  | flag (b : Bool)
  | text (s : String)
  deriving DecidableEq, Repr, Inhabited

namespace TagValue

protected def toString : TagValue → String
  | flag b => if b then "true" else "false"
  | text s => s

instance : ToString TagValue := ⟨TagValue.toString⟩

def toDatum : TagValue → Datum
  | flag b => .bool b
  | text s => .text s

def ofDatum? : Datum → Option TagValue
  | .bool b => some (flag b)
  | .text s => some (text s)
  | _ => none

end TagValue

/-- A place in space. -/
structure Point where
  x : Float
  y : Float
  z : Float

namespace Point

def distance (a b : Point) : Float :=
  let dx := a.x - b.x
  let dy := a.y - b.y
  let dz := a.z - b.z
  (dx * dx + dy * dy + dz * dz).sqrt

def toDatum (p : Point) : Datum :=
  .object [("x", .ofFloat p.x), ("y", .ofFloat p.y), ("z", .ofFloat p.z)]

def ofDatum? (d : Datum) : Option Point := do
  let fields ← d.asRecord .json ["x", "y", "z"]
  return {
    x := ← fields.required "x" Datum.asFloat
    y := ← fields.required "y" Datum.asFloat
    z := ← fields.withDefault "z" Datum.asFloat 0 }

end Point

/-- Something an entity set in motion. -/
structure CatalyzedEvent where
  tick : UInt64
  description : String
  relationshipKind : Option String
  deriving DecidableEq

namespace CatalyzedEvent

def toDatum (e : CatalyzedEvent) : Datum :=
  .object [
    ("tick", .ofNat e.tick.toNat),
    ("description", .text e.description),
    ("relationship_kind", .ofOption .text e.relationshipKind)]

def ofDatum? (d : Datum) : Option CatalyzedEvent := do
  let fields ← d.asRecord .json ["tick", "description", "relationship_kind"]
  return {
    tick := ← fields.required "tick" Datum.asUInt64
    description := ← fields.required "description" Datum.asText
    relationshipKind := ← fields.optional "relationship_kind" Datum.asText }

end CatalyzedEvent

/-- The tags of an entity. -/
abbrev Tags := Table String TagValue

structure Entity where
  id : EntityId
  kind : String
  subtype : String
  name : String
  status : String := "active"
  prominence : Prominence := .recognized
  culture : String := ""
  tags : Tags := {}
  coordinates : Option Point := none
  catalyzedEvents : List CatalyzedEvent := []
  createdAt : UInt64 := 0
  updatedAt : UInt64 := 0

namespace Entity

def hasTag (e : Entity) (tag : String) : Bool := e.tags.contains tag

/-- Whether the tag is there and, when a value is asked for, has that value. -/
def hasTagValue (e : Entity) (tag : String) (value : Option TagValue) : Bool :=
  match e.tags.find? tag, value with
  | none, _ => false
  | some _, none => true
  | some actual, some expected => actual = expected

def toDatum (e : Entity) : Datum :=
  .object [
    ("id", e.id.toDatum),
    ("kind", .text e.kind),
    ("subtype", .text e.subtype),
    ("name", .text e.name),
    ("status", .text e.status),
    ("prominence", e.prominence.toDatum),
    ("culture", .text e.culture),
    ("tags", .ofTable TagValue.toDatum e.tags),
    ("coordinates", .ofOption Point.toDatum e.coordinates),
    ("catalyzed_events", .ofList CatalyzedEvent.toDatum e.catalyzedEvents),
    ("created_at", .ofNat e.createdAt.toNat),
    ("updated_at", .ofNat e.updatedAt.toNat)]

def fieldNames : List String :=
  ["id", "kind", "subtype", "name", "status", "prominence", "culture", "tags", "coordinates",
    "catalyzed_events", "created_at", "updated_at"]

def ofDatum? (d : Datum) : Option Entity := do
  let fields ← d.asRecord .json fieldNames
  return {
    id := ← fields.required "id" EntityId.ofDatum?
    kind := ← fields.required "kind" Datum.asText
    subtype := ← fields.required "subtype" Datum.asText
    name := ← fields.required "name" Datum.asText
    status := ← fields.required "status" Datum.asText
    prominence := ← fields.withDefault "prominence" Prominence.ofDatum? .recognized
    culture := ← fields.withDefault "culture" Datum.asText ""
    tags := ← fields.withDefault "tags" (Datum.asTable TagValue.ofDatum?) {}
    coordinates := ← fields.optional "coordinates" Point.ofDatum?
    catalyzedEvents :=
      ← fields.withDefault "catalyzed_events" (Datum.asList CatalyzedEvent.ofDatum?) []
    createdAt := ← fields.withDefault "created_at" Datum.asUInt64 0
    updatedAt := ← fields.withDefault "updated_at" Datum.asUInt64 0 }

end Entity

end StoryWorld

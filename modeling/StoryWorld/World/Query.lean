import StoryWorld.Distinct
import StoryWorld.World.Basic

/-!
# Reading a world

Queries see only active relationships; an archived one is on record and otherwise gone. The
relationships of an entity are those it is the right end of, and its neighbours are the entities
at their far ends, each once and in the order of the edges.
-/

namespace StoryWorld

/-- What to look for among the entities. An unset field matches anything. -/
structure EntityQuery where
  kind : Option String := none
  subtype : Option String := none
  status : Option String := none
  minProminence : Option Prominence := none
  tag : Option (String × Option TagValue) := none

/-- Whether `wanted` is unset or equal to `actual`. -/
def agrees (wanted : Option String) (actual : String) : Bool := wanted.all (· = actual)

def EntityQuery.accepts (q : EntityQuery) (e : Entity) : Bool :=
  agrees q.kind e.kind && agrees q.subtype e.subtype && agrees q.status e.status
    && q.minProminence.all (· ≤ e.prominence)
    && q.tag.all fun t => e.hasTagValue t.1 t.2

/-- The end of `r` that faces `id` in `direction`. -/
def Relationship.farEnd (r : Relationship) (id : EntityId) : Direction → EntityId
  | .src => r.dst
  | .dst => r.src
  | .both => r.otherEnd id

namespace World

variable (w : World)

def findEntities (q : EntityQuery) : List Entity := w.entities.filter q.accepts

def activeRelationships : List Relationship := w.relationships.filter (·.isActive)

/-- The active relationships `id` is the right end of, of one kind when `kind` is given. -/
def relationshipsOf (id : EntityId) (kind : Option String) (direction : Direction) :
    List Relationship :=
  w.activeRelationships.filter fun r => agrees kind r.kind && r.touches id direction

/-- Whether `id` has such a relationship, with the entity `other` when one is given. -/
def hasRelationship (id : EntityId) (kind : Option String) (other : Option EntityId)
    (direction : Direction) : Bool :=
  (w.relationshipsOf id kind direction).any fun r => other.all (r.connects id · direction)

def neighbors (id : EntityId) (kind : Option String) (direction : Direction) : List Entity :=
  (distinct ((w.relationshipsOf id kind direction).map (·.farEnd id direction))).filterMap w.entity?

end World

end StoryWorld

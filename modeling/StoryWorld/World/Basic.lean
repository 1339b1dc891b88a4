import StoryWorld.Entity.Basic
import StoryWorld.Relationship

/-!
# The world

A world holds entities in the order they were added, relationships between them, named pressures
and a clock. An entity is found under the id it was added with, through an index of positions;
entities are never removed, so a position stays good. A relationship is taken in only when both
its ends are there, and adding either is all or nothing.
-/

namespace StoryWorld

/-- When entities were created, as far as throttling needs to know. -/
structure RateLimits where
  lastCreationTick : Option UInt64 := none
  creationsThisEpoch : UInt32 := 0
  epoch : UInt64 := 0
  deriving DecidableEq

namespace RateLimits

def toDatum (r : RateLimits) : Datum :=
  .object [
    ("last_creation_tick", .ofOption (.ofNat ·.toNat) r.lastCreationTick),
    ("creations_this_epoch", .ofNat r.creationsThisEpoch.toNat),
    ("epoch", .ofNat r.epoch.toNat)]

def ofDatum? (d : Datum) : Option RateLimits := do
  let fields ← d.asRecord .json ["last_creation_tick", "creations_this_epoch", "epoch"]
  return {
    lastCreationTick := ← fields.optional "last_creation_tick" Datum.asUInt64
    creationsThisEpoch := ← fields.required "creations_this_epoch" Datum.asUInt32
    epoch := ← fields.required "epoch" Datum.asUInt64 }

end RateLimits

structure World where
  tick : UInt64 := 0
  era : Option String := none
  entities : List Entity := []
  /-- The position of the entity that was added under an id. -/
  index : Table EntityId Nat := {}
  /-- All relationships, active and archived, in the order they were added. -/
  relationships : List Relationship := []
  pressures : Table String Float := {}
  rateLimits : RateLimits := {}
  /-- How many tags an entity may have when a commit gives it another. -/
  tagCap : UInt64 := 10

/-- Why something cannot be added to a world. -/
inductive WorldError where
  | duplicateEntity (id : EntityId)
  | missingEndpoint (kind : String) (missing : EntityId)
  deriving DecidableEq

def WorldError.message : WorldError → String
  | duplicateEntity id => s!"Duplicate entity: {id}"
  | missingEndpoint kind missing =>
    s!"Relationship '{kind}' references missing endpoint {missing}"

namespace World

variable (w : World)

def contains (id : EntityId) : Bool := w.index.contains id

def entity? (id : EntityId) : Option Entity := (w.index.find? id).bind (w.entities[·]?)

/-! ## Building -/

def addEntity (e : Entity) : Except WorldError World :=
  if w.contains e.id then .error (.duplicateEntity e.id)
  else .ok { w with
    entities := w.entities ++ [e]
    index := w.index.insert e.id w.entities.length }

def addRelationship (r : Relationship) : Except WorldError World :=
  if !w.contains r.src then .error (.missingEndpoint r.kind r.src)
  else if !w.contains r.dst then .error (.missingEndpoint r.kind r.dst)
  else .ok { w with relationships := w.relationships ++ [r] }

/-- Rewrites the entity added under `id`, if there is one. -/
def modifyEntity (id : EntityId) (f : Entity → Entity) : World :=
  match w.index.find? id with
  | none => w
  | some i => { w with entities := w.entities.modify i f }

/-! ## Pressures and the clock -/

/-- A pressure that was never set is 0. -/
def pressure (id : String) : Float := (w.pressures.find? id).getD 0

def setPressure (id : String) (value : Float) : World :=
  { w with pressures := w.pressures.insert id value }

def adjustPressure (id : String) (delta : Float) : World :=
  w.setPressure id (w.pressure id + delta)

def setTick (tick : UInt64) : World := { w with tick }

def advanceTick (ticks : UInt64) : World := { w with tick := w.tick + ticks }

def setEra (era : String) : World := { w with era := some era }

/-- Starts an epoch, in which nothing has been created yet. -/
def beginEpoch : World :=
  { w with rateLimits := { w.rateLimits with
    epoch := w.rateLimits.epoch + 1
    creationsThisEpoch := 0 } }

/-- Notes that an entity was created at the current tick. -/
def recordCreation : World :=
  { w with rateLimits := { w.rateLimits with
    lastCreationTick := some w.tick
    creationsThisEpoch := w.rateLimits.creationsThisEpoch + 1 } }

end World

end StoryWorld

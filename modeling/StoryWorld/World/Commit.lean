import StoryWorld.Fade
import StoryWorld.World.Change

/-!
# Commits

Committing a change set runs five phases in a fixed order: the edits of entities, the new
relationships, archiving, strengths, pressures. An edit that cannot be made is left out and the
report says so; everything else still happens. An entity at its tag cap keeps the tags it has and
gets no new one. Archiving comes after the new relationships, so a set may archive what it
creates, and strengths move only on relationships that are still active then.
-/

namespace StoryWorld

/-- What a commit did. -/
structure CommitReport where
  entitiesChanged : Nat := 0
  relationshipsAdded : Nat := 0
  relationshipsArchived : Nat := 0
  strengthsAdjusted : Nat := 0
  pressuresChanged : Nat := 0
  /-- Tags refused because the entity was at its cap. -/
  droppedTags : List (EntityId × String) := []
  /-- The reasons of edits that could not be made. -/
  skipped : List String := []
  deriving DecidableEq

namespace CommitReport

/-- Whether anything was changed. -/
def anyChange (r : CommitReport) : Bool :=
  0 < r.entitiesChanged + r.relationshipsAdded + r.relationshipsArchived + r.strengthsAdjusted
    + r.pressuresChanged

def toDatum (r : CommitReport) : Datum :=
  .object [
    ("entities_changed", .ofNat r.entitiesChanged),
    ("relationships_added", .ofNat r.relationshipsAdded),
    ("relationships_archived", .ofNat r.relationshipsArchived),
    ("strengths_adjusted", .ofNat r.strengthsAdjusted),
    ("pressures_changed", .ofNat r.pressuresChanged),
    ("dropped_tags", .ofList (fun t => .list [t.1.toDatum, .text t.2]) r.droppedTags),
    ("skipped", .ofList .text r.skipped)]

def droppedTagOfDatum? : Datum → Option (EntityId × String)
  | .list [id, tag] => do return (← EntityId.ofDatum? id, ← tag.asText)
  | _ => none

def fieldNames : List String :=
  ["entities_changed", "relationships_added", "relationships_archived", "strengths_adjusted",
    "pressures_changed", "dropped_tags", "skipped"]

def ofDatum? (d : Datum) : Option CommitReport := do
  let fields ← d.asRecord .json fieldNames
  let count name := fields.required name (Datum.asNatBelow UInt64.size)
  return {
    entitiesChanged := ← count "entities_changed"
    relationshipsAdded := ← count "relationships_added"
    relationshipsArchived := ← count "relationships_archived"
    strengthsAdjusted := ← count "strengths_adjusted"
    pressuresChanged := ← count "pressures_changed"
    droppedTags := ← fields.required "dropped_tags" (Datum.asList droppedTagOfDatum?)
    skipped := ← fields.required "skipped" (Datum.asList Datum.asText) }

end CommitReport

/-- A world in the middle of a commit, with the report so far. -/
abbrev Commit := World × CommitReport

namespace Commit

/-- Whether an entity has no room for the tag: it would be a new one and the cap is reached. -/
def tagRefused (cap : UInt64) (e : Entity) (tag : String) : Bool :=
  !e.hasTag tag && cap.toNat ≤ e.tags.size

/-- The entity after an edit, leaving its stamps alone. -/
def edited (e : Entity) : EntityEdit → Entity
  | .setTag _ tag value => { e with tags := e.tags.insert tag value }
  | .removeTag _ tag => { e with tags := e.tags.erase tag }
  | .setStatus _ status => { e with status }
  | .shiftProminence _ steps => { e with prominence := e.prominence.shift steps.toInt }

/-- The tag an edit wants to set on `e` and may not. -/
def refusedTag? (cap : UInt64) (e : Entity) : EntityEdit → Option String
  | .setTag _ tag _ => if tagRefused cap e tag then some tag else none
  | _ => none

def editEntity : Commit → EntityEdit → Commit
  | (w, report), edit =>
    match w.entity? edit.entity with
    | none => (w, { report with skipped := report.skipped ++ [s!"entity {edit.entity} not found"] })
    | some e =>
      match refusedTag? w.tagCap e edit with
      | some tag => (w, { report with droppedTags := report.droppedTags ++ [(e.id, tag)] })
      | none =>
        (w.modifyEntity edit.entity fun e => { edited e edit with updatedAt := w.tick },
          { report with entitiesChanged := report.entitiesChanged + 1 })

/-- The event a new relationship is for the entity that brought it about. -/
def eventOf (tick : UInt64) (r : Relationship) : CatalyzedEvent where
  tick
  description := s!"{r.kind} between {r.src} and {r.dst}"
  relationshipKind := some r.kind

def addRelationship : Commit → Relationship → Commit
  | (w, report), r =>
    match w.addRelationship { r with createdAt := w.tick, status := .active } with
    | .error e => (w, { report with skipped := report.skipped ++ [e.message] })
    | .ok added =>
      let report := { report with relationshipsAdded := report.relationshipsAdded + 1 }
      match r.catalyzedBy with
      | none => (added, report)
      | some catalyst =>
        (added.modifyEntity catalyst fun e =>
          { e with catalyzedEvents := e.catalyzedEvents ++ [eventOf w.tick r] }, report)

/-- The active relationships a key is about. -/
def hits (key : RelationshipKey) (r : Relationship) : Bool := r.isActive && key.covers r

def archive : Commit → RelationshipKey → Commit
  | (w, report), key =>
    ({ w with relationships := w.relationships.map fun r =>
        if hits key r then { r with status := .historical } else r },
      { report with
        relationshipsArchived := report.relationshipsArchived + w.relationships.countP (hits key) })

def adjustStrength : Commit → StrengthChange → Commit
  | (w, report), change =>
    ({ w with relationships := w.relationships.map fun r =>
        if hits change.key r then
          { r with strength := some (clampUnit (r.effectiveStrength + change.delta)) }
        else r },
      { report with
        strengthsAdjusted := report.strengthsAdjusted + w.relationships.countP (hits change.key) })

def changePressure : Commit → PressureChange → Commit
  | (w, report), change =>
    (w.adjustPressure change.pressure change.delta,
      { report with pressuresChanged := report.pressuresChanged + 1 })

end Commit

/-- Commits a change set. -/
def World.commit (w : World) (changes : ChangeSet) : World × CommitReport :=
  let c : Commit := changes.entityEdits.foldl Commit.editEntity (w, {})
  let c := changes.newRelationships.foldl Commit.addRelationship c
  let c := changes.archived.foldl Commit.archive c
  let c := changes.strengthChanges.foldl Commit.adjustStrength c
  changes.pressureChanges.foldl Commit.changePressure c

end StoryWorld

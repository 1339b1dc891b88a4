import StoryWorld.Decimal.Layout
import StoryWorld.Metric.Basic

/-!
# Evaluating metrics

Measuring never fails. An entity that cannot be found counts nothing, a multiplier without an
entity is neutral, and a metric of an unknown type is zero; the diagnostic says so. Scaling is
noted in the diagnostic only when there is something to scale.
-/

namespace StoryWorld

open Decimal (diagnostic)

namespace World

variable (w : World)

/-- How many active relationships there are of the kinds and strength asked for. -/
def countRelationships (edges : EdgeFilter) : Nat := w.activeRelationships.countP edges.accepts

def countTagged (tag : String) : Nat := w.entities.countP (·.hasTag tag)

/-- The relationships of an entity, of the kinds and strength asked for. -/
def incident (id : EntityId) (edges : EdgeFilter) (direction : Direction) : List Relationship :=
  (w.relationshipsOf id none direction).filter edges.accepts

/-- The entities at the other ends of those relationships. -/
def targets (id : EntityId) (edges : EdgeFilter) (direction : Direction) : List EntityId :=
  distinct ((w.incident id edges direction).map (·.otherEnd id))

/-- Whether the ends of a relationship are there and differ in culture. -/
def crossesCultures (r : Relationship) : Bool :=
  match w.entity? r.src, w.entity? r.dst with
  | some a, some b => a.culture ≠ b.culture
  | _, _ => false

/-- The value of a count. -/
def count : Count → Float
  | .entities census => .ofNat (w.findEntities census.query).length
  | .relationships edges => .ofNat (w.countRelationships edges)
  | .tagged tag => .ofNat (w.countTagged tag)
  | .total => .ofNat w.entities.length
  | .constant value => value

end World

/-- The entity a metric is about. -/
def Scope.subject (s : Scope) (reference : Option String) : Option Entity :=
  s.resolve (reference.getD selfReference)

namespace MetricResult

/-- The result of counting something. -/
def ofCount (n : Nat) (diagnostic : String) : MetricResult := { value := .ofNat n, diagnostic }

end MetricResult

open MetricResult in
/-- What a measure comes to before it is scaled. -/
def Measure.evaluate (ctx : Context) : Measure → MetricResult
  | entityCount census =>
    let n := (ctx.world.findEntities census.query).length
    ofCount n s!"{n} {census.kind} entit(ies)"
  | relationshipCount none edges _ =>
    let n := ctx.world.countRelationships edges
    ofCount n s!"{n} relationship(s) in the world"
  | relationshipCount (some reference) edges direction =>
    match ctx.resolve reference with
    | none => ofCount 0 s!"{reference} not resolved"
    | some e =>
      let n := (ctx.world.incident e.id edges direction).length
      ofCount n s!"{e.name} has {n} relationship(s)"
  | tagCount tag =>
    let n := ctx.world.countTagged tag
    ofCount n s!"{n} entit(ies) tagged {tag}"
  | totalEntities =>
    let n := ctx.world.entities.length
    ofCount n s!"{n} entit(ies) total"
  | constant value => { value, diagnostic := "constant" }
  | connectionCount reference edges direction =>
    match ctx.subject reference with
    | none => ofCount 0 "no entity to count connections for"
    | some e =>
      let n := (ctx.world.incident e.id edges direction).length
      ofCount n s!"{e.name} has {n} connection(s)"
  | ratio numerator denominator fallback =>
    let top := ctx.world.count numerator
    let bottom := ctx.world.count denominator
    let topText := diagnostic.write top
    let details := .object [("numerator", .ofFloat top), ("denominator", .ofFloat bottom)]
    if bottom == 0 then
      let fallbackText := diagnostic.write fallback
      { value := fallback, diagnostic := s!"{topText} / 0, using fallback {fallbackText}", details }
    else
      let bottomText := diagnostic.write bottom
      { value := top / bottom, diagnostic := s!"{topText} / {bottomText}", details }
  | statusRatio kind subtype aliveStatus =>
    let all := ctx.world.findEntities { kind := some kind, subtype }
    let alive := all.countP (·.status = aliveStatus)
    if all.isEmpty then ofCount 0 s!"no {kind} entities"
    else
      { value := .ofNat alive / .ofNat all.length
        diagnostic := s!"{alive} of {all.length} {kind} entit(ies) are {aliveStatus}" }
  | crossCultureRatio kinds =>
    let all := ctx.world.activeRelationships.filter ({ kinds : EdgeFilter }).accepts
    let crossing := all.countP ctx.world.crossesCultures
    if all.isEmpty then ofCount 0 "no matching relationships"
    else
      { value := .ofNat crossing / .ofNat all.length
        diagnostic := s!"{crossing} of {all.length} relationship(s) cross cultures" }
  | sharedRelationship kind direction minStrength entity partner =>
    match ctx.subject entity with
    | none => ofCount 0 "no entity to compare against"
    | some me =>
      let targets id := ctx.world.targets id { kinds := [kind], minStrength } direction
      let mine := targets me.id
      match partner with
      | some reference =>
        match ctx.resolve reference with
        | none => ofCount 0 s!"{reference} not resolved"
        | some other =>
          let n := mine.countP (targets other.id).contains
          ofCount n s!"{me.name} and {other.name} share {n} {kind} target(s)"
      | none =>
        let n := ctx.world.entities.countP fun e =>
          e.id ≠ me.id && (targets e.id).any mine.contains
        ofCount n s!"{n} other entit(ies) share a {kind} target with {me.name}"
  | catalyzedEvents reference =>
    match ctx.subject reference with
    | none => ofCount 0 "no entity"
    | some e =>
      let n := e.catalyzedEvents.length
      ofCount n s!"{e.name} catalyzed {n} event(s)"
  | prominenceMultiplier reference curve =>
    match ctx.subject reference with
    | none => { value := 1, diagnostic := "no entity; neutral multiplier" }
    | some e =>
      { value := curve.multiplier e.prominence
        diagnostic := s!"{e.name} is {e.prominence} ({curve.label})" }
  | decayRate rate => { value := rate.coefficient, diagnostic := s!"{rate.label} decay" }
  | falloff curve distance maxDistance =>
    let reach := maxDistance.getD ctx.tuning.falloffMaxDistance
    let distanceText := diagnostic.write distance
    let reachText := diagnostic.write reach
    { value := curve.attenuate distance reach
      diagnostic := s!"{curve.label} falloff at {distanceText} of {reachText}"
      details := .object [("distance", .ofFloat distance), ("max_distance", .ofFloat reach)] }
  | binding name =>
    match (ctx.lookup name).bind Binding.number? with
    | none => ofCount 0 s!"{name} is not a numeric binding"
    | some value =>
      let bare := Text.dropSigils name
      let valueText := diagnostic.write value
      { value, diagnostic := s!"${bare} = {valueText}" }

/-- What a metric comes to. -/
def Metric.evaluate (ctx : Context) : Metric → MetricResult
  | unrecognized typeName => .ofCount 0 s!"unrecognized metric type '{typeName}'"
  | scaled measure scale =>
    let base := measure.evaluate ctx
    if scale.isTrivial then base
    else
      let value := scale.apply base.value
      let valueText := diagnostic.write value
      { base with value, diagnostic := s!"{base.diagnostic} (scaled to {valueText})" }

end StoryWorld

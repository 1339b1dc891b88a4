import StoryWorld.Filter.Apply
import StoryWorld.Selection.Basic

/-!
# Selecting

A selection narrows its candidates stage by stage and never adds to them; the order of the world
is kept until the pick. A trace, when one is asked for, notes after each stage what it was and how
many candidates it left.
-/

namespace StoryWorld

/-! ## Traces -/

structure TraceStep where
  description : String
  remaining : Nat
  deriving DecidableEq

structure Trace where
  steps : List TraceStep := []
  deriving DecidableEq

namespace TraceStep

def toDatum (s : TraceStep) : Datum :=
  .object [("description", .text s.description), ("remaining", .ofNat s.remaining)]

def ofDatum? (d : Datum) : Option TraceStep := do
  let fields ← d.asRecord .json ["description", "remaining"]
  return {
    description := ← fields.required "description" Datum.asText
    remaining := ← fields.required "remaining" (Datum.asNatBelow UInt64.size) }

end TraceStep

namespace Trace

/-- How many candidates the last stage left. -/
def remaining (t : Trace) : Option Nat := t.steps.getLast?.map (·.remaining)

def toDatum (t : Trace) : Datum := .object [("steps", .ofList TraceStep.toDatum t.steps)]

def ofDatum? (d : Datum) : Option Trace := do
  let fields ← d.asRecord .json ["steps"]
  return { steps := ← fields.required "steps" (Datum.asList TraceStep.ofDatum?) }

end Trace

/-- Notes a stage in a trace, if there is one. -/
def record (trace : Option Trace) (description : String) (candidates : List Entity) :
    Option Trace :=
  trace.map fun t => { t with steps := t.steps ++ [⟨description, candidates.length⟩] }

/-! ## Stages -/

namespace Criteria

/-- The kinds asked for, without repetitions after the first. -/
def kindSet (c : Criteria) : List String :=
  c.kinds.foldl (fun kinds k => if kinds.contains k then kinds else kinds ++ [k]) c.kind.toList

/-- The entities of the kinds asked for; all of them when none is. -/
def ofKinds (c : Criteria) (pool : List Entity) : List Entity :=
  let kinds := c.kindSet
  if kinds.isEmpty then pool else pool.filter fun e => kinds.contains e.kind

def acceptsSubtype (c : Criteria) (exclude : List String) (e : Entity) : Bool :=
  (c.subtypes.isEmpty || c.subtypes.contains e.subtype) && !exclude.contains e.subtype

def acceptsStatus (c : Criteria) (e : Entity) : Bool :=
  agrees c.status e.status && (c.statuses.isEmpty || c.statuses.contains e.status)
    && c.notStatus.all (· ≠ e.status)

end Criteria

/-- The entities of the first listed subtype that anyone in the pool has, or the whole pool. -/
def preferred (pool : List Entity) : List String → List Entity
  | [] => pool
  | subtype :: rest =>
    let found := pool.filter (·.subtype = subtype)
    if found.isEmpty then preferred pool rest else found

namespace Strategy

def narrow (s : Strategy) (ctx : Context) (pool : List Entity) : List Entity :=
  match s with
  | byKind => pool
  | byPreferenceOrder subtypes => preferred pool subtypes
  | byRelationship kind direction mustHave =>
    pool.filter fun e => ctx.world.hasRelationship e.id kind none direction = mustHave
  | byProximity reference maxDistance =>
    match (ctx.resolve reference).bind (·.coordinates) with
    | none => []
    | some origin =>
      let radius := maxDistance.getD ctx.tuning.proximityMaxDistance
      pool.filter (·.coordinates.any (·.distance origin ≤ radius))
  | byProminence least => pool.filter (least ≤ ·.prominence)

end Strategy

namespace SaturationLimit

/-- How many relationships of an entity count towards the limit. -/
def count (l : SaturationLimit) (w : World) (e : Entity) : Nat :=
  (w.relationshipsOf e.id (some l.relationshipKind) l.direction).countP fun r =>
    l.fromKind.all fun kind => (w.entity? (r.otherEnd e.id)).any (·.kind = kind)

def allows (l : SaturationLimit) (w : World) (e : Entity) : Bool := l.count w e < l.maxCount.toNat

/-- The limit as a trace shows it. -/
def describe (l : SaturationLimit) : String :=
  s!"saturation {l.relationshipKind} < {l.maxCount} ({l.direction.label})"

end SaturationLimit

/-- Runs the filters one after the other, noting each. -/
def filterStages (scope : Scope) :
    List Filter → List Entity → Captures → Option Trace → List Entity × Captures × Option Trace
  | [], candidates, captures, trace => (candidates, captures, trace)
  | f :: rest, candidates, captures, trace =>
    let (candidates, captures) := f.apply scope candidates captures
    filterStages scope rest candidates captures
      (record trace s!"filter {f.describe}" candidates)

/-- Applies the limits one after the other, noting each. -/
def saturationStages (w : World) :
    List SaturationLimit → List Entity → Option Trace → List Entity × Option Trace
  | [], candidates, trace => (candidates, trace)
  | l :: rest, candidates, trace =>
    let candidates := candidates.filter (l.allows w)
    saturationStages w rest candidates (record trace l.describe candidates)

/-! ## Selections -/

variable {σ : Type} [DrawSource σ]

/-- The entities a rule selects, with the trace continued. -/
def SelectionRule.select (r : SelectionRule) (ctx : Context) (trace : Option Trace)
    (s : Scratch σ) : (List Entity × Option Trace) × Scratch σ :=
  let pool := r.criteria.ofKinds ctx.world.entities
  let kinds := ", ".intercalate r.criteria.kindSet
  let trace := record trace s!"pool of kind(s) [{kinds}]" pool
  let candidates := r.strategy.narrow ctx pool
  let trace := record trace s!"strategy {r.strategy.typeName}" candidates
  let candidates := candidates.filter (r.criteria.acceptsSubtype r.excludeSubtypes)
  let trace := record trace "subtype lists" candidates
  let candidates := candidates.filter r.criteria.acceptsStatus
  let trace := record trace "status filters" candidates
  let (candidates, captures, trace) :=
    filterStages ctx.toScope r.filters candidates s.captures trace
  let (candidates, trace) := saturationStages ctx.world r.saturationLimits candidates trace
  let (picked, draws) := r.pickStrategy.pick r.maxResults candidates s.draws
  ((picked, record trace s!"pick {r.pickStrategy.label}" picked), { draws, captures })

namespace VariableRule

/-- The entities a variable may stand for before anything is asked of them; none when the
reference to their neighbour means nothing. -/
def pool? (r : VariableRule) (scope : Scope) : Option (List Entity) :=
  match r.source with
  | .graph => some scope.world.entities
  | .related anchor kind direction =>
    (scope.resolve anchor).map fun e => scope.world.neighbors e.id (some kind) direction

/-- The entities a variable rule selects. -/
def select (r : VariableRule) (ctx : Context) (s : Scratch σ) : List Entity × Scratch σ :=
  match r.pool? ctx.toScope with
  | none => ([], s)
  | some pool =>
    let candidates := ((r.criteria.ofKinds pool).filter (r.criteria.acceptsSubtype [])).filter
      r.criteria.acceptsStatus
    let (candidates, captures) := Filter.applyAll ctx.toScope r.filters candidates s.captures
    let (preferred, captures) :=
      if r.preferFilters.isEmpty then (candidates, captures)
      else Filter.applyAll ctx.toScope r.preferFilters candidates captures
    let candidates := if preferred.isEmpty then candidates else preferred
    let (picked, draws) := r.pickStrategy.pick r.maxResults candidates s.draws
    (picked, { draws, captures })

end VariableRule

end StoryWorld

import StoryWorld.Condition.Basic
import StoryWorld.Condition.Outcome
import StoryWorld.Decimal.Layout
import StoryWorld.Draws
import StoryWorld.Path.Walk

/-!
# Evaluating conditions

Evaluating never fails: a condition that lacks the entity it asks about is not met, except that an
entity that cannot be found also has no tags. A combination evaluates all its parts, in order,
whatever they come to, so a tree takes as many draws as it has random conditions.
-/

namespace StoryWorld

open Decimal (diagnostic)

/-! ## Texts -/

/-- One end of a range. -/
def boundText {α : Type} (write : α → String) : Option α → String
  | none => "unbounded"
  | some a => write a

/-- The outcome of a condition that needs an entity and has none. -/
def Outcome.noEntity (rule : String) : Outcome :=
  { passed := false, diagnostic := s!"{rule}: no entity to evaluate" }

/-! ## What conditions ask -/

namespace World

/-- Whether the other end of a relationship is what `target` asks for. -/
def counterpartMatches (w : World) (id : EntityId) (target : Target) (r : Relationship) : Bool :=
  if target.kind.isNone && target.subtype.isNone && target.status.isNone then true
  else
    match w.entity? (r.otherEnd id) with
    | none => false
    | some other =>
      agrees target.kind other.kind && agrees target.subtype other.subtype
        && agrees target.status other.status

end World

/-- How many relationships of an entity are meant. A partner nobody knows has none. -/
def Incidence.count (i : Incidence) (scope : Scope) (e : Entity) : Nat :=
  let edges := scope.world.relationshipsOf e.id i.kind i.direction
  match i.partner with
  | none => edges.countP (scope.world.counterpartMatches e.id i.target)
  | some reference =>
    match scope.resolve reference with
    | none => 0
    | some other =>
      edges.countP fun r =>
        r.connects e.id other.id i.direction && scope.world.counterpartMatches e.id i.target r

/-- The number an entity count has to stay below: the upper bound stretched by a factor. -/
def overshootCeiling (max : UInt64) (factor : Float) : Nat :=
  (max.toFloat * factor).floor.toUInt64.toNat

/-- The ticks from one to another, none when the other lies in the past. -/
def elapsed (since now : UInt64) : Nat := now.toNat - since.toNat

namespace Test

/-- The entity a test of tags looks at: the one it refers to, if it refers to one. -/
def subject (scope : Scope) (entity : Option Entity) : Option String → Option Entity
  | none => entity
  | some reference => scope.resolve reference

/-- Runs a test at an entity, if there is one. -/
def run (ctx : Context) (entity : Option Entity) : Test → Outcome
  | pressure id range =>
    let value := ctx.world.pressure id
    let valueText := diagnostic.write value
    let low := boundText diagnostic.write range.min
    let high := boundText diagnostic.write range.max
    { passed := range.admits value
      diagnostic := s!"pressure {id} = {valueText} (range {low} to {high})"
      details := .object ([("pressure", .text id), ("value", .ofFloat value)]
        ++ range.toFields .ofFloat) }
  | pressureCompare idA idB comparison =>
    let a := ctx.world.pressure idA
    let b := ctx.world.pressure idB
    let aText := diagnostic.write a
    let bText := diagnostic.write b
    { passed := comparison.holds a b
      diagnostic := s!"{idA} ({aText}) {comparison.symbol} {idB} ({bText})"
      details := .object [("a", .ofFloat a), ("b", .ofFloat b),
        ("operator", .text comparison.symbol)] }
  | pressureAnyAbove ids threshold =>
    let above := ids.filter fun id => threshold < ctx.world.pressure id
    let thresholdText := diagnostic.write threshold
    { passed := !above.isEmpty
      diagnostic := s!"{above.length} of {ids.length} pressure(s) above {thresholdText}"
      details := .object [("above", .ofList .text above), ("threshold", .ofFloat threshold)] }
  | entityCount census range overshoot =>
    let n := (ctx.world.findEntities census.query).length
    let factor := overshoot.getD ctx.tuning.overshootFactor
    let ceiling := range.max.map (overshootCeiling · factor)
    let low := boundText toString range.min
    let high := boundText toString ceiling
    { passed := range.min.all (·.toNat ≤ n) && ceiling.all (n < ·)
      diagnostic := s!"{n} {census.kind} entit(ies); min {low}, overshoot ceiling {high}"
      details := .object ([("count", .ofNat n)] ++ range.toFields (.ofNat ·.toNat)
        ++ [("ceiling", .ofOption .ofNat ceiling)]) }
  | relationshipCount edges range =>
    match entity with
    | none => .noEntity "relationship_count"
    | some e =>
      let n := edges.count ctx.toScope e
      let kind := edges.kind.getD "any"
      let low := boundText toString range.min
      let high := boundText toString range.max
      { passed := range.toNat.admits n
        diagnostic := s!"{e.name} has {n} {kind} relationship(s) (range {low} to {high})"
        details := .object (("count", .ofNat n) :: range.toFields (.ofNat ·.toNat)) }
  | relationshipExists edges =>
    match entity with
    | none => .noEntity "relationship_exists"
    | some e =>
      let n := edges.count ctx.toScope e
      let kind := edges.kind.getD "any"
      { passed := 0 < n
        diagnostic := s!"{e.name} has {n} matching {kind} relationship(s)" }
  | tagExists reference tag value =>
    match subject ctx.toScope entity reference with
    | none =>
      let shown := reference.getD selfReference
      { passed := false, diagnostic := s!"tag_exists: entity {shown} not resolved" }
    | some e =>
      { passed := e.hasTagValue tag value
        diagnostic := match value with
          | none => s!"{e.name} has tag {tag}?"
          | some v => s!"{e.name} tag {tag} = {v}?"
        details := .object [("actual", .ofOption TagValue.toDatum (e.tags.find? tag))] }
  | tagAbsent reference tag =>
    match subject ctx.toScope entity reference with
    | none =>
      let shown := reference.getD selfReference
      { passed := true, diagnostic := s!"tag_absent: entity {shown} not resolved; vacuously true" }
    | some e => { passed := !e.hasTag tag, diagnostic := s!"{e.name} lacks tag {tag}?" }
  | status wanted negated =>
    match entity with
    | none => .noEntity "status"
    | some e =>
      let sign := if negated then "!=" else "=="
      { passed := (e.status = wanted) != negated
        diagnostic := s!"{e.name} status '{e.status}' {sign} '{wanted}'" }
  | prominence range =>
    match entity with
    | none => .noEntity "prominence"
    | some e =>
      let low := range.min.getD .forgotten
      let high := range.max.getD .mythic
      { passed := low ≤ e.prominence && e.prominence ≤ high
        diagnostic := s!"{e.name} is {e.prominence} (range {low} to {high})" }
  | timeElapsed minTicks since =>
    match entity with
    | none => .noEntity "time_elapsed"
    | some e =>
      let stamp := match since with
        | .created => e.createdAt
        | .updated => e.updatedAt
      let n := elapsed stamp ctx.tick
      { passed := minTicks.toNat ≤ n
        diagnostic := s!"{n} tick(s) since {since.label}, need {minTicks}"
        details := .object [("elapsed", .ofNat n), ("min_ticks", .ofNat minTicks.toNat)] }
  | cooldownElapsed ticks =>
    match ctx.world.rateLimits.lastCreationTick with
    | none => { passed := true, diagnostic := "no creation recorded yet" }
    | some last =>
      let n := elapsed last ctx.tick
      { passed := ticks.toNat ≤ n
        diagnostic := s!"{n} tick(s) since last creation, cooldown {ticks}" }
  | creationsPerEpoch max =>
    let created := ctx.world.rateLimits.creationsThisEpoch
    { passed := created < max
      diagnostic := s!"{created} creation(s) this epoch, max {max}" }
  | eraMatch eras =>
    match ctx.world.era with
    | none => { passed := false, diagnostic := "no current era" }
    | some era =>
      let listed := ", ".intercalate eras
      { passed := eras.contains era, diagnostic := s!"era '{era}' in [{listed}]?" }
  | entityExists reference =>
    match ctx.resolve reference with
    | none => { passed := false, diagnostic := s!"{reference} not resolved" }
    | some e => { passed := true, diagnostic := s!"{reference} resolved to {e.name}" }
  | entityHasRelationship reference kind direction =>
    match ctx.resolve reference with
    | none => { passed := false, diagnostic := s!"{reference} not resolved" }
    | some e =>
      { passed := ctx.world.hasRelationship e.id (some kind) none direction
        diagnostic := s!"{e.name} has {kind} ({direction.label})?" }
  | always => { passed := true, diagnostic := "always" }

end Test

namespace Condition

/-- The outcome of a random condition with a draw. -/
def chanceOutcome (chance draw : Float) : Outcome :=
  let drawText := Decimal.writeFixed 4 draw
  let chanceText := diagnostic.write chance
  { passed := draw < chance
    diagnostic := s!"draw {drawText} < {chanceText}?"
    details := .object [("draw", .ofFloat draw), ("chance", .ofFloat chance)] }

/-- The outcome of a path condition at an entity. -/
def pathOutcome (assertion : PathAssertion) (e : Entity) (passed : Bool) : Outcome :=
  { passed, diagnostic := s!"graph path ({assertion.path.length} step(s)) from {e.name}" }

end Condition

/-- The outcome of a combination that asks for all of its parts. -/
def Outcome.ofAll (children : List Outcome) : Outcome :=
  let passing := children.countP (·.passed)
  { passed := passing = children.length
    diagnostic := s!"and: {passing} of {children.length} passed"
    children }

/-- The outcome of a combination that asks for one of its parts. -/
def Outcome.ofAny (children : List Outcome) : Outcome :=
  let passing := children.countP (·.passed)
  { passed := 0 < passing
    diagnostic := s!"or: {passing} of {children.length} passed"
    children }

theorem Outcome.ofAll_passed (children : List Outcome) :
    (ofAll children).passed = children.all (·.passed) := by
  rw [Bool.eq_iff_iff]
  simp only [ofAll, decide_eq_true_eq, List.countP_eq_length, List.all_eq_true]

theorem Outcome.ofAny_passed (children : List Outcome) :
    (ofAny children).passed = children.any (·.passed) := by
  rw [Bool.eq_iff_iff]
  simp only [ofAny, decide_eq_true_eq, List.countP_pos_iff, List.any_eq_true]

namespace Condition

variable {σ : Type} [DrawSource σ]

mutual

/-- Evaluates a condition at an entity, if there is one. -/
def evaluateAt (ctx : Context) (entity : Option Entity) :
    Condition → Scratch σ → Outcome × Scratch σ
  | test t, s => (t.run ctx entity, s)
  | randomChance chance, s =>
    let (draw, draws) := DrawSource.next s.draws
    (chanceOutcome chance draw, { s with draws })
  | path assertion, s =>
    match entity with
    | none => (.noEntity "graph_path", s)
    | some e =>
      let (passed, captures) := assertion.holds ctx.toScope e
      (pathOutcome assertion e passed, { s with captures })
  | all conditions, s =>
    let (children, s) := evaluateEach ctx entity conditions s
    (.ofAll children, s)
  | any conditions, s =>
    let (children, s) := evaluateEach ctx entity conditions s
    (.ofAny children, s)
  | unrecognized typeName, s =>
    ({ passed := false, diagnostic := s!"unrecognized condition type '{typeName}'" }, s)

/-- Evaluates conditions one after the other. -/
def evaluateEach (ctx : Context) (entity : Option Entity) :
    List Condition → Scratch σ → List Outcome × Scratch σ
  | [], s => ([], s)
  | c :: rest, s =>
    let (outcome, s) := evaluateAt ctx entity c s
    let (outcomes, s) := evaluateEach ctx entity rest s
    (outcome :: outcomes, s)

end

/-- Evaluates a condition at an entity, or at `$self` when none is given. -/
def evaluate (ctx : Context) (entity : Option Entity) (c : Condition) (s : Scratch σ) :
    Outcome × Scratch σ :=
  c.evaluateAt ctx (entity.or ctx.self?) s

/-- Evaluates a list of conditions that all have to be met. -/
def evaluateAll (ctx : Context) (entity : Option Entity) (conditions : List Condition)
    (s : Scratch σ) : Outcome × Scratch σ :=
  let (children, s) := evaluateEach ctx (entity.or ctx.self?) conditions s
  (.ofAll children, s)

end Condition

end StoryWorld

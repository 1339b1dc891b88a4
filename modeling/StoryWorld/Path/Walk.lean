import StoryWorld.Path.Basic

/-!
# Walking a path

A walk starts from one entity and replaces it, step by step, by the entities its relationships
lead to. What a step captures is written to the captured sets, where the constraints at the end
look it up; a later step that captures under the same name overwrites. Holding an assertion
against an entity forgets all captured sets first, so an assertion only ever sees its own.
-/

namespace StoryWorld

namespace PathStep

/-- The entities one step leads to, each once. -/
def expand (w : World) (s : PathStep) (frontier : List Entity) : List Entity :=
  distinctBy (·.id) (frontier.flatMap fun e =>
    (w.neighbors e.id (some s.via) s.direction).filter s.accepts)

/-- The captured sets after a step that leads to `frontier`. -/
def capture (s : PathStep) (frontier : List Entity) (captures : Captures) : Captures :=
  match s.captureAs with
  | none => captures
  | some name => captures.insert name (frontier.map (·.id))

end PathStep

/-- Follows steps from a frontier. -/
def walk (w : World) : List PathStep → List Entity → Captures → List Entity × Captures
  | [], frontier, captures => (frontier, captures)
  | s :: rest, frontier, captures =>
    let frontier := s.expand w frontier
    walk w rest frontier (s.capture frontier captures)

namespace PathConstraint

/-- The entity a constraint compares with; `$self` is where the path starts. -/
def partner? (scope : Scope) (start : Entity) (reference : String) : Option Entity :=
  if Text.trim reference = selfReference then some start else scope.resolve reference

/-- Whether a constraint lets an entity at the end of a path through. -/
def allows (scope : Scope) (captures : Captures) (start candidate : Entity) :
    PathConstraint → Bool
  | notIn set => (captures.find? set).all fun ids => !ids.contains candidate.id
  | isIn set => (captures.find? set).any fun ids => ids.contains candidate.id
  | notSelf => candidate.id ≠ start.id
  | hasRelationship kind reference direction =>
    (partner? scope start reference).any fun other =>
      scope.world.hasRelationship candidate.id (some kind) (some other.id) direction
  | lacksRelationship kind reference direction =>
    (partner? scope start reference).all fun other =>
      !scope.world.hasRelationship candidate.id (some kind) (some other.id) direction
  | kindEquals kind => candidate.kind = kind
  | subtypeEquals subtype => candidate.subtype = subtype
  | unrecognized _ => false

end PathConstraint

namespace PathAssertion

/-- The entities the assertion ends at, and the captured sets after it. -/
def reach (a : PathAssertion) (scope : Scope) (start : Entity) (captures : Captures) :
    List Entity × Captures :=
  let (frontier, captures) := walk scope.world a.path [start] captures
  (frontier.filter fun e => a.constraints.all (·.allows scope captures start e), captures)

/-- Whether the check accepts a number of entities. -/
def accepts (a : PathAssertion) (size : Nat) : Bool :=
  match a.check with
  | .nonempty => 0 < size
  | .empty => size = 0
  | .atLeast => (a.count.getD 1).toNat ≤ size
  | .atMost => size ≤ (a.count.getD 0).toNat

/-- Whether the assertion holds at an entity, with the sets it captured. -/
def holds (a : PathAssertion) (scope : Scope) (start : Entity) : Bool × Captures :=
  let (reached, captures) := a.reach scope start {}
  (a.accepts reached.length, captures)

end PathAssertion

end StoryWorld

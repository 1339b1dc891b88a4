import StoryWorld.Filter.Basic

/-!
# Applying filters

Filters are applied one after the other, each to what the one before it left, so a list of filters
asks for all of them and an empty list for nothing. An entity can also be held against a list of
filters by itself; that stops at the first filter it fails. A path filter walks from every
candidate in turn and leaves the sets captured by the last walk.

What a filter makes of a reference that means nothing is up to the filter: one that asks for a
relationship then keeps nobody, one that asks for its absence or for a culture keeps everybody.
-/

namespace StoryWorld

/-- The ids of an entity's neighbours over relationships of a kind. -/
def World.neighborIds (w : World) (id : EntityId) (kind : String) : List EntityId :=
  (w.neighbors id (some kind) .both).map (·.id)

namespace PathAssertion

/-- The candidates the assertion holds at, and the sets the last walk captured. -/
def keep (a : PathAssertion) (scope : Scope) : List Entity → Captures → List Entity × Captures
  | [], captures => ([], captures)
  | e :: rest, _ =>
    let (passed, captures) := a.holds scope e
    let (kept, captures) := a.keep scope rest captures
    (if passed then e :: kept else kept, captures)

/-- A path keeps the candidates it holds at, in their order. -/
theorem keep_eq_filter (a : PathAssertion) (scope : Scope) :
    ∀ (candidates : List Entity) (captures : Captures),
      (a.keep scope candidates captures).1 = candidates.filter fun e => (a.holds scope e).1
  | [], _ => rfl
  | e :: rest, _ => by
    have ih := keep_eq_filter a scope rest (a.holds scope e).2
    simp only [keep]
    rw [ih, List.filter_cons]

end PathAssertion

namespace Filter

/-- What a filter leaves of the candidates, and the captured sets after it. -/
def apply (f : Filter) (scope : Scope) (candidates : List Entity) (captures : Captures) :
    List Entity × Captures :=
  let nobody := ([], captures)
  let everybody := (candidates, captures)
  let those (p : Entity → Bool) := (candidates.filter p, captures)
  match f with
  | exclude references =>
    let excluded := (references.filterMap scope.resolve).map (·.id)
    those fun e => !excluded.contains e.id
  | hasRelationship kind none direction =>
    those fun e => scope.world.hasRelationship e.id (some kind) none direction
  | hasRelationship kind (some reference) direction =>
    match scope.resolve reference with
    | none => nobody
    | some other =>
      those fun e => scope.world.hasRelationship e.id (some kind) (some other.id) direction
  | lacksRelationship kind none direction =>
    those fun e => !scope.world.hasRelationship e.id (some kind) none direction
  | lacksRelationship kind (some reference) direction =>
    match scope.resolve reference with
    | none => everybody
    | some other =>
      those fun e => !scope.world.hasRelationship e.id (some kind) (some other.id) direction
  | hasTag tag value => those (·.hasTagValue tag value)
  | lacksTag tag value => those fun e => !e.hasTagValue tag value
  | hasTags tags => those fun e => tags.all e.hasTag
  | hasAnyTag tags => those fun e => tags.any e.hasTag
  | lacksAnyTag tags => those fun e => !tags.any e.hasTag
  | hasCulture culture => those (·.culture = culture)
  | matchesCulture model =>
    match scope.resolve (model.getD selfReference) with
    | none => everybody
    | some other => those (·.culture = other.culture)
  | notMatchesCulture model =>
    match scope.resolve (model.getD selfReference) with
    | none => everybody
    | some other => those (·.culture ≠ other.culture)
  | hasStatus status => those (·.status = status)
  | hasProminence least => those (least ≤ ·.prominence)
  | sharesRelated kind reference =>
    match scope.resolve reference with
    | none => nobody
    | some other =>
      let theirs := scope.world.neighborIds other.id kind
      if theirs.isEmpty then nobody
      else those fun e => (scope.world.neighborIds e.id kind).any theirs.contains
  | path assertion => assertion.keep scope candidates captures
  | unrecognized _ => nobody

/-- What the filters leave of the candidates, one after the other. -/
def applyAll (scope : Scope) :
    List Filter → List Entity → Captures → List Entity × Captures
  | [], candidates, captures => (candidates, captures)
  | f :: rest, candidates, captures =>
    let (candidates, captures) := f.apply scope candidates captures
    applyAll scope rest candidates captures

/-- Whether an entity by itself passes the filters. -/
def passesAll (scope : Scope) (e : Entity) : List Filter → Captures → Bool × Captures
  | [], captures => (true, captures)
  | f :: rest, captures =>
    let (kept, captures) := f.apply scope [e] captures
    if kept.isEmpty then (false, captures) else passesAll scope e rest captures

end Filter

end StoryWorld

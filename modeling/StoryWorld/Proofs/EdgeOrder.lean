import StoryWorld.Metric.Evaluate
import StoryWorld.Proofs.Path.Answers
import StoryWorld.Proofs.World.Alike
import StoryWorld.Selection.Select

/-!
# The order of the edges does not show

Conditions, metrics, filters and selections come out the same in worlds that are alike, whatever
the order of their relationships and whatever is archived (`evaluation_of_alike`). Most of them
count relationships or ask whether there is one. A path goes through its entities in the order of
the edges, but only how many answers it has decides, and which walks there are does not depend on
an order (`answers_eq`). Ids have to tell the entities apart for this, as they do in every world
that was built without giving an entity another id.
-/

namespace StoryWorld

/-- A scope over another world. -/
def Scope.over (s : Scope) (w : World) : Scope := { s with world := w }

/-- A context over another world. -/
def Context.over (ctx : Context) (w : World) : Context := { ctx with world := w }

-- The brackets let these two rewrite inside the decisions of an evaluation as well.
theorem Scope.over_world (s : Scope) (w : World) : (s.over w).world = w := (rfl)

theorem Context.over_toScope (ctx : Context) (w : World) :
    (ctx.over w).toScope = ctx.toScope.over w := (rfl)

open Scope (over_world)
open Context (over_toScope)

namespace World.Indistinct

variable {w w' : World}

section

variable (h : w.Indistinct w')

include h

theorem resolve_eq (s : Scope) (reference : String) :
    (s.over w).resolve reference = (s.over w').resolve reference := by
  unfold Scope.resolve Scope.over
  simp only [funext h.entity?_eq]

/-! ## Paths -/

section Paths

variable {s : Scope} {a : PathAssertion} {start x : Entity}

theorem hop_iff {step : PathStep} {b : Entity} : step.Hop w x b ↔ step.Hop w' x b := by
  unfold PathStep.Hop
  rw [h.entities, h.linked_iff]

theorem walks {path : List PathStep} {b : Entity} (hw : Walks w path x b) : Walks w' path x b := by
  induction hw with
  | here e => exact .here e
  | hop hop hw ih => exact .hop (h.hop_iff.1 hop) ih

theorem walks_iff {path : List PathStep} {b : Entity} : Walks w path x b ↔ Walks w' path x b :=
  ⟨h.walks, h.symm.walks⟩

theorem captured_iff {name : String} :
    a.Captured w start name x ↔ a.Captured w' start name x := by
  unfold PathAssertion.Captured
  simp only [h.walks_iff]

theorem means_iff {reference : String} {other : Entity} :
    PathConstraint.Means (s.over w) start reference other ↔
      PathConstraint.Means (s.over w') start reference other := by
  unfold PathConstraint.Means
  rw [h.resolve_eq]

theorem constraint_iff (c : PathConstraint) :
    c.Holds (s.over w) a start x ↔ c.Holds (s.over w') a start x := by
  cases c with
  | notIn set => exact not_congr h.captured_iff
  | isIn set => exact h.captured_iff
  | notSelf => exact Iff.rfl
  | hasRelationship kind reference d =>
    exact exists_congr fun other => and_congr h.means_iff h.linked_iff
  | lacksRelationship kind reference d =>
    exact forall_congr' fun other => imp_congr h.means_iff (not_congr h.linked_iff)
  | kindEquals kind => exact Iff.rfl
  | subtypeEquals subtype => exact Iff.rfl
  | unrecognized typeName => exact Iff.rfl

theorem answers_eq : a.Answers (s.over w) start = a.Answers (s.over w') start := by
  ext y
  exact and_congr h.walks_iff (forall₂_congr fun c _ => h.constraint_iff c)

theorem holds_eq (s : Scope) (a : PathAssertion) (start : Entity) :
    (a.holds (s.over w) start).1 = (a.holds (s.over w') start).1 := by
  have hleft : (s.over w).world.WellFormed := h.left
  have hright : (s.over w').world.WellFormed := h.right
  rw [Bool.eq_iff_iff, PathAssertion.holds_iff hleft, PathAssertion.holds_iff hright,
    h.answers_eq]

end Paths

/-! ## Conditions -/

section Conditions

theorem counterpartMatches_eq (id : EntityId) (target : Target) :
    w.counterpartMatches id target = w'.counterpartMatches id target := by
  funext r
  unfold counterpartMatches
  rw [h.entity?_eq]

theorem incidence_eq (s : Scope) (i : Incidence) (e : Entity) :
    i.count (s.over w) e = i.count (s.over w') e := by
  have hedges := h.relationshipsOf_perm e.id i.kind i.direction
  unfold Incidence.count
  cases i.partner with
  | none =>
    simp only [Scope.over, h.counterpartMatches_eq]
    exact hedges.countP_eq _
  | some reference =>
    simp only [h.resolve_eq s reference]
    cases (s.over w').resolve reference with
    | none => rfl
    | some other =>
      simp only [Scope.over, h.counterpartMatches_eq]
      exact hedges.countP_eq _

theorem subject_eq (s : Scope) (entity : Option Entity) (reference : Option String) :
    Test.subject (s.over w) entity reference = Test.subject (s.over w') entity reference := by
  cases reference with
  | none => rfl
  | some reference => exact h.resolve_eq s reference

theorem test_eq (ctx : Context) (entity : Option Entity) (t : Test) :
    t.run (ctx.over w) entity = t.run (ctx.over w') entity := by
  cases t with
  | pressure id range => simp only [Test.run, over_toScope, over_world, h.pressure_eq]
  | pressureCompare idA idB comparison =>
    simp only [Test.run, over_toScope, over_world, h.pressure_eq]
  | pressureAnyAbove ids threshold => simp only [Test.run, over_toScope, over_world, h.pressure_eq]
  | entityCount census range overshoot =>
    simp only [Test.run, over_toScope, over_world, h.findEntities_eq]
    rfl
  | relationshipCount edges range => simp only [Test.run, over_toScope, h.incidence_eq]
  | relationshipExists edges => simp only [Test.run, over_toScope, h.incidence_eq]
  | tagExists reference tag value => simp only [Test.run, over_toScope, h.subject_eq]
  | tagAbsent reference tag => simp only [Test.run, over_toScope, h.subject_eq]
  | status wanted negated => rfl
  | prominence range => rfl
  | timeElapsed minTicks since => rfl
  | cooldownElapsed ticks =>
    simp only [Test.run, over_toScope, over_world, h.rateLimits]
    rfl
  | creationsPerEpoch max => simp only [Test.run, over_toScope, over_world, h.rateLimits]
  | eraMatch eras => simp only [Test.run, over_toScope, over_world, h.era]
  | entityExists reference => simp only [Test.run, over_toScope, h.resolve_eq]
  | entityHasRelationship reference kind d =>
    simp only [Test.run, over_toScope, over_world, h.resolve_eq, h.hasRelationship_eq]
  | always => rfl

end Conditions

/-! ## Metrics -/

section Metrics

theorem countRelationships_eq (edges : EdgeFilter) :
    w.countRelationships edges = w'.countRelationships edges := h.active.countP_eq _

theorem countTagged_eq (tag : String) : w.countTagged tag = w'.countTagged tag := by
  unfold countTagged
  rw [h.entities]

theorem incident_perm (id : EntityId) (edges : EdgeFilter) (d : Direction) :
    (w.incident id edges d).Perm (w'.incident id edges d) :=
  (h.relationshipsOf_perm id none d).filter _

theorem targets_perm (id : EntityId) (edges : EdgeFilter) (d : Direction) :
    (w.targets id edges d).Perm (w'.targets id edges d) :=
  distinct_perm ((h.incident_perm id edges d).map _)

theorem crossesCultures_eq : w.crossesCultures = w'.crossesCultures := by
  funext r
  unfold crossesCultures
  rw [h.entity?_eq, h.entity?_eq]

theorem count_eq (c : Count) : w.count c = w'.count c := by
  cases c with
  | entities census => simp only [count, h.findEntities_eq]
  | relationships edges => simp only [count, h.countRelationships_eq]
  | tagged tag => simp only [count, h.countTagged_eq]
  | total => simp only [count, h.entities]
  | constant value => rfl

theorem measure_eq (ctx : Context) (m : Measure) :
    m.evaluate (ctx.over w) = m.evaluate (ctx.over w') := by
  have hsubject : ∀ reference, (ctx.toScope.over w).subject reference
      = (ctx.toScope.over w').subject reference := fun _ => h.resolve_eq ctx.toScope _
  have hincident : ∀ id edges d, (w.incident id edges d).length
      = (w'.incident id edges d).length := fun id edges d =>
    (h.incident_perm id edges d).length_eq
  cases m with
  | entityCount census => simp only [Measure.evaluate, over_toScope, over_world, h.findEntities_eq]
  | relationshipCount reference edges d =>
    cases reference with
    | none => simp only [Measure.evaluate, over_toScope, over_world, h.countRelationships_eq]
    | some reference =>
      simp only [Measure.evaluate, over_toScope, over_world, h.resolve_eq, hincident]
  | tagCount tag => simp only [Measure.evaluate, over_toScope, over_world, h.countTagged_eq]
  | totalEntities => simp only [Measure.evaluate, over_toScope, over_world, h.entities]
  | constant value => rfl
  | connectionCount reference edges d =>
    simp only [Measure.evaluate, over_toScope, over_world, hsubject, hincident]
  | ratio numerator denominator fallback =>
    simp only [Measure.evaluate, over_toScope, over_world, h.count_eq]
  | statusRatio kind subtype aliveStatus =>
    simp only [Measure.evaluate, over_toScope, over_world, h.findEntities_eq]
  | crossCultureRatio kinds =>
    have hedges := h.active.filter ({ kinds : EdgeFilter }).accepts
    simp only [Measure.evaluate, over_toScope, over_world, h.crossesCultures_eq, hedges.isEmpty_eq,
      hedges.length_eq, hedges.countP_eq]
  | sharedRelationship kind d minStrength entity partner =>
    have hcontains : ∀ id edges a, (w.targets id edges d).contains a
        = (w'.targets id edges d).contains a := fun id edges a =>
      (h.targets_perm id edges d).contains_eq
    have hcount : ∀ id edges p, (w.targets id edges d).countP p
        = (w'.targets id edges d).countP p := fun id edges p =>
      (h.targets_perm id edges d).countP_eq p
    have hany : ∀ id edges p, (w.targets id edges d).any p
        = (w'.targets id edges d).any p := fun id edges p =>
      (h.targets_perm id edges d).any_eq
    cases partner with
    | none =>
      simp only [Measure.evaluate, over_toScope, over_world, hsubject, funext (hcontains _ _), hany,
        h.entities]
    | some reference =>
      simp only [Measure.evaluate, over_toScope, over_world, hsubject, h.resolve_eq,
        funext (hcontains _ _), hcount]
  | catalyzedEvents reference => simp only [Measure.evaluate, over_toScope, hsubject]
  | prominenceMultiplier reference curve => simp only [Measure.evaluate, over_toScope, hsubject]
  | decayRate rate => rfl
  | falloff curve distance maxDistance => rfl
  | binding name => rfl

theorem metric_eq (ctx : Context) (m : Metric) :
    m.evaluate (ctx.over w) = m.evaluate (ctx.over w') := by
  cases m with
  | unrecognized typeName => rfl
  | scaled measure scale => simp only [Metric.evaluate, h.measure_eq]

end Metrics

/-! ## Filters and selections -/

section Selections

theorem neighborIds_perm (id : EntityId) (kind : String) :
    (w.neighborIds id kind).Perm (w'.neighborIds id kind) :=
  (h.neighbors_perm id (some kind) .both).map _

/-- What a filter leaves does not depend on what was captured before either. -/
theorem filter_eq (s : Scope) (f : Filter) (candidates : List Entity)
    (captures captures' : Captures) :
    (f.apply (s.over w) candidates captures).1 = (f.apply (s.over w') candidates captures').1 := by
  cases f with
  | exclude references =>
    have hresolve : (s.over w).resolve = (s.over w').resolve := funext (h.resolve_eq s)
    simp only [Filter.apply, hresolve]
  | hasRelationship kind reference d =>
    cases reference with
    | none => simp only [Filter.apply, over_world, h.hasRelationship_eq]
    | some reference =>
      simp only [Filter.apply, over_world, h.resolve_eq, h.hasRelationship_eq]
      cases (s.over w').resolve reference <;> rfl
  | lacksRelationship kind reference d =>
    cases reference with
    | none => simp only [Filter.apply, over_world, h.hasRelationship_eq]
    | some reference =>
      simp only [Filter.apply, over_world, h.resolve_eq, h.hasRelationship_eq]
      cases (s.over w').resolve reference <;> rfl
  | matchesCulture model =>
    simp only [Filter.apply, h.resolve_eq]
    cases (s.over w').resolve (model.getD selfReference) <;> rfl
  | notMatchesCulture model =>
    simp only [Filter.apply, h.resolve_eq]
    cases (s.over w').resolve (model.getD selfReference) <;> rfl
  | sharesRelated kind reference =>
    have hempty : ∀ id, (w.neighborIds id kind).isEmpty = (w'.neighborIds id kind).isEmpty :=
      fun id => (h.neighborIds_perm id kind).isEmpty_eq
    have hcontains : ∀ id a, (w.neighborIds id kind).contains a
        = (w'.neighborIds id kind).contains a := fun id a =>
      (h.neighborIds_perm id kind).contains_eq
    have hany : ∀ id p, (w.neighborIds id kind).any p = (w'.neighborIds id kind).any p :=
      fun id p => (h.neighborIds_perm id kind).any_eq
    simp only [Filter.apply, over_world, h.resolve_eq]
    cases (s.over w').resolve reference with
    | none => rfl
    | some other =>
      simp only [hempty, funext (hcontains _), hany]
      split <;> rfl
  | path assertion =>
    simp only [Filter.apply]
    rw [PathAssertion.keep_eq_filter, PathAssertion.keep_eq_filter, funext (h.holds_eq s assertion)]
  | _ => rfl

theorem applyAll_eq (s : Scope) : ∀ (l : List Filter) (candidates : List Entity)
    (captures captures' : Captures),
      (Filter.applyAll (s.over w) l candidates captures).1
        = (Filter.applyAll (s.over w') l candidates captures').1
  | [], _, _, _ => rfl
  | f :: rest, candidates, captures, captures' => by
    simp only [Filter.applyAll]
    rw [h.filter_eq s f candidates captures captures']
    exact applyAll_eq s rest _ _ _

theorem narrow_eq (ctx : Context) (strategy : Strategy) (pool : List Entity) :
    strategy.narrow (ctx.over w) pool = strategy.narrow (ctx.over w') pool := by
  cases strategy with
  | byRelationship kind d mustHave =>
    simp only [Strategy.narrow, over_toScope, over_world, h.hasRelationship_eq]
  | byProximity reference maxDistance =>
    simp only [Strategy.narrow, over_toScope, h.resolve_eq]
    rfl
  | _ => rfl

theorem allows_eq (l : SaturationLimit) : l.allows w = l.allows w' := by
  funext e
  unfold SaturationLimit.allows SaturationLimit.count
  simp only [h.entity?_eq]
  rw [(h.relationshipsOf_perm e.id _ l.direction).countP_eq]

theorem saturationStages_eq : ∀ (l : List SaturationLimit) (candidates : List Entity)
    (trace : Option Trace), saturationStages w l candidates trace
      = saturationStages w' l candidates trace
  | [], _, _ => rfl
  | limit :: rest, candidates, trace => by
    simp only [saturationStages, h.allows_eq]
    exact saturationStages_eq rest _ _

theorem filterStages_eq (s : Scope) : ∀ (l : List Filter) (candidates : List Entity)
    (captures captures' : Captures) (trace : Option Trace),
      (filterStages (s.over w) l candidates captures trace).1
          = (filterStages (s.over w') l candidates captures' trace).1
        ∧ (filterStages (s.over w) l candidates captures trace).2.2
          = (filterStages (s.over w') l candidates captures' trace).2.2
  | [], _, _, _, _ => ⟨rfl, rfl⟩
  | f :: rest, candidates, captures, captures', trace => by
    simp only [filterStages]
    rw [h.filter_eq s f candidates captures captures']
    exact filterStages_eq s rest _ _ _ _

end Selections

end

variable {σ : Type} [DrawSource σ]

theorem select_eq (h : w.Indistinct w') (ctx : Context) (r : SelectionRule) (trace : Option Trace)
    {s s' : Scratch σ} (hs : s.draws = s'.draws) :
    (r.select (ctx.over w) trace s).1 = (r.select (ctx.over w') trace s').1
      ∧ (r.select (ctx.over w) trace s).2.draws = (r.select (ctx.over w') trace s').2.draws := by
  have hentities : (ctx.over w).world.entities = (ctx.over w').world.entities := h.entities
  have hfilters : ∀ l t, (filterStages (ctx.over w).toScope r.filters l s.captures t).1
      = (filterStages (ctx.over w').toScope r.filters l s'.captures t).1 := fun l t =>
    (h.filterStages_eq ctx.toScope r.filters l s.captures s'.captures t).1
  have htraces : ∀ l t, (filterStages (ctx.over w).toScope r.filters l s.captures t).2.2
      = (filterStages (ctx.over w').toScope r.filters l s'.captures t).2.2 := fun l t =>
    (h.filterStages_eq ctx.toScope r.filters l s.captures s'.captures t).2
  have hlimits : ∀ l t, saturationStages (ctx.over w).world r.saturationLimits l t
      = saturationStages (ctx.over w').world r.saturationLimits l t :=
    h.saturationStages_eq r.saturationLimits
  simp only [SelectionRule.select, hentities, h.narrow_eq, hfilters, htraces, hlimits, hs, and_self]

/-! ## Condition trees -/

mutual

/-- The outcome is the same, and so are the draws that are left. -/
theorem evaluateAt_eq (h : w.Indistinct w') (ctx : Context) (entity : Option Entity) :
    ∀ (c : Condition) {s s' : Scratch σ}, s.draws = s'.draws →
      (c.evaluateAt (ctx.over w) entity s).1 = (c.evaluateAt (ctx.over w') entity s').1
        ∧ (c.evaluateAt (ctx.over w) entity s).2.draws
          = (c.evaluateAt (ctx.over w') entity s').2.draws
  | .test t, _, _, hs => ⟨h.test_eq ctx entity t, hs⟩
  | .randomChance chance, _, _, hs => by
    simp only [Condition.evaluateAt, hs, and_self]
  | .path assertion, _, _, hs => by
    cases entity with
    | none => exact ⟨rfl, hs⟩
    | some e =>
      refine ⟨?_, hs⟩
      exact congrArg (Condition.pathOutcome assertion e) (h.holds_eq ctx.toScope assertion e)
  | .all conditions, _, _, hs => by
    have ih := evaluateEach_eq h ctx entity conditions hs
    simp only [Condition.evaluateAt, ih, and_self]
  | .any conditions, _, _, hs => by
    have ih := evaluateEach_eq h ctx entity conditions hs
    simp only [Condition.evaluateAt, ih, and_self]
  | .unrecognized _, _, _, hs => ⟨rfl, hs⟩

theorem evaluateEach_eq (h : w.Indistinct w') (ctx : Context) (entity : Option Entity) :
    ∀ (l : List Condition) {s s' : Scratch σ}, s.draws = s'.draws →
      (Condition.evaluateEach (ctx.over w) entity l s).1
          = (Condition.evaluateEach (ctx.over w') entity l s').1
        ∧ (Condition.evaluateEach (ctx.over w) entity l s).2.draws
          = (Condition.evaluateEach (ctx.over w') entity l s').2.draws
  | [], _, _, hs => ⟨rfl, hs⟩
  | c :: rest, _, _, hs => by
    have ih := evaluateAt_eq h ctx entity c hs
    have ihs := evaluateEach_eq h ctx entity rest ih.2
    simp only [Condition.evaluateEach, ih, ihs, and_self]

end

end World.Indistinct

/-- Worlds that differ in nothing but the order of their relationships and the archived ones
evaluate the same. -/
theorem evaluation_of_alike {σ : Type} [DrawSource σ] (ctx : Context) (w w' : World)
    (built : w.Built) (built' : w'.Built) (alike : w.Alike w') :
    (∀ (c : Condition) (entity : Option Entity) (s s' : Scratch σ), s.draws = s'.draws →
        (c.evaluate (ctx.over w) entity s).1 = (c.evaluate (ctx.over w') entity s').1)
      ∧ (∀ m : Metric, m.evaluate (ctx.over w) = m.evaluate (ctx.over w'))
      ∧ (∀ (filters : List Filter) (candidates : List Entity) (captures captures' : Captures),
        (Filter.applyAll (ctx.over w).toScope filters candidates captures).1
          = (Filter.applyAll (ctx.over w').toScope filters candidates captures').1)
      ∧ ∀ (r : SelectionRule) (trace : Option Trace) (s s' : Scratch σ), s.draws = s'.draws →
        (r.select (ctx.over w) trace s).1 = (r.select (ctx.over w') trace s').1 := by
  have h : w.Indistinct w' := ⟨alike, built.wellFormed, built'.wellFormed⟩
  refine ⟨fun c entity s s' hs => ?_, h.metric_eq ctx, h.applyAll_eq ctx.toScope,
    fun r trace s s' hs => (h.select_eq ctx r trace hs).1⟩
  exact (h.evaluateAt_eq ctx (entity.or ctx.self?) c hs).1

namespace Sample

/-- Ann knows Bob, and Bob Cat. -/
def lane : World :=
  (people.perform (.addRelationship (knows ann bob))).perform (.addRelationship (knows bob cat))

/-- The same in another order, and Cat once knew Ann. -/
def laneAgain : World :=
  ((people.perform (.addRelationship (knows bob cat))).perform
    (.addRelationship { knows cat ann with status := .historical })).perform
    (.addRelationship (knows ann bob))

theorem alike_lane : lane.Alike laneAgain where
  tick := rfl
  era := rfl
  entities := rfl
  pressures := rfl
  rateLimits := rfl
  active := .swap (knows bob cat) (knows ann bob) []

theorem friends_lane :
    ((Condition.path friends).evaluate (annsView.over lane) none blank).1
      = ((Condition.path friends).evaluate (annsView.over laneAgain) none blank).1 :=
  (evaluation_of_alike annsView lane laneAgain
    ((built_people.perform (.addRelationship _) trivial).perform (.addRelationship _) trivial)
    (((built_people.perform (.addRelationship _) trivial).perform
      (.addRelationship _) trivial).perform (.addRelationship _) trivial)
    alike_lane).1 (.path friends) none blank blank rfl

/-- Gives Bob and Cat one id. A path then takes them for one, the one its edges lead to first. -/
def confused (w : World) : World :=
  (w.perform (.editEntity bob.id fun e => { e with id := ⟨9⟩ })).perform
    (.editEntity cat.id fun e => { e with id := ⟨9⟩ })

/-- Ann knows Bob and Cat. -/
def fork : World :=
  (people.perform (.addRelationship (knows ann bob))).perform (.addRelationship (knows ann cat))

def forkAgain : World :=
  (people.perform (.addRelationship (knows ann cat))).perform (.addRelationship (knows ann bob))

theorem alike_confused : (confused fork).Alike (confused forkAgain) where
  tick := rfl
  era := rfl
  entities := rfl
  pressures := rfl
  rateLimits := rfl
  active := .swap (knows ann cat) (knows ann bob) []

/-- That the start knows someone of Bob's kind. -/
def npcKnown : PathAssertion where
  check := .nonempty
  path := [{ via := "knows", direction := .src }]
  constraints := [.kindEquals "npc"]

theorem confused_differs :
    ¬ ∀ (ctx : Context) (w w' : World), w.Alike w' → ∀ (c : Condition) (s : Scratch FixedDraws),
      (c.evaluate (ctx.over w) none s).1 = (c.evaluate (ctx.over w') none s).1 := by
  intro h
  have hsame := congrArg Outcome.passed
    (h annsView (confused fork) (confused forkAgain) alike_confused (.path npcKnown) blank)
  revert hsame
  decide +kernel

end Sample

end StoryWorld

import StoryWorld.Condition.Evaluate
import StoryWorld.Metric.Evaluate
import StoryWorld.Mutation.Prepare
import StoryWorld.Proofs.Coupling
import StoryWorld.Proofs.Filter.Chain
import StoryWorld.Selection.Select

/-!
# Evaluations under one context

Evaluations that share a context share its scratch: the captured sets of one are there when the next
one begins, and each takes its draws where the one before it stopped. Only the draws show. A path
forgets all captured sets before it walks, a filter admits the same entities whatever was captured,
and nothing else reads a captured set, so with coupled sources an evaluation has the same answer
from any captured sets and leaves coupled sources behind (`Evaluation.answer_eq`,
`Evaluation.rel_run`). The one exception is a bare walk, which adds to the sets it finds.

So an evaluation answers as it would alone, with its source as many draws further on as the
evaluations before it took (`Evaluation.answer_alone`). A meter on the source counts these.
-/

namespace StoryWorld

/-- Something to evaluate in a context. -/
inductive Evaluation where
  | condition (c : Condition) (entity : Option Entity)
  | metric (m : Metric)
  /-- What filters leave of some candidates. -/
  | filters (filters : List Filter) (candidates : List Entity)
  /-- Whether one entity passes filters by itself. -/
  | passes (filters : List Filter) (e : Entity)
  | path (a : PathAssertion) (start : Entity)
  /-- The entities a path assertion ends at, unchecked and with what was captured before. -/
  | bareWalk (a : PathAssertion) (start : Entity)
  | selection (r : SelectionRule) (trace : Option Trace)
  | variableSelection (r : VariableRule)
  | mutations (l : List Mutation)

/-- What an evaluation comes to. -/
inductive Answer where
  | outcome (o : Outcome)
  | measure (m : MetricResult)
  | entities (l : List Entity)
  | verdict (passed : Bool)
  | selection (l : List Entity) (trace : Option Trace)
  | proposal (r : MutationResult)

namespace Evaluation

/-- Whether an evaluation walks a path without holding an assertion against its end. -/
def isBareWalk : Evaluation → Bool
  | bareWalk .. => true
  | _ => false

variable {σ τ : Type} [DrawSource σ] [DrawSource τ]

def run (ctx : Context) : Evaluation → Scratch σ → Answer × Scratch σ
  | condition c entity, s =>
    let (outcome, s) := c.evaluate ctx entity s
    (.outcome outcome, s)
  | metric m, s => (.measure (m.evaluate ctx), s)
  | filters l candidates, s =>
    let (kept, captures) := Filter.applyAll ctx.toScope l candidates s.captures
    (.entities kept, { s with captures })
  | passes l e, s =>
    let (passed, captures) := Filter.passesAll ctx.toScope e l s.captures
    (.verdict passed, { s with captures })
  | path a start, s =>
    let (passed, captures) := a.holds ctx.toScope start
    (.verdict passed, { s with captures })
  | bareWalk a start, s =>
    let (reached, captures) := a.reach ctx.toScope start s.captures
    (.entities reached, { s with captures })
  | selection r trace, s =>
    let ((selected, trace), s) := r.select ctx trace s
    (.selection selected trace, s)
  | variableSelection r, s =>
    let (selected, s) := r.select ctx s
    (.entities selected, s)
  | mutations l, s => (.proposal (Mutation.prepareAll ctx.toScope l), s)

/-- Evaluations one after the other, under one context. -/
def runAll (ctx : Context) : List Evaluation → Scratch σ → List Answer × Scratch σ
  | [], s => ([], s)
  | v :: rest, s =>
    let (answer, s) := v.run ctx s
    let (answers, s) := runAll ctx rest s
    (answer :: answers, s)

/-- How many draws evaluations take. -/
def drawsTaken (ctx : Context) (l : List Evaluation) (s : Scratch σ) : Nat :=
  let metered : Scratch (Metered σ) := { draws := { source := s.draws }, captures := s.captures }
  (runAll ctx l metered).2.draws.drawn

end Evaluation

/-! ## Selections -/

section Selections

variable {σ τ : Type} [DrawSource σ] [DrawSource τ] (C : Coupling σ τ) (ctx : Context)
  {s : Scratch σ} {t : Scratch τ}

/-- Neither the entities nor the trace show what was captured before. -/
theorem filterStages_captures (scope : Scope) : ∀ (l : List Filter) (candidates : List Entity)
    (captures captures' : Captures) (trace : Option Trace),
      (filterStages scope l candidates captures trace).1
          = (filterStages scope l candidates captures' trace).1
        ∧ (filterStages scope l candidates captures trace).2.2
          = (filterStages scope l candidates captures' trace).2.2
  | [], _, _, _, _ => ⟨rfl, rfl⟩
  | f :: rest, candidates, captures, captures', trace => by
    simp only [filterStages]
    rw [Filter.apply_fst, Filter.apply_fst]
    exact filterStages_captures scope rest _ _ _ _

theorem Coupling.select (r : SelectionRule) (trace : Option Trace) (h : C.rel s.draws t.draws) :
    (r.select ctx trace s).1 = (r.select ctx trace t).1
      ∧ C.rel (r.select ctx trace s).2.draws (r.select ctx trace t).2.draws := by
  have hfilters := fun l trace =>
    filterStages_captures ctx.toScope r.filters l s.captures t.captures trace
  have hpick := fun l => C.pick r.pickStrategy r.maxResults l h
  simp only [SelectionRule.select, (hfilters _ _).1, (hfilters _ _).2]
  refine ⟨?_, (hpick _).2⟩
  rw [(hpick _).1]

theorem Coupling.selectVariable (r : VariableRule) (h : C.rel s.draws t.draws) :
    (r.select ctx s).1 = (r.select ctx t).1
      ∧ C.rel (r.select ctx s).2.draws (r.select ctx t).2.draws := by
  unfold VariableRule.select
  cases r.pool? ctx.toScope with
  | none => exact ⟨rfl, h⟩
  | some pool =>
    -- The candidates and the preferred ones among them do not depend on the captured sets.
    by_cases hprefer : r.preferFilters.isEmpty = true
    · simp only [hprefer, if_true, Filter.applyAll_fst]
      exact C.pick r.pickStrategy r.maxResults _ h
    · simp only [hprefer, if_false, Filter.applyAll_fst, Bool.false_eq_true]
      exact C.pick r.pickStrategy r.maxResults _ h

end Selections

/-! ## Condition trees -/

section Conditions

variable {σ τ : Type} [DrawSource σ] [DrawSource τ]

mutual

theorem Coupling.evaluateAt (C : Coupling σ τ) (ctx : Context) (entity : Option Entity) :
    ∀ (c : Condition) {s : Scratch σ} {t : Scratch τ}, C.rel s.draws t.draws →
      (c.evaluateAt ctx entity s).1 = (c.evaluateAt ctx entity t).1
        ∧ C.rel (c.evaluateAt ctx entity s).2.draws (c.evaluateAt ctx entity t).2.draws
  | .test _, _, _, h => ⟨rfl, h⟩
  | .randomChance chance, _, _, h => by
    refine ⟨?_, C.rel_next h⟩
    simp only [Condition.evaluateAt]
    rw [C.draw_eq h]
  | .path assertion, _, _, h => by
    cases entity <;> exact ⟨rfl, h⟩
  | .all conditions, _, _, h => by
    obtain ⟨hchildren, hend⟩ := C.evaluateEach ctx entity conditions h
    refine ⟨?_, hend⟩
    simp only [Condition.evaluateAt]
    rw [hchildren]
  | .any conditions, _, _, h => by
    obtain ⟨hchildren, hend⟩ := C.evaluateEach ctx entity conditions h
    refine ⟨?_, hend⟩
    simp only [Condition.evaluateAt]
    rw [hchildren]
  | .unrecognized _, _, _, h => ⟨rfl, h⟩

theorem Coupling.evaluateEach (C : Coupling σ τ) (ctx : Context) (entity : Option Entity) :
    ∀ (l : List Condition) {s : Scratch σ} {t : Scratch τ}, C.rel s.draws t.draws →
      (Condition.evaluateEach ctx entity l s).1 = (Condition.evaluateEach ctx entity l t).1
        ∧ C.rel (Condition.evaluateEach ctx entity l s).2.draws
          (Condition.evaluateEach ctx entity l t).2.draws
  | [], _, _, h => ⟨rfl, h⟩
  | c :: rest, _, _, h => by
    obtain ⟨hfirst, hnext⟩ := C.evaluateAt ctx entity c h
    obtain ⟨hrest, hend⟩ := C.evaluateEach ctx entity rest hnext
    refine ⟨?_, hend⟩
    simp only [Condition.evaluateEach]
    rw [hfirst, hrest]

end

end Conditions

/-! ## Evaluations -/

namespace Evaluation

variable {σ τ : Type} [DrawSource σ] [DrawSource τ] (ctx : Context)

section Coupled

variable (C : Coupling σ τ) {s : Scratch σ} {t : Scratch τ} (h : C.rel s.draws t.draws)

include h

/-- Whatever was captured, an evaluation leaves coupled sources coupled. -/
theorem rel_run (v : Evaluation) : C.rel (v.run ctx s).2.draws (v.run ctx t).2.draws := by
  cases v with
  | condition c entity => exact (C.evaluateAt ctx _ c h).2
  | selection r trace => exact (C.select ctx r trace h).2
  | variableSelection r => exact (C.selectVariable ctx r h).2
  | _ => exact h

/-- Whatever was captured, an evaluation answers the same, unless it is a bare walk. -/
theorem answer_eq {v : Evaluation} (hv : v.isBareWalk = false) :
    (v.run ctx s).1 = (v.run ctx t).1 := by
  cases v with
  | condition c entity => exact congrArg Answer.outcome (C.evaluateAt ctx _ c h).1
  | filters l candidates =>
    simp only [run, Filter.applyAll_fst]
  | passes l e =>
    simp only [run, Filter.passesAll_fst]
  | selection r trace =>
    exact congrArg (fun p : List Entity × Option Trace => Answer.selection p.1 p.2)
      (C.select ctx r trace h).1
  | variableSelection r => exact congrArg Answer.entities (C.selectVariable ctx r h).1
  | bareWalk a start => cases hv
  | metric m => rfl
  | path a start => rfl
  | mutations l => rfl

end Coupled

/-- A run leaves coupled sources coupled. -/
theorem rel_runAll (C : Coupling σ τ) : ∀ (l : List Evaluation) {s : Scratch σ} {t : Scratch τ},
    C.rel s.draws t.draws → C.rel (runAll ctx l s).2.draws (runAll ctx l t).2.draws
  | [], _, _, h => h
  | v :: rest, _, _, h => rel_runAll C rest (rel_run ctx C h v)

/-- A run leaves its source as many draws further on as it took. -/
theorem draws_runAll (l : List Evaluation) (s : Scratch σ) :
    (runAll ctx l s).2.draws = DrawSource.skip (drawsTaken ctx l s) s.draws :=
  (rel_runAll ctx (.metering s.draws) l ⟨rfl, rfl⟩).2

/-- Each answer of a run is that of its evaluation after the run of those before it. -/
theorem getElem?_runAll : ∀ (l : List Evaluation) (s : Scratch σ) (i : Nat),
    (runAll ctx l s).1[i]? = l[i]?.map fun v => (v.run ctx (runAll ctx (l.take i) s).2).1
  | [], _, _ => rfl
  | _ :: _, _, 0 => rfl
  | v :: rest, s, i + 1 => getElem?_runAll rest (v.run ctx s).2 i

/-- An evaluation under a shared context finds its source as many draws further on as the
evaluations before it took, and answers as it does alone in a fresh context with a source that far
on, unless it is a bare walk. -/
theorem answer_alone (l : List Evaluation) (s : Scratch σ) (i : Nat) (v : Evaluation)
    (here : l[i]? = some v) (hv : v.isBareWalk = false) :
    (runAll ctx (l.take i) s).2.draws = DrawSource.skip (drawsTaken ctx (l.take i) s) s.draws
      ∧ (runAll ctx l s).1[i]? = some
        (v.run ctx { draws := DrawSource.skip (drawsTaken ctx (l.take i) s) s.draws }).1 := by
  have hdraws := draws_runAll ctx (l.take i) s
  refine ⟨hdraws, ?_⟩
  rw [getElem?_runAll, here, Option.map_some]
  refine congrArg some (answer_eq ctx (.refl σ) ?_ hv)
  exact hdraws

end Evaluation

namespace Sample

/-- Two draws, over and over. -/
def dice : Scratch FixedDraws := { draws := { draws := [0.25, 0.75] } }

/-- That Ann has enough friends, and luck. -/
def gamble : Evaluation :=
  .condition (.all [.path friends, .randomChance 0.5]) (some ann)

/-- A gamble after others that draw or leave captured sets behind. -/
def afternoon : List Evaluation :=
  [.condition (.randomChance 0.5) none, .bareWalk friends bob, .passes sociable cat, gamble]

theorem gamble_alone :
    afternoon[3]? = some gamble ∧ gamble.isBareWalk = false
      ∧ Evaluation.drawsTaken annsView (afternoon.take 3) dice = 1
      ∧ (Evaluation.runAll annsView afternoon dice).1[3]? =
        some (gamble.run annsView { draws := DrawSource.skip 1 dice.draws }).1 := by
  have htaken : Evaluation.drawsTaken annsView (afternoon.take 3) dice = 1 := by decide +kernel
  have halone := (Evaluation.answer_alone annsView afternoon dice 3 gamble rfl rfl).2
  rw [htaken] at halone
  exact ⟨rfl, rfl, htaken, halone⟩

/-- That the start was captured as seen; the path itself captures nobody. -/
def wasSeen : PathAssertion where
  check := .nonempty
  path := []
  constraints := [.isIn "seen"]

/-- A bare walk does find what an assertion before it captured. -/
example :
    (wasSeen.reach annsView.toScope bob {}).1.map (·.name) = []
      ∧ (wasSeen.reach annsView.toScope bob (friends.holds annsView.toScope ann).2).1.map (·.name)
        = ["Bob"] := by
  decide +kernel

end Sample

end StoryWorld

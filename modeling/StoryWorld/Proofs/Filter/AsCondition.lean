import StoryWorld.Condition.Evaluate
import StoryWorld.Proofs.Filter.Chain

/-!
# Filters that are conditions

Much of what can be asked of a candidate by a filter can also be asked by a condition, evaluated at
the candidate. The two languages mean the same by it: a filter admits an entity exactly when its
condition is met there (`passed_of_toCondition?`), also where a reference means nothing, where a
list of tags is empty and where an edge is a loop. Filters ask whether there is a relationship,
conditions count them (`admits_hasRelationship`).
-/

namespace StoryWorld

theorem Entity.hasTagValue_none (e : Entity) (tag : String) :
    e.hasTagValue tag none = e.hasTag tag := by
  unfold hasTagValue hasTag Table.contains
  cases e.tags.find? tag <;> rfl

theorem Test.tagExists_passed (ctx : Context) (e : Entity) (tag : String)
    (value : Option TagValue) :
    ((tagExists none tag value).run ctx (some e)).passed = e.hasTagValue tag value := rfl

theorem Test.tagAbsent_passed (ctx : Context) (e : Entity) (tag : String) :
    ((tagAbsent none tag).run ctx (some e)).passed = !e.hasTag tag := rfl

theorem Test.relationshipExists_passed (ctx : Context) (e : Entity) (i : Incidence) :
    ((relationshipExists i).run ctx (some e)).passed = decide (0 < i.count ctx.toScope e) := rfl

theorem Test.relationshipCount_passed_iff (ctx : Context) (e : Entity) (i : Incidence)
    (range : Bounds UInt64) : ((relationshipCount i range).run ctx (some e)).passed = true ↔
      (∀ n ∈ range.min, n.toNat ≤ i.count ctx.toScope e)
        ∧ ∀ n ∈ range.max, i.count ctx.toScope e ≤ n.toNat := by
  simp only [run, Bounds.admits, Bounds.toNat, Bool.and_eq_true, Option.all_map, Option.all_eq_true,
    decide_eq_true_eq, Option.mem_def]

theorem Test.relationshipCount_none_passed (ctx : Context) (e : Entity) (i : Incidence) :
    ((relationshipCount i { max := some 0 }).run ctx (some e)).passed =
      !decide (0 < i.count ctx.toScope e) := by
  rw [Bool.eq_iff_iff, relationshipCount_passed_iff]
  simp

/-- Tests leave the scratch alone. -/
theorem Condition.evaluateEach_tests {σ α : Type} [DrawSource σ] (ctx : Context)
    (entity : Option Entity) (t : α → Test) : ∀ (l : List α) (s : Scratch σ),
      evaluateEach ctx entity (l.map fun a => .test (t a)) s =
        (l.map fun a => (t a).run ctx entity, s)
  | [], _ => rfl
  | a :: l, s => by
    simp only [List.map_cons, evaluateEach, evaluateAt]
    rw [evaluateEach_tests ctx entity t l]

namespace Filter

/-- The condition that asks what a filter asks, for the filters that have one. -/
def toCondition? : Filter → Option Condition
  | hasRelationship kind partner direction =>
    some (.test (.relationshipExists { kind := some kind, direction, partner }))
  | lacksRelationship kind partner direction =>
    some (.test (.relationshipCount { kind := some kind, direction, partner } { max := some 0 }))
  | hasTag tag value => some (.test (.tagExists none tag value))
  | lacksTag tag none => some (.test (.tagAbsent none tag))
  | hasTags tags => some (.all (tags.map fun tag => .test (.tagExists none tag none)))
  | hasAnyTag tags => some (.any (tags.map fun tag => .test (.tagExists none tag none)))
  | lacksAnyTag tags => some (.all (tags.map fun tag => .test (.tagAbsent none tag)))
  | hasStatus status => some (.test (.status status false))
  | hasProminence least => some (.test (.prominence { min := some least }))
  | path assertion => some (.path assertion)
  | unrecognized typeName => some (.unrecognized typeName)
  | lacksTag _ (some _) | exclude _ | hasCulture _ | matchesCulture _ | notMatchesCulture _
  | sharesRelated _ _ => none

section Relationships

variable (scope : Scope) (e : Entity) (kind : String) (partner : Option String)
  (direction : Direction)

/-- To have a relationship is to have more than none of them. -/
theorem admits_hasRelationship : (hasRelationship kind partner direction).admits scope e =
    decide (0 < Incidence.count { kind := some kind, direction, partner } scope e) := by
  have hanyone : ∀ id r, scope.world.counterpartMatches id {} r = true := fun _ _ => rfl
  rw [Bool.eq_iff_iff, decide_eq_true_eq]
  cases partner with
  | none =>
    simp only [admits, World.hasRelationship, Incidence.count, hanyone, List.any_eq_true,
      List.countP_pos_iff, Option.all_none]
  | some reference =>
    simp only [admits, Incidence.count]
    cases scope.resolve reference with
    | none => simp
    | some other =>
      simp only [Option.any_some, World.hasRelationship, hanyone, List.any_eq_true,
        List.countP_pos_iff, Option.all_some, Bool.and_true]

theorem admits_lacksRelationship : (lacksRelationship kind partner direction).admits scope e =
    !(hasRelationship kind partner direction).admits scope e := by
  cases partner with
  | none => rfl
  | some reference =>
    simp only [admits]
    cases scope.resolve reference <;> rfl

end Relationships

variable {σ : Type} [DrawSource σ] (ctx : Context) (e : Entity)

theorem passed_of_toCondition? {f : Filter} {c : Condition} (h : f.toCondition? = some c)
    (s : Scratch σ) : (c.evaluateAt ctx (some e) s).1.passed = f.admits ctx.toScope e := by
  cases f with
  | hasRelationship kind partner direction =>
    cases h
    rw [admits_hasRelationship]
    exact Test.relationshipExists_passed ctx e _
  | lacksRelationship kind partner direction =>
    cases h
    rw [admits_lacksRelationship, admits_hasRelationship]
    exact Test.relationshipCount_none_passed ctx e _
  | hasTag tag value =>
    cases h
    exact Test.tagExists_passed ctx e tag value
  | lacksTag tag value =>
    cases value with
    | none =>
      cases h
      simp only [Condition.evaluateAt, Test.tagAbsent_passed, admits, Entity.hasTagValue_none]
    | some v => cases h
  | hasTags tags =>
    cases h
    simp only [Condition.evaluateAt, Condition.evaluateEach_tests, Outcome.ofAll_passed,
      List.all_map, Function.comp_def, Test.tagExists_passed, Entity.hasTagValue_none, admits]
  | hasAnyTag tags =>
    cases h
    simp only [Condition.evaluateAt, Condition.evaluateEach_tests, Outcome.ofAny_passed,
      List.any_map, Function.comp_def, Test.tagExists_passed, Entity.hasTagValue_none, admits]
  | lacksAnyTag tags =>
    cases h
    simp only [Condition.evaluateAt, Condition.evaluateEach_tests, Outcome.ofAll_passed,
      List.all_map, Function.comp_def, Test.tagAbsent_passed, admits, List.not_any_eq_all_not]
  | hasStatus status =>
    cases h
    simp [Condition.evaluateAt, Test.run, admits]
  | hasProminence least =>
    cases h
    have hmost : e.prominence ≤ .mythic := by cases e.prominence <;> decide
    simp [Condition.evaluateAt, Test.run, admits, hmost]
  | path assertion =>
    cases h
    rfl
  | unrecognized typeName =>
    cases h
    rfl
  | exclude _ | hasCulture _ | matchesCulture _ | notMatchesCulture _ | sharesRelated _ _ => cases h

theorem all_passed_of_toCondition? : ∀ {filters : List Filter} {conditions : List Condition},
    filters.map toCondition? = conditions.map some → ∀ s : Scratch σ,
      (Condition.evaluateEach ctx (some e) conditions s).1.all (·.passed) =
        filters.all (·.admits ctx.toScope e)
  | [], [], _, _ => rfl
  | f :: filters, c :: conditions, h, s => by
    obtain ⟨hc, hrest⟩ := List.cons.inj h
    simp only [Condition.evaluateEach, List.all_cons]
    rw [passed_of_toCondition? ctx e hc, all_passed_of_toCondition? hrest]

/-- Filters that have conditions keep the candidates at which these are met. -/
theorem applyAll_as_conditions {filters : List Filter} {conditions : List Condition}
    (same : filters.map toCondition? = conditions.map some) (candidates : List Entity)
    (captures : Captures) (own : Entity → Scratch σ) :
    (applyAll ctx.toScope filters candidates captures).1 = candidates.filter fun e =>
      (Condition.evaluateAll ctx (some e) conditions (own e)).1.passed := by
  rw [applyAll_fst]
  refine List.filter_congr fun e _ => ?_
  simp only [Condition.evaluateAll, Option.some_or, Outcome.ofAll_passed]
  exact (all_passed_of_toCondition? ctx e same (own e)).symm

end Filter

namespace Sample

/-- Linked to Ann but to nobody unheard of, not gone, and with enough friends. -/
def neighbourly : List Filter :=
  [.hasRelationship "knows" (some "$self") .both, .lacksRelationship "knows" (some "$nobody") .both,
    .lacksAnyTag ["gone"], .path friends]

/-- The same, asked by conditions. -/
def neighbourlyConditions : List Condition :=
  [.test (.relationshipExists { kind := some "knows", direction := .both, partner := some "$self" }),
    .test (.relationshipCount
      { kind := some "knows", direction := .both, partner := some "$nobody" } { max := some 0 }),
    .all [.test (.tagAbsent none "gone")], .path friends]

theorem neighbourly_as_conditions :
    neighbourly.map Filter.toCondition? = neighbourlyConditions.map some
      ∧ (Filter.applyAll annsView.toScope neighbourly village.entities {}).1 =
        village.entities.filter fun e =>
          (Condition.evaluateAll annsView (some e) neighbourlyConditions blank).1.passed :=
  ⟨rfl, Filter.applyAll_as_conditions annsView rfl village.entities {} fun _ => blank⟩

end Sample

end StoryWorld

import StoryWorld.Filter.Apply
import StoryWorld.Proofs.Path.Answers

/-!
# Chains of filters

Some filters decide about all candidates at once, some look at one after the other, and a path
filter leaves captured sets behind. What each of them leaves is the same as if every candidate had
been asked by itself (`apply_fst`): whether a filter admits an entity depends neither on who else is
a candidate nor on what was captured before. A chain therefore leaves those that all of its filters
admit, in the order of the candidates (`applyAll_fst`), and holding one entity against the filters,
which stops at the first that refuses it, comes to the same question (`passesAll_fst`).
-/

namespace StoryWorld

namespace Filter

/-- Whether a filter admits an entity. -/
def admits (scope : Scope) (e : Entity) : Filter → Bool
  | exclude references => !((references.filterMap scope.resolve).map (·.id)).contains e.id
  | hasRelationship kind none direction =>
    scope.world.hasRelationship e.id (some kind) none direction
  | hasRelationship kind (some reference) direction =>
    (scope.resolve reference).any fun other =>
      scope.world.hasRelationship e.id (some kind) (some other.id) direction
  | lacksRelationship kind none direction =>
    !scope.world.hasRelationship e.id (some kind) none direction
  | lacksRelationship kind (some reference) direction =>
    (scope.resolve reference).all fun other =>
      !scope.world.hasRelationship e.id (some kind) (some other.id) direction
  | hasTag tag value => e.hasTagValue tag value
  | lacksTag tag value => !e.hasTagValue tag value
  | hasTags tags => tags.all e.hasTag
  | hasAnyTag tags => tags.any e.hasTag
  | lacksAnyTag tags => !tags.any e.hasTag
  | hasCulture culture => e.culture = culture
  | matchesCulture model =>
    (scope.resolve (model.getD selfReference)).all fun other => e.culture = other.culture
  | notMatchesCulture model =>
    (scope.resolve (model.getD selfReference)).all fun other => e.culture ≠ other.culture
  | hasStatus status => e.status = status
  | hasProminence least => least ≤ e.prominence
  | sharesRelated kind reference =>
    (scope.resolve reference).any fun other =>
      (scope.world.neighborIds e.id kind).any (scope.world.neighborIds other.id kind).contains
  | path assertion => (assertion.holds scope e).1
  | unrecognized _ => false

variable (scope : Scope)

/-- What a filter leaves are the candidates it admits. -/
theorem apply_fst (f : Filter) (candidates : List Entity) (captures : Captures) :
    (f.apply scope candidates captures).1 = candidates.filter (f.admits scope ·) := by
  have hall : candidates = candidates.filter fun _ => true := by simp
  have hnone : [] = candidates.filter fun _ => false := by simp
  cases f with
  | hasRelationship kind partner direction =>
    cases partner with
    | none => rfl
    | some reference =>
      simp only [apply, admits]
      cases scope.resolve reference with
      | none => exact hnone
      | some other => rfl
  | lacksRelationship kind partner direction =>
    cases partner with
    | none => rfl
    | some reference =>
      simp only [apply, admits]
      cases scope.resolve reference with
      | none => exact hall
      | some other => rfl
  | matchesCulture model =>
    simp only [apply, admits]
    cases scope.resolve (model.getD selfReference) with
    | none => exact hall
    | some other => rfl
  | notMatchesCulture model =>
    simp only [apply, admits]
    cases scope.resolve (model.getD selfReference) with
    | none => exact hall
    | some other => rfl
  | sharesRelated kind reference =>
    simp only [apply, admits]
    cases scope.resolve reference with
    | none => exact hnone
    | some other =>
      simp only [Option.any_some]
      split
      · -- Nobody shares a neighbour with an entity that has none.
        rename_i hempty
        rw [List.isEmpty_iff.1 hempty]
        simp
      · rfl
  | path assertion => exact assertion.keep_eq_filter scope candidates captures
  | unrecognized typeName => exact hnone
  | _ => rfl

theorem applyAll_fst : ∀ (l : List Filter) (candidates : List Entity) (captures : Captures),
    (applyAll scope l candidates captures).1 = candidates.filter fun e => l.all (·.admits scope e)
  | [], candidates, _ => by simp [applyAll]
  | f :: rest, candidates, captures => by
    simp only [applyAll]
    rw [applyAll_fst rest, apply_fst, List.filter_filter]
    simp only [List.all_cons, Bool.and_comm]

theorem passesAll_fst (e : Entity) : ∀ (l : List Filter) (captures : Captures),
    (passesAll scope e l captures).1 = l.all (·.admits scope e)
  | [], _ => rfl
  | f :: rest, captures => by
    simp only [passesAll]
    rw [apply_fst, List.all_cons]
    by_cases h : f.admits scope e = true
    · simp only [h, List.filter_cons_of_pos, List.filter_nil, List.isEmpty_cons, Bool.true_and,
        Bool.false_eq_true, if_false]
      exact passesAll_fst e rest _
    · simp [h]

/-- Filters in any order leave, in the order of the candidates, each one that passes them all by
itself, whatever sets either way starts from. -/
theorem applyAll_of_perm {filters permuted : List Filter} (reordered : permuted.Perm filters)
    (candidates : List Entity) (captures : Captures) (own : Entity → Captures) :
    (applyAll scope permuted candidates captures).1 =
      candidates.filter fun e => (passesAll scope e filters (own e)).1 := by
  rw [applyAll_fst]
  refine List.filter_congr fun e _ => ?_
  rw [passesAll_fst]
  exact reordered.all_eq

end Filter

namespace Sample

/-- Others with enough friends, who do not know someone nobody has heard of. -/
def sociable : List Filter :=
  [.path friends, .lacksRelationship "knows" (some "$nobody") .src, .exclude ["$self"]]

/-- The same, with Ann left out first. -/
def sociableAgain : List Filter :=
  [.exclude ["$self"], .path friends, .lacksRelationship "knows" (some "$nobody") .src]

theorem sociable_reordered :
    sociableAgain.Perm sociable
      ∧ (Filter.applyAll annsView.toScope sociableAgain village.entities {}).1 =
        village.entities.filter fun e => (Filter.passesAll annsView.toScope e sociable {}).1 :=
  have reordered : sociableAgain.Perm sociable := by decide +kernel
  ⟨reordered, Filter.applyAll_of_perm annsView.toScope reordered village.entities {} fun _ => {}⟩

example :
    (Filter.applyAll annsView.toScope sociable village.entities {}).1.map (·.name) = ["Cat"] := by
  decide +kernel

end Sample

end StoryWorld

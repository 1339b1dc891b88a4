import StoryWorld.Condition.Evaluate
import StoryWorld.Filter.Apply
import StoryWorld.Proofs.World.Built

/-!
# Constraints of unknown types

A constraint of an unknown type lets no entity through, so an assertion that has one reaches nobody,
whatever the world is like. It need not fail for that. The check only sees how many were reached,
and a check for nobody, a check for at most so many and a check for at least zero are content with
none. With any of the other checks the assertion fails everywhere.
-/

namespace StoryWorld

namespace PathAssertion

/-- Whether the check is content with nobody. -/
def ContentWithNone (a : PathAssertion) : Prop :=
  a.check = .empty ∨ a.check = .atMost ∨ a.check = .atLeast ∧ a.count = some 0

instance (a : PathAssertion) : Decidable a.ContentWithNone :=
  inferInstanceAs (Decidable (_ ∨ _ ∨ _ ∧ _))

theorem accepts_zero_iff (a : PathAssertion) : a.accepts 0 = true ↔ a.ContentWithNone := by
  rcases a with ⟨check, path, count, constraints⟩
  unfold accepts ContentWithNone
  cases check with
  | nonempty => simp
  | empty => simp
  | atMost => simp
  | atLeast =>
    cases count with
    | none => simp
    | some n =>
      simp only [Option.getD_some, Nat.le_zero_eq, decide_eq_true_eq, reduceCtorEq, false_or,
        true_and, Option.some.injEq]
      exact UInt64.toNat_inj (b := 0)

section Unknown

variable {a : PathAssertion} {name : String} (unknown : .unrecognized name ∈ a.constraints)

include unknown

theorem reach_of_unrecognized (scope : Scope) (start : Entity) (captures : Captures) :
    (a.reach scope start captures).1 = [] := by
  simp only [reach]
  rw [List.filter_eq_nil_iff]
  intro e _ hall
  have hno := List.all_eq_true.1 hall _ unknown
  cases hno

theorem holds_of_unrecognized (scope : Scope) (start : Entity) :
    (a.holds scope start).1 = true ↔ a.ContentWithNone := by
  simp only [holds]
  rw [reach_of_unrecognized unknown, List.length_nil, accepts_zero_iff]

end Unknown

/-- An assertion with a constraint of an unknown type holds everywhere when its check is content
with nobody, and nowhere otherwise. -/
theorem holds_iff_content {σ : Type} [DrawSource σ] (ctx : Context) (a : PathAssertion)
    (name : String) (unknown : .unrecognized name ∈ a.constraints) :
    (∀ start, (a.holds ctx.toScope start).1 = true ↔ a.ContentWithNone)
      ∧ (∀ (entity : Option Entity) (s : Scratch σ),
          ((Condition.path a).evaluate ctx entity s).1.passed = true ↔
            (entity.or ctx.self?).isSome ∧ a.ContentWithNone)
      ∧ ∀ (candidates : List Entity) (captures : Captures),
          ((Filter.path a).apply ctx.toScope candidates captures).1 =
            if a.ContentWithNone then candidates else [] := by
  have holds := holds_of_unrecognized unknown ctx.toScope
  refine ⟨holds, fun entity s => ?_, fun candidates captures => ?_⟩
  · unfold Condition.evaluate Condition.evaluateAt
    cases entity.or ctx.self? with
    | none => simp [Outcome.noEntity]
    | some e => simpa [Condition.pathOutcome] using holds e
  · have hkeep : ((Filter.path a).apply ctx.toScope candidates captures).1 = _ :=
      keep_eq_filter a ctx.toScope candidates captures
    rw [hkeep]
    split
    · rename_i hcontent
      exact List.filter_eq_self.2 fun e _ => (holds e).2 hcontent
    · rename_i hcontent
      exact List.filter_eq_nil_iff.2 fun e _ he => hcontent ((holds e).1 he)

end PathAssertion

namespace Sample

/-- That nobody whom the start knows meets a constraint of an unknown type. -/
def noneKnown : PathAssertion where
  check := .empty
  path := [{ via := "knows", direction := .src }]
  constraints := [.unrecognized "born_under"]

theorem content_noneKnown :
    (.unrecognized "born_under" ∈ noneKnown.constraints) ∧ noneKnown.ContentWithNone :=
  ⟨by decide, ((PathAssertion.holds_iff_content (σ := FixedDraws) annsView noneKnown "born_under"
    (by decide)).1 ann).1 (by decide +kernel)⟩

theorem unrecognized_holds :
    ¬ ∀ (scope : Scope) (start : Entity) (a : PathAssertion),
      (∃ name, .unrecognized name ∈ a.constraints) → (a.holds scope start).1 = false := by
  intro h
  have hfalse := h annsView.toScope ann noneKnown ⟨"born_under", by decide⟩
  have htrue : (noneKnown.holds annsView.toScope ann).1 = true := by decide +kernel
  rw [htrue] at hfalse
  cases hfalse

end Sample

end StoryWorld

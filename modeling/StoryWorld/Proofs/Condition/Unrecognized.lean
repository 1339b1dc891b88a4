import Mathlib.Data.List.Forall2
import StoryWorld.Proofs.Condition.Places

/-!
# Conditions of unknown types

A condition of an unknown type may come to mean something: any tree that leaves nothing to chance.
A tree is read as another when some of its unknown conditions are given a meaning. That never takes
an outcome away: a tree that is met stays met, however it is read (`Condition.passed_of_readAs`).
Combinations only ask how many of their parts are met, the known random conditions have the draws
they had, and what the new parts capture on their paths is seen by nobody else.
-/

namespace StoryWorld

namespace Condition

/-- Whether a tree becomes another when some of its unknown conditions are given a meaning. -/
inductive ReadAs : Condition → Condition → Prop
  | same (c : Condition) : ReadAs c c
  | unrecognized (typeName : String) {meaning : Condition} (certain : meaning.chances = []) :
    ReadAs (.unrecognized typeName) meaning
  | all {l l' : List Condition} (parts : List.Forall₂ ReadAs l l') : ReadAs (.all l) (.all l')
  | any {l l' : List Condition} (parts : List.Forall₂ ReadAs l l') : ReadAs (.any l) (.any l')

end Condition

namespace Outcome

/-- Whether an outcome is met only if another one is. -/
def Stricter (o o' : Outcome) : Prop := o.passed = true → o'.passed = true

variable {l l' : List Outcome}

theorem stricter_ofAll (h : List.Forall₂ Stricter l l') : (ofAll l).Stricter (ofAll l') := by
  unfold Stricter
  rw [ofAll_passed, ofAll_passed]
  induction h with
  | nil => exact id
  | cons hfirst _ ih =>
    rw [List.all_cons, List.all_cons, Bool.and_eq_true, Bool.and_eq_true]
    exact And.imp hfirst ih

theorem stricter_ofAny (h : List.Forall₂ Stricter l l') : (ofAny l).Stricter (ofAny l') := by
  unfold Stricter
  rw [ofAny_passed, ofAny_passed]
  induction h with
  | nil => exact id
  | cons hfirst _ ih =>
    rw [List.any_cons, List.any_cons, Bool.or_eq_true, Bool.or_eq_true]
    exact Or.imp hfirst ih

end Outcome

namespace Condition

variable {σ : Type} [DrawSource σ]

mutual

theorem ReadAs.evaluateAt (ctx : Context) (entity : Option Entity) :
    ∀ {c c' : Condition} {s t : Scratch σ}, c.ReadAs c' → s.draws = t.draws →
      (c.evaluateAt ctx entity s).1.Stricter (c'.evaluateAt ctx entity t).1
        ∧ (c.evaluateAt ctx entity s).2.draws = (c'.evaluateAt ctx entity t).2.draws
  | _, _, s, t, .same c, hs => by
    obtain ⟨houtcome, hdraws⟩ := (Coupling.refl σ).evaluateAt ctx entity c hs
    refine ⟨?_, hdraws⟩
    rw [houtcome]
    exact id
  | _, c', s, t, .unrecognized typeName certain, hs => by
    refine ⟨fun h => ?_, ?_⟩
    · cases h
    · have hmeaning := draws_evaluateAt ctx entity c' t
      rw [certain] at hmeaning
      exact hs.trans hmeaning.symm
  | _, _, s, t, .all parts, hs => by
    obtain ⟨hchildren, hdraws⟩ := ReadAs.evaluateEach ctx entity parts hs
    exact ⟨Outcome.stricter_ofAll hchildren, hdraws⟩
  | _, _, s, t, .any parts, hs => by
    obtain ⟨hchildren, hdraws⟩ := ReadAs.evaluateEach ctx entity parts hs
    exact ⟨Outcome.stricter_ofAny hchildren, hdraws⟩

theorem ReadAs.evaluateEach (ctx : Context) (entity : Option Entity) :
    ∀ {l l' : List Condition} {s t : Scratch σ}, List.Forall₂ ReadAs l l' → s.draws = t.draws →
      List.Forall₂ Outcome.Stricter (Condition.evaluateEach ctx entity l s).1
          (Condition.evaluateEach ctx entity l' t).1
        ∧ (Condition.evaluateEach ctx entity l s).2.draws
          = (Condition.evaluateEach ctx entity l' t).2.draws
  | _, _, _, _, .nil, hs => ⟨.nil, hs⟩
  | _, _, _, _, .cons first rest, hs => by
    obtain ⟨hfirst, hnext⟩ := ReadAs.evaluateAt ctx entity first hs
    obtain ⟨hrest, hend⟩ := ReadAs.evaluateEach ctx entity rest hnext
    exact ⟨.cons hfirst hrest, hend⟩

end

/-- A tree that is met stays met when unknown conditions in it turn out to be trees that leave
nothing to chance. -/
theorem passed_of_readAs (ctx : Context) (entity : Option Entity) (c c' : Condition)
    (s : Scratch σ) (read : c.ReadAs c') (met : (c.evaluate ctx entity s).1.passed = true) :
    (c'.evaluate ctx entity s).1.passed = true :=
  (read.evaluateAt ctx (entity.or ctx.self?) rfl).1 met

end Condition

namespace Sample

/-- An omen is that someone was seen, which nobody captured by then. -/
def omensRead : Condition :=
  .any [.all [.path wasSeen, .randomChance 0.5], .path friends, .randomChance 0.5]

theorem readAs_omens : omens.ReadAs omensRead :=
  .any (.cons (.all (.cons (.unrecognized "omen" rfl) (.cons (.same _) .nil)))
    (.cons (.same _) (.cons (.same _) .nil)))

theorem omens_met :
    omens.ReadAs omensRead ∧ (omens.evaluate annsView none dice).1.passed = true
      ∧ (omensRead.evaluate annsView none dice).1.passed = true := by
  have hmet : (omens.evaluate annsView none dice).1.passed = true := by decide +kernel
  exact ⟨readAs_omens, hmet,
    Condition.passed_of_readAs annsView none omens omensRead dice readAs_omens hmet⟩

end Sample

end StoryWorld

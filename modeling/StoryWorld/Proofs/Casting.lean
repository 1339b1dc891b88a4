import StoryWorld.Proofs.Isolation

/-!
# Casts as bindings

Instead of taking the scope of a cast, one can bind its roles: each that is filled under its name,
in any order and with any number of `$` signs in front. A name then stands for an entity exactly if
the entity has the role of that name (`Bindings.find?_bindAll`, `Cast.role?_eq_some_iff`), so both
scopes are the same (`Scope.ofCast_eq_ofBindings`), and no evaluation can tell which of them it was
given (`Cast.interchangeable`).
-/

namespace StoryWorld

open Text (dropSigils)

namespace Bindings

/-- Binds names to entities, one after the other. -/
def bindAll (b : Bindings) (named : List (String × Entity)) : Bindings :=
  named.foldl (fun b r => b.bind r.1 (.entity r.2)) b

/-- The names and entities as they are found, without the signs in front of the names. -/
def stripped (named : List (String × Entity)) : List (String × Entity) :=
  named.map fun r => (dropSigils r.1, r.2)

theorem stripped_cons (r : String × Entity) (named : List (String × Entity)) :
    stripped (r :: named) = (dropSigils r.1, r.2) :: stripped named := rfl

theorem find?_bindAll {name : String} {x : Binding} :
    ∀ {named : List (String × Entity)} {b : Bindings}, ((stripped named).map (·.1)).Nodup →
      ((b.bindAll named).find? name = some x ↔
        (∃ e, x = .entity e ∧ (name, e) ∈ stripped named)
          ∨ name ∉ (stripped named).map (·.1) ∧ b.find? name = some x)
  | [], _, _ => by simp [bindAll, stripped]
  | (n, e) :: named, b, hnodup => by
    rw [stripped_cons, List.map_cons, List.nodup_cons] at hnodup
    obtain ⟨hnew, hnodup⟩ := hnodup
    change ((b.bind n (.entity e)).bindAll named).find? name = some x ↔ _
    rw [find?_bindAll hnodup, stripped_cons, bind, Table.find?_insert]
    by_cases h : dropSigils n = name
    · subst h
      have hother : ∀ e', (dropSigils n, e') ∉ stripped named :=
        fun e' he' => hnew (List.mem_map.2 ⟨_, he', rfl⟩)
      simp [hnew, hother, eq_comm]
    · simp [h, Ne.symm h]

end Bindings

namespace Cast

/-- The roles that are filled, each with its entity. -/
def filled (c : Cast) : List (String × Entity) :=
  ("actor", c.actor) :: (c.instigator.toList.map (("instigator", ·))
    ++ c.target.toList.map (("target", ·)) ++ c.target2.toList.map (("target2", ·)))

theorem nodup_filled (c : Cast) : (c.filled.map (·.1)).Nodup := by
  unfold filled
  cases c.instigator <;> cases c.target <;> cases c.target2 <;> simp

theorem role?_eq_some_iff {c : Cast} {name : String} {e : Entity} :
    c.role? name = some e ↔ (name, e) ∈ c.filled := by
  unfold role? filled
  split <;> simp_all [eq_comm]

end Cast

section Interchange

variable {c : Cast} {named : List (String × Entity)}

theorem Scope.ofCast_eq_ofBindings (world : World)
    (hnamed : (Bindings.stripped named).Perm c.filled) :
    Scope.ofCast world c = Scope.ofBindings world (some c.actor) (Bindings.bindAll {} named) := by
  have hbinding : ∀ name, (c.role? name).map Binding.entity
      = (Bindings.bindAll {} named).find? name := by
    intro name
    have hnodup := ((hnamed.map (·.1)).nodup_iff).2 c.nodup_filled
    ext x
    rw [Bindings.find?_bindAll hnodup, Option.map_eq_some_iff]
    simp only [Cast.role?_eq_some_iff, hnamed.mem_iff, Table.find?_empty, reduceCtorEq, and_false,
      or_false]
    constructor
    · rintro ⟨e, he, rfl⟩
      exact ⟨e, rfl, he⟩
    · rintro ⟨e, rfl, he⟩
      exact ⟨e, he, rfl⟩
  unfold Scope.ofCast Scope.ofBindings
  rw [funext hbinding]

/-- A cast and the bindings of its roles mean the same by every reference and every name, with or
without `$` signs, and whatever is evaluated comes out the same and leaves the same scratch. -/
theorem Cast.interchangeable {σ : Type} [DrawSource σ] (world : World) (tick : UInt64)
    (tuning : Tuning) (hnamed : (Bindings.stripped named).Perm c.filled) :
    let cast := Scope.ofCast world c
    let bound := Scope.ofBindings world (some c.actor) (Bindings.bindAll {} named)
    (∀ reference, cast.resolve reference = bound.resolve reference)
      ∧ (∀ name, cast.binding? name = bound.binding? name)
      ∧ (∀ name, cast.lookup name = bound.lookup name)
      ∧ ∀ (v : Evaluation) (s : Scratch σ),
        v.run ⟨cast, tick, tuning⟩ s = v.run ⟨bound, tick, tuning⟩ s := by
  intro cast bound
  have hscope : cast = bound := Scope.ofCast_eq_ofBindings world hnamed
  rw [hscope]
  exact ⟨fun _ => rfl, fun _ => rfl, fun _ => rfl, fun _ _ => rfl⟩

end Interchange

namespace Sample

/-- Ann acts upon Bob, at nobody's instigation. -/
def encounter : Cast where
  actor := ann
  target := some bob

/-- The roles of the encounter as a host might bind them. -/
def announced : List (String × Entity) := [("$target", bob), ("$$actor", ann)]

theorem encounter_announced :
    (Bindings.stripped announced).Perm encounter.filled
      ∧ (Scope.ofCast village encounter).resolve " $target " =
        (Scope.ofBindings village (some ann) (Bindings.bindAll {} announced)).resolve " $target " :=
  have hnamed : (Bindings.stripped announced).Perm encounter.filled := .swap _ _ _
  ⟨hnamed, (Cast.interchangeable (σ := FixedDraws) village 0 {} hnamed).1 " $target "⟩

example : ((Scope.ofCast village encounter).resolve " $target ").map (·.name) = some "Bob" := by
  decide +kernel

end Sample

end StoryWorld

import StoryWorld.Proofs.World.Built

/-!
# Calls that write in place

The two calls that add to a world, as they write to it: one place after the other, and what is
written when a call fails stays written. An entity takes two writes, and between them the index
knows of an entity that is not there. But both calls check before they write, and nothing fails
after the first write, so they do all or nothing (`Call.allOrNothing_addEntity`,
`Call.allOrNothing_addRelationship`). Succeeding or failing, they leave what `World.perform` says,
and so a built world again (`World.Built.after_addEntity`, `World.Built.after_addRelationship`).

Whatever was called and whatever failed, the places a world keeps ids in then fit together
(`World.Built.fits_together`).
-/

namespace StoryWorld

/-- A call that writes to a world. -/
abbrev Call := EStateM WorldError World

namespace Call

def addEntity (e : Entity) : Call EntityId := do
  if (← get).contains e.id then throw (.duplicateEntity e.id)
  modify fun w => { w with index := w.index.insert e.id w.entities.length }
  modify fun w => { w with entities := w.entities ++ [e] }
  return e.id

def addRelationship (r : Relationship) : Call Unit := do
  for id in [r.src, r.dst] do
    if !(← get).contains id then throw (.missingEndpoint r.kind id)
  modify fun w => { w with relationships := w.relationships ++ [r] }

/-- The world a call leaves, also when it fails. -/
def after {α : Type} (call : Call α) (w : World) : World :=
  match call.run w with
  | .ok _ left => left
  | .error _ left => left

/-- Whether a call does to every world all that `f` does, or fails with nothing done. -/
def AllOrNothing {α : Type} (call : Call α) (f : World → Except WorldError World) (a : α) : Prop :=
  ∀ w, call.run w = match f w with
    | .ok added => .ok a added
    | .error why => .error why w

namespace AllOrNothing

variable {α : Type} {call : Call α} {f : World → Except WorldError World} {a : α}
  (h : call.AllOrNothing f a)

include h

theorem after_eq (w : World) : call.after w = match f w with
    | .ok added => added
    | .error _ => w := by
  unfold after
  rw [h w]
  cases f w <;> rfl

theorem eq_of_error {w left : World} {why : WorldError} (herr : call.run w = .error why left) :
    left = w := by
  rw [h w] at herr
  cases hf : f w with
  | ok added =>
    rw [hf] at herr
    cases herr
  | error why' =>
    rw [hf] at herr
    cases herr
    rfl

end AllOrNothing

theorem allOrNothing_addEntity (e : Entity) :
    (addEntity e).AllOrNothing (·.addEntity e) e.id := by
  intro w
  unfold World.addEntity
  by_cases hknown : w.contains e.id = true
  · simp [addEntity, hknown]
  · simp [addEntity, hknown, -bind_pure_comp]

theorem allOrNothing_addRelationship (r : Relationship) :
    (addRelationship r).AllOrNothing (·.addRelationship r) () := by
  intro w
  unfold World.addRelationship
  by_cases hsrc : w.contains r.src = true
  · by_cases hdst : w.contains r.dst = true
    · simp [addRelationship, hsrc, hdst]
    · simp [addRelationship, hsrc, hdst]
  · simp [addRelationship, hsrc]

theorem after_addEntity (w : World) (e : Entity) :
    (addEntity e).after w = w.perform (.addEntity e) :=
  (allOrNothing_addEntity e).after_eq w

theorem after_addRelationship (w : World) (r : Relationship) :
    (addRelationship r).after w = w.perform (.addRelationship r) :=
  (allOrNothing_addRelationship r).after_eq w

end Call

namespace World

namespace WellFormed

variable {w : World} (h : w.WellFormed)

include h

theorem pairwise_id_ne : w.entities.Pairwise (·.id ≠ ·.id) := List.pairwise_map.1 h.ids_nodup

theorem find?_index_iff_getElem {id : EntityId} {i : Nat} :
    w.index.find? id = some i ↔ ∃ hi : i < w.entities.length, w.entities[i].id = id := by
  rw [h.find?_index, ids, List.getElem?_map, Option.map_eq_some_iff]
  simp only [List.getElem?_eq_some_iff]
  constructor
  · rintro ⟨e, ⟨hi, rfl⟩, hid⟩
    exact ⟨hi, hid⟩
  · rintro ⟨hi, hid⟩
    exact ⟨w.entities[i], ⟨hi, rfl⟩, hid⟩

end WellFormed

namespace Built

variable {w : World} (built : w.Built)

include built

theorem after_addEntity (e : Entity) : ((Call.addEntity e).after w).Built := by
  rw [Call.after_addEntity]
  exact built.perform (.addEntity e) trivial

theorem after_addRelationship (r : Relationship) :
    ((Call.addRelationship r).after w).Built := by
  rw [Call.after_addRelationship]
  exact built.perform (.addRelationship r) trivial

end Built

/-- In a built world no two entities share an id, the index leads from exactly the ids of the
entities to their places, and both ends of every relationship, active or archived, are entities. A
call that fails to add something leaves it as it is. -/
theorem Built.fits_together {w : World} (built : w.Built) :
    w.entities.Pairwise (·.id ≠ ·.id)
      ∧ (∀ id i, w.index.find? id = some i ↔
          ∃ hi : i < w.entities.length, w.entities[i].id = id)
      ∧ (∀ r ∈ w.relationships,
          (∃ e ∈ w.entities, e.id = r.src) ∧ ∃ e ∈ w.entities, e.id = r.dst)
      ∧ (∀ e why left, (Call.addEntity e).run w = .error why left → left = w)
      ∧ ∀ r why left, (Call.addRelationship r).run w = .error why left → left = w := by
  have h := built.wellFormed
  refine ⟨h.pairwise_id_ne, fun _ _ => h.find?_index_iff_getElem, fun r hr => ?_,
    fun e _ _ => (Call.allOrNothing_addEntity e).eq_of_error,
    fun r _ _ => (Call.allOrNothing_addRelationship r).eq_of_error⟩
  obtain ⟨hsrc, hdst⟩ := h.ends r hr
  exact ⟨h.contains_iff.1 hsrc, h.contains_iff.1 hdst⟩

end World

namespace Sample

/-- The village once Bob goes by another name. -/
def renamed : World := village.perform (.editEntity bob.id fun e => { e with name := "Rob" })

theorem built_renamed : renamed.Built :=
  built_village.perform (.editEntity bob.id _) fun _ _ => rfl

theorem renamed_fits_together :
    renamed.Built ∧ renamed.entities.Pairwise (·.id ≠ ·.id)
      ∧ (∀ r ∈ renamed.relationships,
          (∃ e ∈ renamed.entities, e.id = r.src) ∧ ∃ e ∈ renamed.entities, e.id = r.dst)
      ∧ (Call.addEntity ann).run renamed = .error (.duplicateEntity ann.id) renamed := by
  obtain ⟨hids, -, hends, -⟩ := built_renamed.fits_together
  exact ⟨built_renamed, hids, hends, rfl⟩

end Sample

end StoryWorld

import StoryWorld.Proofs.World.Links

/-!
# Worlds that read alike

Two worlds are alike when they differ in nothing but the order of their relationships and in those
that are archived. When their indexes are good, an id leads to the same entity in both
(`Indistinct.entity?_eq`), and every query answers the same, or the same in another order.
-/

namespace StoryWorld

theorem distinct_perm {α : Type} [DecidableEq α] {l l' : List α} (h : l.Perm l') :
    (distinct l).Perm (distinct l') := by
  rw [List.perm_ext_iff_of_nodup (nodup_distinct l) (nodup_distinct l')]
  intro a
  rw [mem_distinct, mem_distinct]
  exact h.mem_iff

namespace World

/-- The same but for archived relationships and the order of the others. -/
structure Alike (w w' : World) : Prop where
  tick : w.tick = w'.tick
  era : w.era = w'.era
  entities : w.entities = w'.entities
  pressures : w.pressures = w'.pressures
  rateLimits : w.rateLimits = w'.rateLimits
  active : w.activeRelationships.Perm w'.activeRelationships

/-- Two good worlds that are alike. -/
structure Indistinct (w w' : World) : Prop extends Alike w w' where
  left : w.WellFormed
  right : w'.WellFormed

namespace Indistinct

variable {w w' : World}

theorem symm (h : w.Indistinct w') : w'.Indistinct w where
  tick := h.tick.symm
  era := h.era.symm
  entities := h.entities.symm
  pressures := h.pressures.symm
  rateLimits := h.rateLimits.symm
  active := h.active.symm
  left := h.right
  right := h.left

variable (h : w.Indistinct w')

include h

theorem entity?_eq (id : EntityId) : w.entity? id = w'.entity? id := by
  ext e
  rw [h.left.entity?_eq_some_iff, h.right.entity?_eq_some_iff, h.entities]

theorem pressure_eq (id : String) : w.pressure id = w'.pressure id := by
  unfold pressure
  rw [h.pressures]

theorem findEntities_eq (q : EntityQuery) : w.findEntities q = w'.findEntities q := by
  unfold findEntities
  rw [h.entities]

theorem relationshipsOf_perm (id : EntityId) (kind : Option String) (d : Direction) :
    (w.relationshipsOf id kind d).Perm (w'.relationshipsOf id kind d) := h.active.filter _

theorem hasRelationship_eq (id : EntityId) (kind : Option String) (other : Option EntityId)
    (d : Direction) : w.hasRelationship id kind other d = w'.hasRelationship id kind other d :=
  (h.relationshipsOf_perm id kind d).any_eq

theorem neighbors_perm (id : EntityId) (kind : Option String) (d : Direction) :
    (w.neighbors id kind d).Perm (w'.neighbors id kind d) := by
  unfold neighbors
  rw [funext h.entity?_eq]
  exact (distinct_perm ((h.relationshipsOf_perm id kind d).map _)).filterMap _

theorem linked_iff {kind : String} {d : Direction} {a b : EntityId} :
    w.Linked kind d a b ↔ w'.Linked kind d a b := by
  rw [← hasRelationship_iff, ← hasRelationship_iff, h.hasRelationship_eq]

end Indistinct

end World

end StoryWorld

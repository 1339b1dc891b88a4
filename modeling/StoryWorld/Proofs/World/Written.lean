import StoryWorld.Proofs.World.Grounded
import StoryWorld.Proofs.World.Links

/-!
# Reading what was written

What the queries of a world answer after a commit of a single change. An edit that is made shows on
the entity it is about (`entity?_commit_edit`), a new relationship is one link more
(`linked_after_link`), and archiving leaves no link that its key is about
(`not_linked_after_archive`). No commit takes an entity away or gives it another id
(`WellFormed.exists_entity?_commit`).
-/

namespace StoryWorld

open Commit

theorem RelationshipKey.covers_iff {k : RelationshipKey} {r : Relationship} :
    k.covers r = true ↔ r.kind = k.kind ∧ r.Leads k.entity k.other k.direction := by
  rw [covers, Bool.and_eq_true, decide_eq_true_eq, Relationship.connects_iff]

namespace Commit

variable {cap : UInt64} {e : Entity}

theorem hasTagValue_touched_setTag (tick : UInt64) (e : Entity) (id : EntityId) (tag : String)
    (value : TagValue) :
    (touched tick (.setTag id tag value) e).hasTagValue tag (some value) = true := by
  simp [touched, edited, Entity.hasTagValue]

theorem hasTag_touched_removeTag (tick : UInt64) (e : Entity) (id : EntityId) (tag : String) :
    (touched tick (.removeTag id tag) e).hasTag tag = false := by
  simp [touched, edited, Entity.hasTag, Table.contains]

/-- Only a new tag is refused. -/
theorem hasTagValue_of_refusedTag? {id : EntityId} {tag refused : String} {value : TagValue}
    (h : refusedTag? cap e (.setTag id tag value) = some refused) :
    refused = tag ∧ e.hasTagValue tag (some value) = false := by
  simp only [refusedTag?, Option.ite_none_right_eq_some, Option.some.injEq] at h
  obtain ⟨h, rfl⟩ := h
  simp only [tagRefused, Bool.and_eq_true, Bool.not_eq_true', Entity.hasTag, Table.contains,
    Option.isSome_eq_false_iff, Option.isNone_iff_eq_none] at h
  simp only [Entity.hasTagValue, h.1, true_and]

end Commit

namespace World

variable {w : World}

/-! ## Entities -/

theorem entity?_rewritten_self (w : World) (id : EntityId) (f : Entity → Entity) :
    entity? { w with entities := w.rewritten id f } id = (w.entity? id).map f := by
  simp only [entity?, rewritten]
  cases w.index.find? id with
  | none => rfl
  | some i => simp [List.getElem?_modify]

section Edit

variable {e : EntityEdit} {x : Entity}

theorem commit_edit_refused {tag : String} (hx : w.entity? e.entity = some x)
    (h : refusedTag? w.tagCap x e = some tag) :
    w.commit { entityEdits := [e] } = (w, { droppedTags := [(x.id, tag)] }) := by
  change Step.run (w, {}) (.edit e) = _
  rw [Step.run_edit, hx]
  simp only [h]

theorem commit_edit_made (hx : w.entity? e.entity = some x) (h : refusedTag? w.tagCap x e = none) :
    w.commit { entityEdits := [e] } =
      ({ w with entities := w.rewritten e.entity (touched w.tick e) },
        { entitiesChanged := 1 }) := by
  change Step.run (w, {}) (.edit e) = _
  rw [Step.run_edit, hx]
  simp only [h]

/-- An edit that is made is found on its entity. -/
theorem entity?_commit_edit (hx : w.entity? e.entity = some x)
    (h : refusedTag? w.tagCap x e = none) :
    (w.commit { entityEdits := [e] }).1.entity? e.entity = some (touched w.tick e x) := by
  rw [commit_edit_made hx h, entity?_rewritten_self, hx, Option.map_some]

end Edit

/-- A commit that edits no entity drops no tag. -/
theorem WellFormed.droppedTags_commit (good : w.WellFormed) {c : ChangeSet} (h : c.Grounded w)
    (hedits : c.entityEdits = []) : (w.commit c).2.droppedTags = [] := by
  have hcount := (good.accounts_commit h).edits
  rw [hedits, List.length_nil] at hcount
  exact List.length_eq_zero_iff.1 (Nat.eq_zero_of_add_eq_zero_left hcount)

theorem contains_commit (w : World) (c : ChangeSet) (id : EntityId) :
    (w.commit c).1.contains id = w.contains id := by
  rw [commit_fst]
  exact Step.contains_foldl_after c.steps w id

namespace WellFormed

variable (good : w.WellFormed)

include good

theorem commit (c : ChangeSet) : (w.commit c).1.WellFormed := by
  rw [commit_fst]
  exact good.foldl_after c.steps

/-- What is found under an id has that id. -/
theorem map_id_entity? (id : EntityId) :
    (w.entity? id).map (·.id) = if w.contains id then some id else none := by
  by_cases hc : w.contains id = true
  · obtain ⟨e, he, rfl⟩ := good.contains_iff.1 hc
    rw [if_pos hc, good.entity?_eq_some_iff.2 ⟨he, rfl⟩, Option.map_some]
  · rw [if_neg hc, Option.map_eq_none_iff, Option.eq_none_iff_forall_ne_some]
    intro e he
    exact hc (good.contains_iff.2 ⟨e, good.entity?_eq_some_iff.1 he⟩)

theorem exists_entity?_commit (c : ChangeSet) {id : EntityId} (hid : w.contains id = true) :
    ∃ e, (w.commit c).1.entity? id = some e ∧ e.id = id := by
  have hc : (w.commit c).1.contains id = true := (contains_commit w c id).trans hid
  obtain ⟨e, he, heq⟩ := (good.commit c).contains_iff.1 hc
  exact ⟨e, (good.commit c).entity?_eq_some_iff.2 ⟨he, heq⟩, heq⟩

end WellFormed

/-! ## Links -/

section Links

variable {kind : String} {d : Direction} {a b : EntityId}

/-- A relationship that is taken in is active, and so one link more. -/
theorem linked_after_link {r : Relationship} (h : w.refusal? r = none) :
    (Step.after w (.link r)).Linked kind d a b ↔
      w.Linked kind d a b ∨ r.kind = kind ∧ r.Leads a b d := by
  have hactive : (stamped w.tick r).status = .active := rfl
  have hkind : (stamped w.tick r).kind = r.kind := rfl
  have hleads : (stamped w.tick r).Leads a b d ↔ r.Leads a b d := by cases d <;> rfl
  rw [Step.after_link_taken h]
  unfold Linked
  simp only [List.mem_append, List.mem_singleton, or_and_right, exists_or, exists_eq_left, hactive,
    hkind, hleads, true_and]

theorem linked_foldl_link : ∀ (l : List Relationship) {w : World},
    (∀ r ∈ l, w.contains r.src = true ∧ w.contains r.dst = true) →
      (((l.map Step.link).foldl Step.after w).Linked kind d a b ↔
        w.Linked kind d a b ∨ ∃ r ∈ l, r.kind = kind ∧ r.Leads a b d)
  | [], _, _ => by simp
  | r :: l, w, h => by
    obtain ⟨hr, hrest⟩ := List.forall_mem_cons.1 h
    have ih := linked_foldl_link l (w := Step.after w (.link r)) fun r' hr' =>
      Step.Grounded.after (t := .link r') (hrest r' hr') (.link r)
    rw [List.map_cons, List.foldl_cons, ih, linked_after_link (refusal?_eq_none_iff.2 hr),
      or_assoc, List.exists_mem_cons_iff]

/-- New relationships between entities that are there are links, and the only new ones. -/
theorem linked_commit_links {l : List Relationship}
    (h : ChangeSet.Grounded { newRelationships := l } w) :
    (w.commit { newRelationships := l }).1.Linked kind d a b ↔
      w.Linked kind d a b ∨ ∃ r ∈ l, r.kind = kind ∧ r.Leads a b d := by
  have hsteps : ChangeSet.steps { newRelationships := l } = l.map Step.link := by
    simp [ChangeSet.steps]
  rw [commit_fst, hsteps]
  exact linked_foldl_link l h.links

/-- No relationship that a key is about stays active when it is archived. -/
theorem not_linked_after_archive (key : RelationshipKey) :
    ¬ (Step.after w (.archive key)).Linked key.kind key.direction key.entity key.other := by
  rw [Step.after_archive]
  rintro ⟨r', hr', hactive, hkind, hleads⟩
  obtain ⟨r, -, rfl⟩ := List.mem_map.1 hr'
  by_cases hr : hits key r = true
  · rw [if_pos hr] at hactive
    cases hactive
  · rw [if_neg hr] at hactive hkind hleads
    have hcovers := RelationshipKey.covers_iff.2 ⟨hkind, hleads⟩
    exact hr (by simp [hits, Relationship.isActive, hactive, hcovers])

end Links

end World

end StoryWorld

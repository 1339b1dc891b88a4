import StoryWorld.Proofs.World.Edgewise

/-!
# Commits, one entity at a time

A step of a commit rewrites one entity at most: the one that an edit is about, or the one that
brought a new relationship about. What it makes of an entity is settled by the entity, the clock,
the tag cap and the ids that are there, and a commit changes none but the first, so what becomes of
an entity is known without the others (`Step.turnAll`). It lasts as what it is, each relationship
that was added is an event for the one who brought it about, and the rest stays as it was unless an
edit of this entity took effect (`World.Built.commit_entitywise`).
-/

namespace StoryWorld

open Commit

/-! ## What one step makes of an entity -/

/-- Rewriting the entity under an id rewrites whoever has the id. -/
theorem World.WellFormed.rewritten_eq_map {w : World} (good : w.WellFormed) (id : EntityId)
    (f : Entity → Entity) :
    w.rewritten id f = w.entities.map fun e => if e.id = id then f e else e := by
  have hindex : ∀ i e, w.entities[i]? = some e → (w.index.find? id = some i ↔ e.id = id) := by
    intro i e he
    rw [good.find?_index, ids, List.getElem?_map, he, Option.map_some, Option.some.injEq]
  refine List.ext_getElem? fun i => ?_
  unfold rewritten
  rw [List.getElem?_map]
  cases hfound : w.index.find? id with
  | none =>
    cases he : w.entities[i]? with
    | none => rfl
    | some e =>
      have hne : e.id ≠ id := fun hid =>
        Option.some_ne_none i (((hindex i e he).2 hid).symm.trans hfound)
      rw [Option.map_some, if_neg hne]
  | some j =>
    simp only [List.getElem?_modify]
    cases he : w.entities[i]? with
    | none => rfl
    | some e =>
      have hid : e.id = id ↔ j = i := by
        rw [← hindex i e he, hfound, Option.some.injEq]
      simp only [Option.map_eq_map, Option.map_some, hid]

namespace Commit.Step

/-- What a step makes of an entity. -/
def turn (w : World) : Step → Entity → Entity
  | edit e, x =>
    if e.entity = x.id ∧ refusedTag? w.tagCap x e = none then touched w.tick e x else x
  | link r, x =>
    if w.refusal? r = none ∧ r.catalyzedBy = some x.id then withEvent w.tick r x else x
  | _, x => x

/-- What steps make of an entity, one after the other. -/
def turnAll (w : World) (l : List Step) (x : Entity) : Entity :=
  l.foldl (fun x s => s.turn w x) x

theorem turnAll_append (w : World) (l l' : List Step) (x : Entity) :
    turnAll w (l ++ l') x = turnAll w l' (turnAll w l x) := List.foldl_append

/-- What is settled before a step is settled after it in the same way. -/
theorem turn_after (w : World) (s t : Step) : t.turn (after w s) = t.turn w := by
  obtain ⟨_, _, _, hframe⟩ := exists_after_eq w s
  have htick : (after w s).tick = w.tick := by rw [hframe]
  have hcap : (after w s).tagCap = w.tagCap := by rw [hframe]
  funext x
  cases t with
  | edit e => simp only [turn, htick, hcap]
  | link r => simp only [turn, htick, refusal?_after]
  | archive key => rfl
  | strength change => rfl
  | pressure change => rfl

section Entities

variable {w : World}

theorem entities_after (good : w.WellFormed) (s : Step) :
    (after w s).entities = w.entities.map (s.turn w) := by
  have hsame : (∀ x ∈ w.entities, s.turn w x = x) → w.entities = w.entities.map (s.turn w) :=
    fun h => ((List.map_congr_left h).trans (List.map_id' _)).symm
  cases s with
  | edit e =>
    have hfound : ∀ x ∈ w.entities, e.entity = x.id → w.entity? e.entity = some x :=
      fun x hx hid => good.entity?_eq_some_iff.2 ⟨hx, hid.symm⟩
    simp only [after, run_edit]
    cases hy : w.entity? e.entity with
    | none =>
      refine hsame fun x hx => if_neg fun h => ?_
      exact Option.some_ne_none x ((hfound x hx h.1).symm.trans hy)
    | some y =>
      have hself : ∀ x ∈ w.entities, e.entity = x.id → x = y :=
        fun x hx hid => Option.some.inj ((hfound x hx hid).symm.trans hy)
      cases hfits : refusedTag? w.tagCap y e with
      | some tag =>
        simp only [hfits]
        refine hsame fun x hx => if_neg fun h => ?_
        rw [hself x hx h.1, hfits] at h
        exact Option.some_ne_none tag h.2
      | none =>
        simp only [hfits]
        rw [good.rewritten_eq_map]
        refine List.map_congr_left fun x hx => ?_
        by_cases hid : e.entity = x.id
        · rw [if_pos hid.symm]
          exact (if_pos ⟨hid, hself x hx hid ▸ hfits⟩).symm
        · rw [if_neg (Ne.symm hid)]
          exact (if_neg fun h => hid h.1).symm
  | link r =>
    cases href : w.refusal? r with
    | some why =>
      rw [after_link_refused href]
      refine hsame fun x _ => if_neg fun h => ?_
      exact Option.some_ne_none why (href.symm.trans h.1)
    | none =>
      rw [after_link_taken href]
      unfold credited
      cases hby : r.catalyzedBy with
      | none =>
        refine hsame fun x _ => if_neg fun h => ?_
        exact Option.some_ne_none x.id (h.2.symm.trans hby)
      | some catalyst =>
        simp only [good.rewritten_eq_map]
        refine List.map_congr_left fun x _ => ?_
        simp only [turn, href, hby, Option.some.injEq, true_and, eq_comm]
  | archive key => exact hsame fun _ _ => rfl
  | strength change => exact hsame fun _ _ => rfl
  | pressure change => exact hsame fun _ _ => rfl

theorem entities_foldl_after : ∀ (l : List Step) {w : World}, w.WellFormed →
    (l.foldl after w).entities = w.entities.map (turnAll w l)
  | [], w, _ => (List.map_id _).symm
  | s :: l, w, good => by
    rw [List.foldl_cons, entities_foldl_after l (good.after s), entities_after good, List.map_map]
    refine List.map_congr_left fun x _ => ?_
    simp only [turnAll, Function.comp_apply, List.foldl_cons, turn_after]

end Entities

end Commit.Step

namespace World.WellFormed

variable {w : World}

theorem entities_commit (good : w.WellFormed) (c : ChangeSet) :
    (w.commit c).1.entities = w.entities.map (Step.turnAll w c.steps) := by
  rw [commit_fst, Step.entities_foldl_after c.steps good]

theorem entity?_foldl_after (good : w.WellFormed) (l : List Step) (id : EntityId) :
    (l.foldl Step.after w).entity? id = (w.entity? id).map (Step.turnAll w l) := by
  obtain ⟨_, _, _, hframe⟩ := Step.exists_foldl_after_eq l w
  have hindex : (l.foldl Step.after w).index = w.index := by rw [hframe]
  unfold entity?
  rw [hindex, Step.entities_foldl_after l good]
  cases w.index.find? id with
  | none => rfl
  | some i => exact List.getElem?_map ..

end World.WellFormed

/-! ## What an entity is and stays -/

/-- What an entity is, whatever may befall it. -/
structure Entity.Persists (x x' : Entity) : Prop where
  id : x'.id = x.id
  kind : x'.kind = x.kind
  subtype : x'.subtype = x.subtype
  name : x'.name = x.name
  culture : x'.culture = x.culture
  coordinates : x'.coordinates = x.coordinates
  createdAt : x'.createdAt = x.createdAt

/-- Whether what edits are about is as it was. -/
structure Entity.Unedited (x x' : Entity) : Prop where
  tags : x'.tags = x.tags
  status : x'.status = x.status
  prominence : x'.prominence = x.prominence
  updatedAt : x'.updatedAt = x.updatedAt

namespace Entity

variable {x x' x'' : Entity}

theorem Persists.refl (x : Entity) : x.Persists x := ⟨rfl, rfl, rfl, rfl, rfl, rfl, rfl⟩

theorem Persists.trans (h : x.Persists x') (h' : x'.Persists x'') : x.Persists x'' where
  id := h'.id.trans h.id
  kind := h'.kind.trans h.kind
  subtype := h'.subtype.trans h.subtype
  name := h'.name.trans h.name
  culture := h'.culture.trans h.culture
  coordinates := h'.coordinates.trans h.coordinates
  createdAt := h'.createdAt.trans h.createdAt

theorem Unedited.refl (x : Entity) : x.Unedited x := ⟨rfl, rfl, rfl, rfl⟩

theorem Unedited.trans (h : x.Unedited x') (h' : x'.Unedited x'') : x.Unedited x'' where
  tags := h'.tags.trans h.tags
  status := h'.status.trans h.status
  prominence := h'.prominence.trans h.prominence
  updatedAt := h'.updatedAt.trans h.updatedAt

end Entity

namespace Commit.Step

variable {w : World}

/-- The event that a step is for the entity under an id. -/
def event? (w : World) (id : EntityId) : Step → Option CatalyzedEvent
  | link r =>
    if w.refusal? r = none ∧ r.catalyzedBy = some id then some (eventOf w.tick r) else none
  | _ => none

section Turn

variable (s : Step) (x : Entity)

theorem persists_turn : x.Persists (s.turn w x) := by
  cases s with
  | edit e =>
    simp only [turn]
    split
    · cases e <;> exact ⟨rfl, rfl, rfl, rfl, rfl, rfl, rfl⟩
    · exact .refl x
  | link r =>
    simp only [turn]
    split
    · exact ⟨rfl, rfl, rfl, rfl, rfl, rfl, rfl⟩
    · exact .refl x
  | archive key => exact .refl x
  | strength change => exact .refl x
  | pressure change => exact .refl x

/-- Only edits edit. -/
theorem unedited_turn (h : s.phase ≠ 0) : x.Unedited (s.turn w x) := by
  cases s with
  | edit e => exact absurd rfl h
  | link r =>
    simp only [turn]
    split
    · exact ⟨rfl, rfl, rfl, rfl⟩
    · exact .refl x
  | archive key => exact .refl x
  | strength change => exact .refl x
  | pressure change => exact .refl x

/-- No step sets the clock of an entity back. -/
theorem updatedAt_turn (h : x.updatedAt = w.tick) : (s.turn w x).updatedAt = w.tick := by
  cases s with
  | edit e =>
    simp only [turn]
    split
    · rfl
    · exact h
  | _ => exact (unedited_turn _ x (by simp [phase])).updatedAt.trans h

theorem catalyzedEvents_turn :
    (s.turn w x).catalyzedEvents = x.catalyzedEvents ++ (s.event? w x.id).toList := by
  cases s with
  | edit e =>
    simp only [turn, event?, Option.toList_none, List.append_nil]
    split
    · cases e <;> rfl
    · rfl
  | link r =>
    simp only [turn, event?]
    split
    · rfl
    · exact (List.append_nil _).symm
  | archive key => exact (List.append_nil _).symm
  | strength change => exact (List.append_nil _).symm
  | pressure change => exact (List.append_nil _).symm

end Turn

theorem persists_turnAll : ∀ (l : List Step) (x : Entity), x.Persists (turnAll w l x)
  | [], x => .refl x
  | s :: l, x => (persists_turn s x).trans (persists_turnAll l (s.turn w x))

theorem unedited_turnAll : ∀ (l : List Step) (x : Entity), (∀ s ∈ l, s.phase ≠ 0) →
    x.Unedited (turnAll w l x)
  | [], x, _ => .refl x
  | s :: l, x, h => by
    rw [List.forall_mem_cons] at h
    exact (unedited_turn s x h.1).trans (unedited_turnAll l (s.turn w x) h.2)

theorem updatedAt_turnAll : ∀ (l : List Step) {x : Entity}, x.updatedAt = w.tick →
    (turnAll w l x).updatedAt = w.tick
  | [], _, h => h
  | s :: l, x, h => updatedAt_turnAll l (updatedAt_turn s x h)

/-- The events of an entity are those that the steps are for it, in the order of the steps. -/
theorem catalyzedEvents_turnAll : ∀ (l : List Step) (x : Entity),
    (turnAll w l x).catalyzedEvents = x.catalyzedEvents ++ l.filterMap (event? w x.id)
  | [], x => (List.append_nil _).symm
  | s :: l, x => by
    have ih := catalyzedEvents_turnAll l (s.turn w x)
    rw [(persists_turn s x).id, catalyzedEvents_turn, List.append_assoc] at ih
    refine ih.trans ?_
    rw [List.filterMap_cons]
    cases s.event? w x.id <;> rfl

/-- Edits that are all refused leave an entity as it is. -/
theorem turnAll_edits_of_refused : ∀ (l : List EntityEdit) {x : Entity},
    (∀ earlier e later, l = earlier ++ e :: later → e.entity = x.id →
      refusedTag? w.tagCap (turnAll w (earlier.map edit) x) e ≠ none) →
    turnAll w (l.map edit) x = x
  | [], _, _ => rfl
  | e :: l, x, h => by
    have hfirst : turn w (edit e) x = x := if_neg fun hmade => h [] e l rfl hmade.1 hmade.2
    have hrest : turnAll w (l.map edit) (turn w (edit e) x) = turn w (edit e) x := by
      refine turnAll_edits_of_refused l fun earlier e' later hl hid => ?_
      rw [hfirst] at hid
      exact h (e :: earlier) e' later (congrArg (e :: ·) hl) hid
    exact hrest.trans hfirst

end Commit.Step

/-! ## Edits that take effect -/

/-- Whether an edit takes effect when its turn comes: it is not skipped, and its tag is not
dropped. -/
def EntityEdit.TakesEffect (e : EntityEdit) (now : Commit) : Prop :=
  (editEntity now e).2.skipped = now.2.skipped
    ∧ (editEntity now e).2.droppedTags = now.2.droppedTags

instance (e : EntityEdit) (now : Commit) : Decidable (e.TakesEffect now) :=
  inferInstanceAs (Decidable (_ ∧ _))

theorem EntityEdit.takesEffect_iff {e : EntityEdit} {now : Commit} :
    e.TakesEffect now ↔
      ∃ x ∈ now.1.entity? e.entity, refusedTag? now.1.tagCap x e = none := by
  obtain ⟨w, report⟩ := now
  simp only [TakesEffect, editEntity, Option.mem_def]
  cases w.entity? e.entity with
  | none => simp
  | some x => cases hfits : refusedTag? w.tagCap x e <;> simp [hfits]

namespace ChangeSet

/-- Whether some edit of the entity under an id takes effect in a commit. -/
def Edits (c : ChangeSet) (w : World) (id : EntityId) : Prop :=
  ∃ i : Fin c.entityEdits.length, c.entityEdits[i].entity = id
    ∧ c.entityEdits[i].TakesEffect ((c.entityEdits.take i).foldl editEntity (w, {}))

instance (c : ChangeSet) (w : World) (id : EntityId) : Decidable (c.Edits w id) :=
  inferInstanceAs (Decidable (∃ _ : Fin _, _ ∧ _))

/-- What a commit makes of an entity. -/
structure Treats (c : ChangeSet) (w : World) (x x' : Entity) : Prop where
  persists : x.Persists x'
  unedited : ¬ c.Edits w x.id → x.Unedited x'
  edited : c.Edits w x.id → x'.updatedAt = w.tick
  events : x'.catalyzedEvents = x.catalyzedEvents
    ++ ((c.newRelationships.filter w.hasEnds).filter (·.catalyzedBy = some x.id)).map fun r =>
      { tick := w.tick
        description := s!"{r.kind} between {r.src} and {r.dst}"
        relationshipKind := some r.kind }

variable {c : ChangeSet} {w : World} {x : Entity}

theorem edits_iff_exists_append {id : EntityId} :
    c.Edits w id ↔ ∃ earlier e later, c.entityEdits = earlier ++ e :: later ∧ e.entity = id
      ∧ e.TakesEffect (earlier.foldl editEntity (w, {})) := by
  constructor
  · rintro ⟨i, hid, heffect⟩
    refine ⟨c.entityEdits.take i, c.entityEdits[i], c.entityEdits.drop (i + 1), ?_, hid, heffect⟩
    rw [Fin.getElem_fin, List.getElem_cons_drop, List.take_append_drop]
  · rintro ⟨earlier, e, later, hl, hid, heffect⟩
    have hi : earlier.length < c.entityEdits.length := by
      rw [hl, List.length_append, List.length_cons]
      omega
    have hget : c.entityEdits[earlier.length] = e := by simp [hl]
    have htake : c.entityEdits.take earlier.length = earlier := by simp [hl]
    refine ⟨⟨earlier.length, hi⟩, ?_⟩
    rw [Fin.getElem_fin, hget, htake]
    exact ⟨hid, heffect⟩

theorem edits_iff (good : w.WellFormed) (hx : x ∈ w.entities) :
    c.Edits w x.id ↔ ∃ earlier e later, c.entityEdits = earlier ++ e :: later ∧ e.entity = x.id
      ∧ refusedTag? w.tagCap (Step.turnAll w (earlier.map .edit) x) e = none := by
  have hstart := good.entity?_eq_some_iff.2 ⟨hx, rfl⟩
  rw [edits_iff_exists_append]
  refine exists_congr fun earlier => exists_congr fun e => exists_congr fun later =>
    and_congr_right fun _ => and_congr_right fun hid => ?_
  have hnow : (earlier.foldl editEntity (w, {})).1 = (earlier.map .edit).foldl Step.after w := by
    rw [← Step.foldl_run_fst _ (w, {}), List.foldl_map]
    rfl
  obtain ⟨_, _, _, hframe⟩ := Step.exists_foldl_after_eq (earlier.map .edit) w
  have hcap : ((earlier.map .edit).foldl Step.after w).tagCap = w.tagCap := by rw [hframe]
  rw [EntityEdit.takesEffect_iff, hnow, hcap, hid, good.entity?_foldl_after, hstart]
  simp only [Option.map_some, Option.mem_def, Option.some.injEq, exists_eq_left']

theorem filterMap_event? (good : w.WellFormed) (id : EntityId) :
    c.steps.filterMap (Step.event? w id) =
      ((c.newRelationships.filter w.hasEnds).filter (·.catalyzedBy = some id)).map
        (eventOf w.tick) := by
  rw [← List.filterMap_eq_map, List.filter_filter, List.filterMap_filter, good.hasEnds_eq]
  have hnone : ∀ {β : Type} (f : β → Step) (l : List β), (∀ b, (f b).event? w id = none) →
      (l.map f).filterMap (Step.event? w id) = [] := by
    intro β f l h
    simp [List.filterMap_map, h]
  simp only [steps, List.filterMap_append]
  rw [hnone .edit _ fun _ => rfl, hnone .archive _ fun _ => rfl, hnone .strength _ fun _ => rfl,
    hnone .pressure _ fun _ => rfl, List.filterMap_map]
  simp only [List.nil_append, List.append_nil]
  refine List.filterMap_congr fun r _ => ?_
  simp [Step.event?, and_comm]

/-- The steps after the edits of entities. -/
def further (c : ChangeSet) : List Step := c.newRelationships.map .link ++ c.settling

theorem steps_eq_edits (c : ChangeSet) : c.steps = c.entityEdits.map .edit ++ c.further := by
  rw [steps_eq_append, opening, further, List.append_assoc]

theorem phase_of_mem_further {s : Step} (h : s ∈ c.further) : s.phase ≠ 0 := by
  revert s
  simp [further, settling, Step.phase, or_imp, forall_and]

theorem treats_turnAll (good : w.WellFormed) (hx : x ∈ w.entities) :
    c.Treats w x (Step.turnAll w c.steps x) where
  persists := Step.persists_turnAll c.steps x
  unedited hnone := by
    rw [edits_iff good hx] at hnone
    have hedits : Step.turnAll w (c.entityEdits.map .edit) x = x :=
      Step.turnAll_edits_of_refused c.entityEdits fun earlier e later hl hid hfits =>
        hnone ⟨earlier, e, later, hl, hid, hfits⟩
    rw [c.steps_eq_edits, Step.turnAll_append, hedits]
    exact Step.unedited_turnAll c.further x fun _ => phase_of_mem_further
  edited hsome := by
    obtain ⟨earlier, e, later, hl, hid, hfits⟩ := (edits_iff good hx).1 hsome
    have hsteps : c.steps = earlier.map .edit ++ .edit e :: (later.map .edit ++ c.further) := by
      rw [c.steps_eq_edits, hl, List.map_append, List.map_cons, List.append_assoc,
        List.cons_append]
    -- Once the edit is made the entity carries the tick, and nothing after it takes that back.
    have hself : (Step.turnAll w (earlier.map .edit) x).id = x.id :=
      (Step.persists_turnAll (earlier.map .edit) x).id
    have hmade : ((Step.edit e).turn w (Step.turnAll w (earlier.map .edit) x)).updatedAt =
        w.tick := by
      rw [Step.turn, if_pos ⟨hid.trans hself.symm, hfits⟩]
      rfl
    have hlast := Step.updatedAt_turnAll (later.map .edit ++ c.further) hmade
    rw [hsteps, Step.turnAll_append]
    exact hlast
  events := by
    rw [Step.catalyzedEvents_turnAll, filterMap_event? good]
    rfl

end ChangeSet

/-! ## Pressures -/

namespace Commit.Step

variable {p : String}

theorem pressures_after (w : World) {s : Step}
    (h : ∀ change, s = pressure change → change.pressure ≠ p) :
    (after w s).pressures.find? p = w.pressures.find? p := by
  cases s with
  | pressure change =>
    have hne : change.pressure ≠ p := h change rfl
    rw [after_pressure, World.adjustPressure, World.setPressure, Table.find?_insert, if_neg hne]
  | _ => rw [after_pressures w (by simp [phase])]

theorem pressures_foldl_after : ∀ (l : List Step) (w : World),
    (∀ change, pressure change ∈ l → change.pressure ≠ p) →
      (l.foldl after w).pressures.find? p = w.pressures.find? p
  | [], _, _ => rfl
  | s :: l, w, h => by
    have hfirst := pressures_after w (s := s) fun change hs =>
      h change (hs ▸ List.mem_cons_self)
    have hrest := pressures_foldl_after l (after w s) fun change hmem =>
      h change (List.mem_cons_of_mem s hmem)
    exact hrest.trans hfirst

end Commit.Step

/-! ## Commits -/

/-- Whether `r'` is what became of the new relationship `r`: between the same ends, of the same kind
and brought about by the same entity. -/
structure Relationship.IsNew (r r' : Relationship) : Prop where
  kind : r'.kind = r.kind
  src : r'.src = r.src
  dst : r'.dst = r.dst
  catalyzedBy : r'.catalyzedBy = r.catalyzedBy

namespace World

variable {w : World}

theorem pressures_commit {c : ChangeSet} {p : String}
    (h : ∀ change ∈ c.pressureChanges, change.pressure ≠ p) :
    (w.commit c).1.pressures.find? p = w.pressures.find? p := by
  rw [commit_fst]
  refine Step.pressures_foldl_after c.steps w fun change hmem => h change ?_
  simpa [ChangeSet.steps] using hmem

/-- A commit leaves the clock, the era, the rate limits and the tag cap alone and the entities in
their places. Each entity is as it was but for what edits of it that took effect have changed, and
for an event with each relationship that was added and that it brought about. -/
theorem Built.commit_entitywise (built : w.Built) (c : ChangeSet) :
    (w.commit c).1.tick = w.tick ∧ (w.commit c).1.era = w.era
      ∧ (w.commit c).1.rateLimits = w.rateLimits ∧ (w.commit c).1.tagCap = w.tagCap
      ∧ List.Forall₂ (c.Treats w) w.entities (w.commit c).1.entities
      ∧ List.Forall₂ Relationship.IsNew (c.newRelationships.filter w.hasEnds)
        ((w.commit c).1.relationships.drop w.relationships.length)
      ∧ ∀ p, (∀ change ∈ c.pressureChanges, change.pressure ≠ p) →
        (w.commit c).1.pressures.find? p = w.pressures.find? p := by
  have good := built.wellFormed
  obtain ⟨_, _, _, hframe⟩ := Step.exists_foldl_after_eq c.steps w
  rw [← commit_fst] at hframe
  refine ⟨by rw [hframe], by rw [hframe], by rw [hframe], by rw [hframe], ?_, ?_,
    fun p h => pressures_commit h⟩
  · rw [good.entities_commit, List.forall₂_map_right_iff, List.forall₂_same]
    exact fun x hx => c.treats_turnAll good hx
  · rw [good.relationships_commit, joined, List.map_append, List.drop_left' (List.length_map _),
      List.map_map, List.forall₂_map_right_iff, List.forall₂_same]
    intro r _
    have hsettles := (c.settles_rewriteAll (stamped w.tick r)).others
    rw [Function.comp_apply, hsettles]
    exact ⟨rfl, rfl, rfl, rfl⟩

end World

namespace Sample

/-- The village on the seventh day, with no room for tags. -/
def hall : World := (village.perform (.setTagCap 0)).perform (.setTick 7)

/-- Ann rises, Bob is to be marked, and Cat makes him known to Ann and to somebody unknown. -/
def feast : ChangeSet where
  entityEdits := [.setTag bob.id "host" (.flag true), .shiftProminence ann.id 1]
  newRelationships := [{ knows ann bob with dst := ⟨9⟩, catalyzedBy := some cat.id },
    { knows bob ann with catalyzedBy := some cat.id }]
  pressureChanges := [⟨"unrest", 0.25⟩]

/-- The mark of Bob is dropped, and Cat has one event of the two, which is dated and says what came
about. -/
theorem hall_after_feast :
    hall.Built
      ∧ (∃ ann' bob' cat', (hall.commit feast).1.entities = [ann', bob', cat']
        ∧ ann'.updatedAt = 7 ∧ bob.Unedited bob'
        ∧ cat'.catalyzedEvents.map (fun event => (event.tick, event.relationshipKind)) =
          [(7, some "knows")])
      ∧ (hall.commit feast).1.pressures.find? "hope" = none := by
  have built : hall.Built :=
    (built_village.perform (.setTagCap 0) trivial).perform (.setTick 7) trivial
  obtain ⟨-, -, -, -, htreats, -, hpressures⟩ := World.Built.commit_entitywise built feast
  have hentities : hall.entities = [ann, bob, cat] := rfl
  rw [hentities] at htreats
  generalize (hall.commit feast).1.entities = entities at htreats ⊢
  rcases htreats with _ | ⟨hann, _ | ⟨hbob, _ | ⟨hcat, _ | _⟩⟩⟩
  have hevents := congrArg (List.map fun event => (event.tick, event.relationshipKind)) hcat.events
  exact ⟨built, ⟨_, _, _, rfl, hann.edited (by decide), hbob.unedited (by decide), hevents⟩,
    hpressures "hope" (by decide)⟩

end Sample

end StoryWorld

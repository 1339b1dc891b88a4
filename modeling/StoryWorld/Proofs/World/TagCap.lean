import StoryWorld.Proofs.World.Entitywise

/-!
# The tag cap

A commit never gives an entity more tags than the cap, or than it had already, and it never takes
one away to make room. Whatever it does to the tags of an entity it does by edits of that entity,
each of which keeps what was there (`TagsHeld.edited`), and that adds up over a run of steps
(`TagsHeld.turnAll`). So it holds at every moment of every commit in a sequence, and setting a tag
that is there at the moment is never refused (`Built.tags_held`).
-/

namespace StoryWorld

open Commit

/-! ## One entity -/

/-- What the tags of an entity may come to by steps `done`: no more of them than the cap or than
there were, and every tag that was there and that no step removes. -/
structure TagsHeld (cap : UInt64) (id : EntityId) (done : List Step) (e e' : Entity) : Prop where
  size : e'.tags.size ≤ max cap.toNat e.tags.size
  kept : ∀ tag, e.hasTag tag = true → .edit (.removeTag id tag) ∉ done → e'.hasTag tag = true

namespace TagsHeld

variable {cap : UInt64} {id : EntityId} {done more : List Step} {e e' e'' : Entity}

theorem of_tags (h : e'.tags = e.tags) : TagsHeld cap id done e e' where
  size := by
    rw [h]
    exact Nat.le_max_right ..
  kept tag htag _ := by
    unfold Entity.hasTag
    rw [h]
    exact htag

theorem trans (h : TagsHeld cap id done e e') (h' : TagsHeld cap id more e' e'') :
    TagsHeld cap id (done ++ more) e e'' where
  size := Nat.le_trans h'.size (Nat.max_le.2 ⟨Nat.le_max_left .., h.size⟩)
  kept tag htag hnot := by
    rw [List.mem_append, not_or] at hnot
    exact h'.kept tag (h.kept tag htag hnot.1) hnot.2

theorem edited (tick : UInt64) {edit : EntityEdit} (h : refusedTag? cap e edit = none) :
    TagsHeld cap edit.entity [.edit edit] e (touched tick edit e) := by
  cases edit with
  | setTag id tag value =>
    refine ⟨?_, fun other hother _ => ?_⟩
    · -- A new tag is refused once there are as many as the cap, and any other one adds nothing.
      have hroom : e.hasTag tag = true ∨ e.tags.size < cap.toNat := by
        simpa [refusedTag?, tagRefused, Decidable.or_iff_not_imp_left] using h
      have hsize : (touched tick (.setTag id tag value) e).tags.size =
          if e.hasTag tag then e.tags.size else e.tags.size + 1 := Table.size_insert ..
      rw [hsize]
      rcases hroom with hthere | hroom
      · rw [if_pos hthere]
        exact Nat.le_max_right ..
      · split
        · exact Nat.le_max_right ..
        · exact Nat.le_trans hroom (Nat.le_max_left ..)
    · change (e.tags.insert tag value).contains other = true
      rw [Table.contains_insert, Bool.or_eq_true]
      exact .inr hother
  | removeTag id tag =>
    refine ⟨?_, fun other hother hnot => ?_⟩
    · exact Nat.le_trans (Table.size_erase_le ..) (Nat.le_max_right ..)
    · have hne : tag ≠ other := by
        rintro rfl
        exact hnot List.mem_cons_self
      change (e.tags.erase tag).contains other = true
      rw [Table.contains_erase, decide_eq_true hne, Bool.true_and]
      exact hother
  | setStatus id status => exact of_tags rfl
  | shiftProminence id steps => exact of_tags rfl

/-- Only edits of an entity that are made touch its tags. -/
theorem turn (w : World) (s : Step) (e : Entity) : TagsHeld w.tagCap e.id [s] e (s.turn w e) := by
  cases s with
  | edit edit =>
    simp only [Step.turn]
    split
    · rename_i hmade
      rw [← hmade.1]
      exact .edited w.tick hmade.2
    · exact of_tags rfl
  | link r => exact of_tags (Step.unedited_turn (.link r) e Nat.one_ne_zero).tags
  | archive key => exact of_tags rfl
  | strength change => exact of_tags rfl
  | pressure change => exact of_tags rfl

theorem turnAll (w : World) : ∀ (l : List Step) (e : Entity),
    TagsHeld w.tagCap e.id l e (Step.turnAll w l e)
  | [], _ => of_tags rfl
  | s :: l, e => by
    have hrest := turnAll w l (s.turn w e)
    rw [(Step.persists_turn s e).id] at hrest
    exact (turn w s e).trans hrest

end TagsHeld

theorem ChangeSet.edit_mem_steps {c : ChangeSet} {edit : EntityEdit} :
    .edit edit ∈ c.steps ↔ edit ∈ c.entityEdits := by
  simp [steps]

namespace World

variable {w : World} {id : EntityId} {e : Entity}

theorem WellFormed.tagsHeld_foldl (good : w.WellFormed) (he : w.entity? id = some e)
    (l : List Step) :
    ∃ e', (l.foldl Step.after w).entity? id = some e' ∧ TagsHeld w.tagCap id l e e' := by
  obtain ⟨-, rfl⟩ := good.entity?_eq_some_iff.1 he
  refine ⟨Step.turnAll w l e, ?_, .turnAll w l e⟩
  rw [good.entity?_foldl_after, he, Option.map_some]

/-! ## Commits one after the other -/

/-- The world after commits, one after the other. -/
def commitAll (w : World) (l : List ChangeSet) : World := l.foldl (fun w c => (w.commit c).1) w

theorem commitAll_eq_foldl : ∀ (l : List ChangeSet) (w : World),
    w.commitAll l = (l.flatMap ChangeSet.steps).foldl Step.after w
  | [], _ => rfl
  | c :: l, w => by
    rw [List.flatMap_cons, List.foldl_append, ← commit_fst, ← commitAll_eq_foldl l]
    rfl

/-- A moment of a commit: what it has come to and the steps that it still has to take. -/
inductive Moment (w : World) (c : ChangeSet) : Commit → List Step → Prop
  | start : Moment w c (w, {}) c.steps
  | next {now : Commit} {s : Step} {todo : List Step} :
    Moment w c now (s :: todo) → Moment w c (Step.run now s) todo

namespace Moment

variable {c : ChangeSet} {now : Commit} {todo : List Step}

theorem foldl_run : ∀ {todo : List Step} {now : Commit}, Moment w c now todo →
    Moment w c (todo.foldl Step.run now) []
  | [], _, h => h
  | _ :: _, _, h => by
    have hrest := foldl_run h.next
    exact hrest

/-- The last moment of a commit is what it comes to. -/
theorem commit (w : World) (c : ChangeSet) : Moment w c (w.commit c) [] := by
  rw [commit_eq_foldl]
  exact Moment.start.foldl_run

theorem exists_done (h : Moment w c now todo) :
    ∃ done, c.steps = done ++ todo ∧ now.1 = done.foldl Step.after w := by
  induction h with
  | start => exact ⟨[], rfl, rfl⟩
  | @next now s todo _ ih =>
    obtain ⟨done, hsteps, hnow⟩ := ih
    refine ⟨done ++ [s], by rw [hsteps, List.append_cons], ?_⟩
    obtain ⟨w', report⟩ := now
    rw [Step.run_eq, List.foldl_append, ← hnow]
    rfl

end Moment

/-- An edit is made unless it sets a tag that is refused. -/
theorem editEntity_made {now : Commit} {edit : EntityEdit}
    (he : now.1.entity? edit.entity = some e) (h : refusedTag? now.1.tagCap e edit = none) :
    (editEntity now edit).1.entity? edit.entity = some (touched now.1.tick edit e)
      ∧ (editEntity now edit).2 =
        { now.2 with entitiesChanged := now.2.entitiesChanged + 1 } := by
  obtain ⟨w, report⟩ := now
  have hself := entity?_rewritten_self w edit.entity (touched w.tick edit)
  rw [he, Option.map_some] at hself
  simp only [editEntity, he, h, modifyEntity_eq, and_true]
  exact hself

/-- Over any sequence of commits an entity keeps every tag that no edit removes. At every moment of
a commit it has no more tags than the cap or than it had at the start, and an edit that sets a tag
it has at that moment is made. -/
theorem Built.tags_held (built : w.Built) (he : e ∈ w.entities) (l : List ChangeSet) :
    (∃ e', (w.commitAll l).entity? e.id = some e'
        ∧ e'.tags.size ≤ max w.tagCap.toNat e.tags.size
        ∧ ∀ tag, e.hasTag tag = true → (∀ c ∈ l, .removeTag e.id tag ∉ c.entityEdits) →
          e'.hasTag tag = true)
      ∧ (∀ c now todo, Moment (w.commitAll l) c now todo →
        ∃ e', now.1.entity? e.id = some e' ∧ e'.tags.size ≤ max w.tagCap.toNat e.tags.size)
      ∧ ∀ c now tag value todo e',
        Moment (w.commitAll l) c now (.edit (.setTag e.id tag value) :: todo) →
          now.1.entity? e.id = some e' → e'.hasTag tag = true →
            (editEntity now (.setTag e.id tag value)).1.entity? e.id =
                some { e' with tags := e'.tags.insert tag value, updatedAt := now.1.tick }
              ∧ (editEntity now (.setTag e.id tag value)).2 =
                { now.2 with entitiesChanged := now.2.entitiesChanged + 1 } := by
  have good := built.wellFormed
  have hstart := good.entity?_eq_some_iff.2 ⟨he, rfl⟩
  refine ⟨?_, fun c now todo moment => ?_, fun c now tag value todo e' _ he' htag => ?_⟩
  · obtain ⟨e', he', hheld⟩ := good.tagsHeld_foldl hstart (l.flatMap ChangeSet.steps)
    rw [← commitAll_eq_foldl] at he'
    refine ⟨e', he', hheld.size, fun tag htag hnot => hheld.kept tag htag fun hmem => ?_⟩
    obtain ⟨c, hc, hedit⟩ := List.mem_flatMap.1 hmem
    exact hnot c hc (ChangeSet.edit_mem_steps.1 hedit)
  · obtain ⟨done, -, hnow⟩ := moment.exists_done
    rw [commitAll_eq_foldl, ← List.foldl_append] at hnow
    obtain ⟨e', he', hheld⟩ := good.tagsHeld_foldl hstart _
    rw [← hnow] at he'
    exact ⟨e', he', hheld.size⟩
  · have hfits : refusedTag? now.1.tagCap e' (.setTag e.id tag value) = none := by
      simp [refusedTag?, tagRefused, htag]
    exact editEntity_made he' hfits

end World

namespace Sample

/-- A world where Ann is brave and nobody may have another tag. -/
def modest : World :=
  (people.perform (.commit { entityEdits := [.setTag ann.id "brave" (.flag true)] })).perform
    (.setTagCap 1)

def braveAnn : Entity := { ann with tags := Table.insert {} "brave" (.flag true) }

/-- Ann is to be old as well, and brave in another way. -/
def praise : ChangeSet where
  entityEdits := [.setTag ann.id "old" (.flag true), .setTag ann.id "brave" (.text "very")]

/-- What the praise has come to before its last edit. -/
def praised : Commit := Step.run (modest, {}) (.edit (.setTag ann.id "old" (.flag true)))

theorem moment_praised :
    World.Moment modest praise praised [.edit (.setTag ann.id "brave" (.text "very"))] :=
  World.Moment.start.next

/-- There is no room for the new tag, and the one that Ann has is overwritten all the same. -/
theorem modest_tags_held :
    modest.Built ∧ braveAnn ∈ modest.entities
      ∧ (∃ e', (modest.commitAll [praise]).entity? ann.id = some e'
        ∧ e'.tags.size ≤ 1 ∧ e'.hasTag "brave" = true)
      ∧ World.Moment modest praise praised [.edit (.setTag ann.id "brave" (.text "very"))]
      ∧ praised.2.droppedTags = [(ann.id, "old")]
      ∧ (editEntity praised (.setTag ann.id "brave" (.text "very"))).1.entity? ann.id =
        some { ann with tags := Table.insert {} "brave" (.text "very") } := by
  have built : modest.Built :=
    (built_people.perform (.commit _) trivial).perform (.setTagCap 1) trivial
  have hann : braveAnn ∈ modest.entities := List.mem_cons_self
  obtain ⟨⟨e', he', hsize, hkept⟩, -, -⟩ := World.Built.tags_held built hann [praise]
  obtain ⟨-, -, hmade⟩ := World.Built.tags_held built hann []
  have hset := hmade praise praised "brave" (.text "very") [] braveAnn moment_praised rfl rfl
  exact ⟨built, hann, ⟨e', he', hsize, hkept "brave" rfl (by decide)⟩, moment_praised, rfl, hset.1⟩

end Sample

end StoryWorld

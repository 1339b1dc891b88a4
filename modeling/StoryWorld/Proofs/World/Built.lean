import Mathlib.Data.List.Nodup
import StoryWorld.Proofs.World.Steps
import StoryWorld.Scope

/-!
# Worlds that were built

A world comes about by calls, one after the other, from an empty one. When no edit gives an entity
another id, the index of the world stays good at every step: it holds exactly the ids of the
entities, each with the place of the entity that has it, and both ends of every relationship are
among them (`Built.wellFormed`). So an id leads to the one entity that has it.
-/

namespace StoryWorld

open Commit

namespace World

/-- A call that may change a world. -/
inductive Operation where
  | addEntity (e : Entity)
  | addRelationship (r : Relationship)
  | commit (changes : ChangeSet)
  | editEntity (id : EntityId) (edit : Entity → Entity)
  | setPressure (id : String) (value : Float)
  | adjustPressure (id : String) (delta : Float)
  | setTick (tick : UInt64)
  | advanceTick (ticks : UInt64)
  | setEra (era : String)
  | beginEpoch
  | recordCreation
  | setTagCap (cap : UInt64)

/-- The world after a call. What cannot be added leaves it as it was. -/
def perform (w : World) : Operation → World
  | .addEntity e => match w.addEntity e with
    | .ok added => added
    | .error _ => w
  | .addRelationship r => match w.addRelationship r with
    | .ok added => added
    | .error _ => w
  | .commit changes => (w.commit changes).1
  | .editEntity id edit => w.modifyEntity id edit
  | .setPressure id value => w.setPressure id value
  | .adjustPressure id delta => w.adjustPressure id delta
  | .setTick tick => w.setTick tick
  | .advanceTick ticks => w.advanceTick ticks
  | .setEra era => w.setEra era
  | .beginEpoch => w.beginEpoch
  | .recordCreation => w.recordCreation
  | .setTagCap cap => { w with tagCap := cap }

/-- An edit may rewrite anything of an entity but its id. -/
def Operation.KeepsIds (w : World) : Operation → Prop
  | editEntity id edit => ∀ e, w.entity? id = some e → (edit e).id = e.id
  | _ => True

/-- A world that calls have built from an empty one, keeping the ids of its entities. -/
inductive Built : World → Prop
  | empty : Built {}
  | perform {w : World} (op : Operation) : Built w → op.KeepsIds w → Built (w.perform op)

/-! ## A good index -/

/-- The ids of the entities, in the order of the entities. -/
def ids (w : World) : List EntityId := w.entities.map (·.id)

structure WellFormed (w : World) : Prop where
  find?_index : ∀ id i, w.index.find? id = some i ↔ w.ids[i]? = some id
  ends : ∀ r ∈ w.relationships, w.contains r.src ∧ w.contains r.dst

namespace WellFormed

variable {w w' : World}

theorem entity?_eq_some_iff (h : w.WellFormed) {id : EntityId} {e : Entity} :
    w.entity? id = some e ↔ e ∈ w.entities ∧ e.id = id := by
  unfold World.entity?
  constructor
  · intro he
    obtain ⟨i, hi, he⟩ := Option.bind_eq_some_iff.1 he
    have hid := (h.find?_index id i).1 hi
    simp only [ids, List.getElem?_map, he, Option.map_some, Option.some.injEq] at hid
    exact ⟨List.mem_of_getElem? he, hid⟩
  · rintro ⟨he, rfl⟩
    obtain ⟨i, hi⟩ := List.mem_iff_getElem?.1 he
    have hfind : w.index.find? e.id = some i := by
      rw [h.find?_index, ids, List.getElem?_map, hi]
      rfl
    rw [hfind]
    exact hi

theorem contains_iff (h : w.WellFormed) {id : EntityId} :
    w.contains id = true ↔ ∃ e ∈ w.entities, e.id = id := by
  unfold World.contains Table.contains
  rw [Option.isSome_iff_exists]
  constructor
  · rintro ⟨i, hi⟩
    have hid := (h.find?_index id i).1 hi
    rw [ids, List.getElem?_map] at hid
    obtain ⟨e, he, hid⟩ := Option.map_eq_some_iff.1 hid
    exact ⟨e, List.mem_of_getElem? he, hid⟩
  · rintro ⟨e, he, rfl⟩
    obtain ⟨i, hi⟩ := List.mem_iff_getElem?.1 he
    refine ⟨i, (h.find?_index _ i).2 ?_⟩
    rw [ids, List.getElem?_map, hi]
    rfl

/-- No two entities share an id. -/
theorem eq_of_id_eq (h : w.WellFormed) {e e' : Entity} (he : e ∈ w.entities)
    (he' : e' ∈ w.entities) (hid : e.id = e'.id) : e = e' := by
  have h1 := h.entity?_eq_some_iff.2 ⟨he, rfl⟩
  have h2 := h.entity?_eq_some_iff.2 ⟨he', hid.symm⟩
  exact Option.some.inj (h1.symm.trans h2)

theorem ids_nodup (h : w.WellFormed) : w.ids.Nodup := by
  rw [List.nodup_iff_getElem?_ne_getElem?]
  intro i j hij hj heq
  have hi : w.ids[j]? = some w.ids[j] := List.getElem?_eq_getElem hj
  have h1 := (h.find?_index _ _).2 (heq.trans hi)
  have h2 := (h.find?_index _ _).2 hi
  rw [h1, Option.some.injEq] at h2
  omega

/-- Only the ids, their index and the ends of the relationships matter. -/
theorem of_ids (h : w.WellFormed) (hids : w'.ids = w.ids) (hindex : w'.index = w.index)
    (hends : ∀ r ∈ w'.relationships, w.contains r.src ∧ w.contains r.dst) : w'.WellFormed where
  find?_index id i := by rw [hids, hindex]; exact h.find?_index id i
  ends r hr := by
    unfold World.contains
    rw [hindex]
    exact hends r hr

end WellFormed

theorem ids_rewritten {w : World} {id : EntityId} {f : Entity → Entity}
    (hf : ∀ e, w.entity? id = some e → (f e).id = e.id) :
    (w.rewritten id f).map (·.id) = w.ids := by
  unfold rewritten ids
  unfold World.entity? at hf
  cases hi : w.index.find? id with
  | none => rfl
  | some i =>
    rw [hi, Option.bind_some] at hf
    refine List.ext_getElem? fun j => ?_
    rw [List.getElem?_map, List.getElem?_modify, List.getElem?_map]
    cases hj : w.entities[j]? with
    | none => rfl
    | some e =>
      by_cases hij : i = j
      · subst hij
        simp [hf e hj]
      · simp [hij]

theorem ids_credited {w : World} (r : Relationship) :
    (credited w r).map (·.id) = w.ids := by
  unfold credited
  split
  · rfl
  · exact ids_rewritten fun _ _ => rfl

/-! ## Every call keeps it good -/

namespace WellFormed

variable {w : World}

theorem empty : WellFormed {} where
  find?_index id i := by
    rw [Table.find?_empty]
    simp [ids]
  ends := by simp

theorem addEntity {w' : World} {e : Entity} (h : w.WellFormed) (he : w.addEntity e = .ok w') :
    w'.WellFormed := by
  unfold World.addEntity at he
  split at he
  · cases he
  rename_i hnew
  cases he
  have hlen : w.ids.length = w.entities.length := List.length_map ..
  have hfresh : ∀ i, w.index.find? e.id ≠ some i := by
    intro i hi
    simp [World.contains, Table.contains, hi] at hnew
  refine ⟨fun id i => ?_, fun r hr => ?_⟩
  · simp only [Table.find?_insert, World.ids, List.map_append, List.map_cons, List.map_nil]
    change _ ↔ (w.ids ++ [e.id])[i]? = some id
    rw [List.getElem?_append, hlen]
    by_cases hid : e.id = id
    · subst hid
      rw [if_pos rfl]
      have hnone : w.ids[i]? ≠ some e.id := fun hi => hfresh i ((h.find?_index _ i).2 hi)
      split
      · simp only [Option.some.injEq, hnone, iff_false]
        omega
      · rw [List.getElem?_singleton]
        split <;> simp only [Option.some.injEq, reduceCtorEq, iff_false, iff_true] <;> omega
    · rw [if_neg hid, h.find?_index]
      split
      · rfl
      · rw [List.getElem?_eq_none (by omega), List.getElem?_singleton]
        split <;> simp [hid]
  · have hmono : ∀ id, w.contains id = true →
        (w.index.insert e.id w.entities.length).contains id = true := by
      intro id hc
      unfold Table.contains
      rw [Table.find?_insert]
      split
      · rfl
      · exact hc
    exact ⟨hmono _ (h.ends r hr).1, hmono _ (h.ends r hr).2⟩

theorem addRelationship {w' : World} {r : Relationship} (h : w.WellFormed)
    (hr : w.addRelationship r = .ok w') : w'.WellFormed := by
  rw [World.addRelationship_eq] at hr
  cases href : w.refusal? r with
  | some e =>
    rw [href] at hr
    cases hr
  | none =>
    rw [href] at hr
    cases hr
    refine h.of_ids rfl rfl fun r' hr' => ?_
    rcases List.mem_append.1 hr' with hr' | hr'
    · exact h.ends r' hr'
    · rw [List.mem_singleton.1 hr']
      exact World.refusal?_eq_none_iff.1 href

theorem modifyEntity {id : EntityId} {f : Entity → Entity} (h : w.WellFormed)
    (hf : ∀ e, w.entity? id = some e → (f e).id = e.id) : (w.modifyEntity id f).WellFormed := by
  rw [World.modifyEntity_eq]
  exact h.of_ids (ids_rewritten hf) rfl h.ends

theorem after (h : w.WellFormed) (s : Step) : (Step.after w s).WellFormed := by
  cases s with
  | edit e =>
    rcases Step.after_edit w e with heq | heq <;> rw [heq]
    · exact h
    · refine h.of_ids (ids_rewritten fun x _ => ?_) rfl h.ends
      cases e <;> rfl
  | link r =>
    cases href : w.refusal? r with
    | some e =>
      rw [Step.after_link_refused href]
      exact h
    | none =>
      rw [Step.after_link_taken href]
      refine h.of_ids (ids_credited r) rfl fun r' hr' => ?_
      rcases List.mem_append.1 hr' with hr' | hr'
      · exact h.ends r' hr'
      · rw [List.mem_singleton.1 hr']
        exact World.refusal?_eq_none_iff.1 href
  | archive key =>
    rw [Step.after_archive]
    refine h.of_ids rfl rfl fun r' hr' => ?_
    obtain ⟨r, hr, rfl⟩ := List.mem_map.1 hr'
    split <;> exact h.ends r hr
  | strength change =>
    rw [Step.after_strength]
    refine h.of_ids rfl rfl fun r' hr' => ?_
    obtain ⟨r, hr, rfl⟩ := List.mem_map.1 hr'
    split <;> exact h.ends r hr
  | pressure change => exact h.of_ids rfl rfl h.ends

theorem foldl_after : ∀ (l : List Step) {w : World}, w.WellFormed →
    (l.foldl Step.after w).WellFormed
  | [], _, h => h
  | s :: l, _, h => foldl_after l (h.after s)

theorem perform (h : w.WellFormed) {op : Operation} (hop : op.KeepsIds w) :
    (w.perform op).WellFormed := by
  cases op with
  | addEntity e =>
    simp only [World.perform]
    split
    · exact h.addEntity ‹_›
    · exact h
  | addRelationship r =>
    simp only [World.perform]
    split
    · exact h.addRelationship ‹_›
    · exact h
  | commit changes =>
    simp only [World.perform]
    rw [World.commit_fst]
    exact foldl_after _ h
  | editEntity id edit => exact h.modifyEntity hop
  | _ => exact h.of_ids rfl rfl h.ends

end WellFormed

theorem Built.wellFormed {w : World} (h : w.Built) : w.WellFormed := by
  induction h with
  | empty => exact .empty
  | perform op _ hop ih => exact ih.perform hop

end World

/-! ## A sample

Three people who know each other, for statements about worlds to be tried on. Their edges have what
makes walks hard: a cycle, a loop, two edges side by side and one that is archived.
-/

namespace Sample

def person (n : Nat) (kind name : String) : Entity where
  id := ⟨BitVec.ofNat 128 n⟩
  kind
  subtype := "human"
  name

def ann : Entity := person 1 "npc" "Ann"
def bob : Entity := person 2 "npc" "Bob"
def cat : Entity := person 3 "hero" "Cat"

def knows (a b : Entity) : Relationship where
  kind := "knows"
  src := a.id
  dst := b.id

/-- Ann, Bob and Cat, and nobody who knows anybody. -/
def people : World :=
  (((({} : World).perform (.addEntity ann)).perform (.addEntity bob)).perform (.addEntity cat))

def village : World :=
  ((((((people.perform (.addRelationship (knows ann bob))).perform
    (.addRelationship (knows bob cat))).perform
    (.addRelationship (knows cat ann))).perform
    (.addRelationship (knows ann ann))).perform
    (.addRelationship (knows ann bob))).perform
    (.addRelationship { knows bob ann with status := .historical }))

/-- The village with Ann in the place of `$self`. -/
def annsView : Context where
  world := village
  self? := some ann
  binding? := fun _ => none
  tick := 0

theorem built_people : people.Built :=
  ((World.Built.empty.perform (.addEntity ann) trivial).perform (.addEntity bob) trivial).perform
    (.addEntity cat) trivial

theorem built_village : village.Built :=
  (((((built_people.perform (.addRelationship _) trivial).perform
    (.addRelationship _) trivial).perform (.addRelationship _) trivial).perform
    (.addRelationship _) trivial).perform (.addRelationship _) trivial).perform
    (.addRelationship _) trivial

end Sample

end StoryWorld

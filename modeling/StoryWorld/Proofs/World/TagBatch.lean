import StoryWorld.Proofs.World.TagCap

/-!
# Batches of tags

When a commit sets tags and edits nothing else, each entity takes in new tags in the order in which
they come first, for as long as it has room; whatever it has or takes in is overwritten by each
further write, and what it has no room for is dropped at every attempt. How full a table of tags is
and what it holds after some of the writes is known from the writes (`Tags.find?_writeAll`), so
which tags an entity ends up with, with which values, and which of its tags are dropped can be told
beforehand (`World.Built.tags_admitted`).
-/

namespace StoryWorld

open Commit

/-! ## A table that fills up -/

namespace Tags

variable (cap : ℕ) (tags : Tags) (tag : String)

/-- The tags of a batch that are new, each where it comes first. -/
def newIn (writes : List (String × TagValue)) : List String :=
  distinct ((writes.map (·.1)).filter (!tags.contains ·))

/-- The new tags of a batch that there is room for, first come first served. -/
def admitted (writes : List (String × TagValue)) : List String :=
  (newIn tags writes).take (cap - tags.size)

/-- Whether a tag is there after a batch. -/
def Held (writes : List (String × TagValue)) : Prop :=
  tags.contains tag = true ∨ tag ∈ admitted cap tags writes

instance (writes : List (String × TagValue)) : Decidable (Held cap tags tag writes) :=
  inferInstanceAs (Decidable (_ ∨ _))

def HasRoom : Prop := tags.contains tag = true ∨ tags.size < cap

instance : Decidable (HasRoom cap tags tag) := inferInstanceAs (Decidable (_ ∨ _))

def write (w : String × TagValue) : Tags :=
  if HasRoom cap tags w.1 then tags.insert w.1 w.2 else tags

def writeAll (writes : List (String × TagValue)) : Tags := writes.foldl (write cap) tags

/-- The tags for which there was no room, at every attempt. -/
def refused : List (String × TagValue) → Tags → List String
  | [], _ => []
  | w :: writes, tags =>
    (if HasRoom cap tags w.1 then [] else [w.1]) ++ refused writes (write cap tags w)

variable {cap tags tag}

theorem held_nil : Held cap tags tag [] ↔ tags.contains tag = true := by
  simp [Held, admitted, newIn, distinct, distinctBy]

theorem contains_insert_of_contains {k : String} (h : tags.contains k = true) (value : TagValue) :
    (tags.insert k value).contains tag = tags.contains tag := by
  rw [Table.contains_insert]
  by_cases hk : k = tag
  · rw [← hk, h, Bool.or_true]
  · rw [decide_eq_false hk, Bool.false_or]

section Cons

variable (w : String × TagValue) (writes : List (String × TagValue))

theorem newIn_cons_of_contains (h : tags.contains w.1 = true) :
    newIn tags (w :: writes) = newIn (tags.insert w.1 w.2) writes := by
  have hsame : ∀ tag, (tags.insert w.1 w.2).contains tag = tags.contains tag :=
    fun _ => contains_insert_of_contains h w.2
  simp only [newIn, List.map_cons, hsame]
  rw [List.filter_cons_of_neg (by simp [h])]

/-- A new tag comes first, and it is old for the rest of the batch. -/
theorem newIn_cons_of_new (h : tags.contains w.1 = false) :
    newIn tags (w :: writes) = w.1 :: newIn (tags.insert w.1 w.2) writes := by
  have hold : ∀ tag, (!(tags.insert w.1 w.2).contains tag) =
      (decide (tag ≠ w.1) && !tags.contains tag) := by
    intro tag
    rw [Table.contains_insert, Bool.not_or]
    simp [eq_comm]
  simp only [newIn, List.map_cons, hold, ← List.filter_filter]
  rw [List.filter_cons_of_pos (by rw [h]; rfl), distinct_cons]
  simp only [distinct_filter]

/-- The first write of a batch may be made before it is asked what there is room for. -/
theorem held_cons : Held cap tags tag (w :: writes) ↔ Held cap (write cap tags w) tag writes := by
  unfold Held admitted write
  cases hold : tags.contains w.1 with
  | true =>
    have hsize : (tags.insert w.1 w.2).size = tags.size := by rw [Table.size_insert, if_pos hold]
    rw [if_pos (.inl hold), newIn_cons_of_contains w writes hold, hsize,
      contains_insert_of_contains hold]
  | false =>
    by_cases hroom : tags.size < cap
    · have hsize : (tags.insert w.1 w.2).size = tags.size + 1 := by
        rw [Table.size_insert, if_neg (by rw [hold]; exact Bool.false_ne_true)]
      have hleft : cap - tags.size = cap - (tags.size + 1) + 1 := by omega
      rw [if_pos (.inr hroom), newIn_cons_of_new w writes hold, hsize, hleft, List.take_succ_cons,
        List.mem_cons, Table.contains_insert, Bool.or_eq_true, decide_eq_true_eq, ← or_assoc]
      exact or_congr_left (or_comm.trans (or_congr_left eq_comm))
    · have hnone : ¬ HasRoom cap tags w.1 := by simp [HasRoom, hold, hroom]
      have hleft : cap - tags.size = 0 := by omega
      rw [if_neg hnone, hleft, List.take_zero, List.take_zero]

theorem held_head : Held cap tags w.1 (w :: writes) ↔ HasRoom cap tags w.1 := by
  rw [held_cons]
  by_cases hroom : HasRoom cap tags w.1
  · have hthere : (tags.insert w.1 w.2).contains w.1 = true := by simp
    rw [write, if_pos hroom]
    exact iff_of_true (.inl hthere) hroom
  · have hleft : cap - tags.size = 0 := by
      have hfull := (not_or.1 hroom).2
      omega
    rw [write, if_neg hroom, Held, admitted, hleft, List.take_zero]
    exact iff_of_false (fun h => hroom (.inl (h.resolve_right List.not_mem_nil))) hroom

end Cons

/-- The tags that are held have the value that was written last, or the one that they had. -/
theorem find?_writeAll : ∀ (writes : List (String × TagValue)) (tags : Tags),
    (writeAll cap tags writes).find? tag =
      if Held cap tags tag writes then (writes.reverse.lookup tag).or (tags.find? tag) else none
  | [], tags => by
    simp only [writeAll, List.foldl_nil, held_nil, List.reverse_nil, List.lookup_nil,
      Option.none_or, Table.contains]
    cases tags.find? tag <;> rfl
  | w :: writes, tags => by
    have ih := find?_writeAll writes (write cap tags w)
    change (writeAll cap (write cap tags w) writes).find? tag = _
    simp only [ih, ← held_cons]
    split
    · rename_i hheld
      rw [List.reverse_cons, List.lookup_append, Option.or_assoc]
      congr 1
      by_cases htag : w.1 = tag
      · -- A tag that is held has had room for its first write.
        subst htag
        rw [write, if_pos ((held_head w writes).1 hheld), Table.find?_insert, if_pos rfl,
          List.lookup_cons_self, Option.some_or]
      · have hother : (tag == w.1) = false := beq_false_of_ne (Ne.symm htag)
        rw [List.lookup_cons, hother]
        simp only [List.lookup_nil, Option.none_or, write]
        split
        · rw [Table.find?_insert, if_neg htag]
        · rfl
    · rfl

theorem contains_writeAll : ∀ (writes : List (String × TagValue)) (tags : Tags),
    (writeAll cap tags writes).contains tag = true ↔ Held cap tags tag writes
  | [], _ => held_nil.symm
  | w :: writes, tags =>
    (contains_writeAll writes (write cap tags w)).trans (held_cons w writes).symm

theorem held_of_not_written {writes : List (String × TagValue)} (h : tag ∉ writes.map (·.1)) :
    Held cap tags tag writes ↔ tags.contains tag = true := by
  refine or_iff_left fun hadmitted => h ?_
  have hnew : tag ∈ newIn tags writes := List.mem_of_mem_take hadmitted
  exact (List.mem_filter.1 (mem_distinct.1 hnew)).1

theorem refused_eq : ∀ (writes : List (String × TagValue)) (tags : Tags),
    refused cap writes tags = (writes.map (·.1)).filter (¬ Held cap tags · writes)
  | [], _ => rfl
  | w :: writes, tags => by
    rw [refused, refused_eq writes, List.map_cons, List.filter_cons]
    simp only [held_head, ← held_cons]
    by_cases hroom : HasRoom cap tags w.1 <;> simp [hroom]

end Tags

/-! ## The tags that a commit drops -/

namespace Commit.Step

/-- The tag of an entity that a step drops. -/
def drop? (w : World) : Step → Entity → Option String
  | edit e, x => if e.entity = x.id then refusedTag? w.tagCap x e else none
  | _, _ => none

/-- The tags of an entity that steps drop, one after the other. -/
def drops (w : World) : List Step → Entity → List String
  | [], _ => []
  | s :: l, x => (s.drop? w x).toList ++ drops w l (s.turn w x)

theorem drops_append (w : World) (l' : List Step) : ∀ (l : List Step) (x : Entity),
    drops w (l ++ l') x = drops w l x ++ drops w l' (turnAll w l x)
  | [], _ => rfl
  | s :: l, x => by
    rw [List.cons_append, drops, drops, drops_append w l' l, List.append_assoc]
    rfl

/-- Only edits drop tags, of whatever entity. -/
theorem drops_of_phase (w : World) : ∀ (l : List Step) (x : Entity), (∀ s ∈ l, s.phase ≠ 0) →
    drops w l x = []
  | [], _, _ => rfl
  | s :: l, x, h => by
    rw [List.forall_mem_cons] at h
    have hnone : s.drop? w x = none := by
      cases s with
      | edit e => exact absurd rfl h.1
      | _ => rfl
    rw [drops, hnone, drops_of_phase w l _ h.2]
    rfl

theorem drops_after (w : World) (s : Step) : ∀ (l : List Step) (x : Entity),
    drops (after w s) l x = drops w l x
  | [], _ => rfl
  | t :: l, x => by
    obtain ⟨_, _, _, hframe⟩ := exists_after_eq w s
    have hcap : (after w s).tagCap = w.tagCap := by rw [hframe]
    have hdrop : t.drop? (after w s) x = t.drop? w x := by
      cases t with
      | edit e => simp only [drop?, hcap]
      | _ => rfl
    rw [drops, drops, hdrop, turn_after, drops_after w s l]

section Dropped

variable {w : World}

theorem droppedTags_noted (good : w.WellFormed) {x : Entity} (hx : x ∈ w.entities) (s : Step) :
    (noted w s).droppedTags.filter (·.1 = x.id) = (s.drop? w x).toList.map (x.id, ·) := by
  have hlater : 0 < s.phase → s.drop? w x = none →
      (noted w s).droppedTags.filter (·.1 = x.id) = (s.drop? w x).toList.map (x.id, ·) := by
    intro hphase hnone
    rw [noted_droppedTags w hphase, hnone]
    rfl
  cases s with
  | edit e =>
    simp only [noted, run_edit, drop?]
    by_cases hid : e.entity = x.id
    · rw [if_pos hid, hid, good.entity?_eq_some_iff.2 ⟨hx, rfl⟩]
      cases hfits : refusedTag? w.tagCap x e <;> simp [hfits]
    · rw [if_neg hid]
      cases hy : w.entity? e.entity with
      | none => rfl
      | some y =>
        have hother : y.id ≠ x.id := fun hself =>
          hid ((good.entity?_eq_some_iff.1 hy).2.symm.trans hself)
        cases hfits : refusedTag? w.tagCap y e <;> simp [hfits, hother]
  | link r => exact hlater Nat.zero_lt_one rfl
  | archive key => exact hlater Nat.two_pos rfl
  | strength change => exact hlater (Nat.succ_pos 2) rfl
  | pressure change => exact hlater (Nat.succ_pos 3) rfl

theorem droppedTags_foldl_run : ∀ (l : List Step) {w : World} {x : Entity}, w.WellFormed →
    x ∈ w.entities →
      (l.foldl run (w, {})).2.droppedTags.filter (·.1 = x.id) = (drops w l x).map (x.id, ·)
  | [], _, _, _, _ => rfl
  | s :: l, w, x, good, hx => by
    have hturned : s.turn w x ∈ (after w s).entities := by
      rw [entities_after good]
      exact List.mem_map_of_mem hx
    have ih := droppedTags_foldl_run l (good.after s) hturned
    rw [(persists_turn s x).id, drops_after] at ih
    rw [foldl_run_cons, CommitReport.droppedTags_add, List.filter_append, ih,
      droppedTags_noted good hx, drops, List.map_append]

end Dropped

end Commit.Step

/-! ## Edits that set tags -/

namespace EntityEdit

def SetsTag : EntityEdit → Prop
  | setTag _ _ _ => True
  | _ => False

instance : (e : EntityEdit) → Decidable e.SetsTag
  | setTag _ _ _ => inferInstanceAs (Decidable True)
  | removeTag _ _ | setStatus _ _ | shiftProminence _ _ => inferInstanceAs (Decidable False)

/-- The tag that an edit sets on the entity under an id, and its value. -/
def writeTo? (id : EntityId) : EntityEdit → Option (String × TagValue)
  | setTag entity tag value => if entity = id then some (tag, value) else none
  | _ => none

end EntityEdit

/-- The tags that a change set sets on the entity under an id, one after the other. -/
def ChangeSet.tagWrites (c : ChangeSet) (id : EntityId) : List (String × TagValue) :=
  c.entityEdits.filterMap (·.writeTo? id)

namespace Commit

theorem refusedTag?_setTag (cap : UInt64) (x : Entity) (id : EntityId) (tag : String)
    (value : TagValue) :
    refusedTag? cap x (.setTag id tag value) =
      if Tags.HasRoom cap.toNat x.tags tag then none else some tag := by
  have hfull : tagRefused cap x tag = true ↔ ¬ Tags.HasRoom cap.toNat x.tags tag := by
    simp [tagRefused, Tags.HasRoom, Entity.hasTag]
  simp only [refusedTag?, hfull, ite_not]

namespace Step

variable {w : World}

section SetTag

variable (x : Entity) (tag : String) (value : TagValue)

theorem tags_turn_setTag : (turn w (edit (.setTag x.id tag value)) x).tags =
    Tags.write w.tagCap.toNat x.tags (tag, value) := by
  simp only [turn, EntityEdit.entity, refusedTag?_setTag, true_and, Tags.write]
  by_cases hroom : Tags.HasRoom w.tagCap.toNat x.tags tag
  · rw [if_pos hroom, if_pos rfl, if_pos hroom]
    rfl
  · rw [if_neg hroom, if_neg (Option.some_ne_none tag), if_neg hroom]

theorem drop?_setTag : (drop? w (edit (.setTag x.id tag value)) x).toList =
    if Tags.HasRoom w.tagCap.toNat x.tags tag then [] else [tag] := by
  simp only [drop?, EntityEdit.entity, refusedTag?_setTag, if_true]
  split <;> rfl

end SetTag

/-- Edits that set tags write them, and those of other entities do nothing. -/
theorem tags_turnAll_edits (w : World) : ∀ (l : List EntityEdit) {x : Entity},
    (∀ e ∈ l, e.SetsTag) →
      (turnAll w (l.map edit) x).tags =
          Tags.writeAll w.tagCap.toNat x.tags (l.filterMap (·.writeTo? x.id))
        ∧ drops w (l.map edit) x =
          Tags.refused w.tagCap.toNat (l.filterMap (·.writeTo? x.id)) x.tags
  | [], _, _ => ⟨rfl, rfl⟩
  | e :: l, x, h => by
    rw [List.forall_mem_cons] at h
    obtain ⟨htags, hdrops⟩ := tags_turnAll_edits w l (x := turn w (edit e) x) h.2
    rw [(persists_turn (edit e) x).id] at htags hdrops
    have hcons : turnAll w (edit e :: l.map edit) x =
        turnAll w (l.map edit) (turn w (edit e) x) := rfl
    rw [List.map_cons, hcons, htags, drops, hdrops]
    cases e with
    | setTag id tag value =>
      by_cases hid : id = x.id
      · subst hid
        have hwrite : (EntityEdit.setTag x.id tag value).writeTo? x.id = some (tag, value) :=
          if_pos rfl
        rw [List.filterMap_cons_some hwrite, tags_turn_setTag, drop?_setTag]
        exact ⟨rfl, rfl⟩
      · have hwrite : (EntityEdit.setTag id tag value).writeTo? x.id = none := if_neg hid
        have hother : turn w (edit (.setTag id tag value)) x = x := if_neg fun h => hid h.1
        have hnone : drop? w (edit (.setTag id tag value)) x = none := if_neg hid
        rw [List.filterMap_cons_none hwrite, hother, hnone]
        exact ⟨rfl, rfl⟩
    | removeTag id tag => exact h.1.elim
    | setStatus id status => exact h.1.elim
    | shiftProminence id steps => exact h.1.elim

end Step

end Commit

/-! ## Commits -/

namespace World

variable {w : World}

/-- When a commit sets tags and edits nothing else, an entity has in the end the tags that it had
and the new ones that there was room for, in the order in which they come first in the change set.
Those that the set writes have the value written last and the others the one they had, and the
tags that are dropped are, in their order and as often as they were tried, the ones left over. -/
theorem Built.tags_admitted (built : w.Built) {c : ChangeSet}
    (setsTags : ∀ e ∈ c.entityEdits, e.SetsTag) {x : Entity} (hx : x ∈ w.entities) :
    ∃ x', (w.commit c).1.entity? x.id = some x'
      ∧ (∀ tag, x'.hasTag tag = true ↔
        Tags.Held w.tagCap.toNat x.tags tag (c.tagWrites x.id))
      ∧ (∀ tag ∈ (c.tagWrites x.id).map (·.1),
        Tags.Held w.tagCap.toNat x.tags tag (c.tagWrites x.id) →
          x'.tags.find? tag = (c.tagWrites x.id).reverse.lookup tag)
      ∧ (∀ tag ∉ (c.tagWrites x.id).map (·.1), x'.tags.find? tag = x.tags.find? tag)
      ∧ (w.commit c).2.droppedTags.filter (·.1 = x.id) =
        (((c.tagWrites x.id).map (·.1)).filter
          (¬ Tags.Held w.tagCap.toNat x.tags · (c.tagWrites x.id))).map (x.id, ·) := by
  have good := built.wellFormed
  obtain ⟨hedits, hdrops⟩ := Step.tags_turnAll_edits w c.entityEdits setsTags (x := x)
  have htags : (Step.turnAll w c.steps x).tags =
      Tags.writeAll w.tagCap.toNat x.tags (c.tagWrites x.id) := by
    rw [c.steps_eq_edits, Step.turnAll_append]
    exact (Step.unedited_turnAll c.further _ fun _ => ChangeSet.phase_of_mem_further).tags.trans
      hedits
  refine ⟨Step.turnAll w c.steps x, ?_, fun tag => ?_, fun tag hwritten hheld => ?_,
    fun tag hother => ?_, ?_⟩
  · rw [commit_fst, good.entity?_foldl_after, good.entity?_eq_some_iff.2 ⟨hx, rfl⟩]
    rfl
  · rw [Entity.hasTag, htags, Tags.contains_writeAll]
  · have hsome : ((c.tagWrites x.id).reverse.lookup tag).isSome = true := by
      obtain ⟨write, hmem, rfl⟩ := List.mem_map.1 hwritten
      exact List.lookup_isSome_iff.2 ⟨write, List.mem_reverse.2 hmem, beq_self_eq_true _⟩
    rw [htags, Tags.find?_writeAll, if_pos hheld, Option.or_of_isSome hsome]
  · have hnone : (c.tagWrites x.id).reverse.lookup tag = none := by
      refine List.lookup_eq_none_iff.2 fun write hmem => ?_
      exact bne_iff_ne.2 fun h =>
        hother (h ▸ List.mem_map_of_mem (List.mem_reverse.1 hmem))
    rw [htags, Tags.find?_writeAll, hnone, Option.none_or]
    simp only [Tags.held_of_not_written hother, Table.contains]
    cases x.tags.find? tag <;> rfl
  · have hfurther : Step.drops w c.further (Step.turnAll w (c.entityEdits.map .edit) x) = [] :=
      Step.drops_of_phase w c.further _ fun _ => ChangeSet.phase_of_mem_further
    rw [commit_eq_foldl, Step.droppedTags_foldl_run c.steps good hx, c.steps_eq_edits,
      Step.drops_append, hfurther, List.append_nil, hdrops, Tags.refused_eq]
    rfl

end World

namespace Sample

/-- A world where Ann is brave and there is room for two tags. -/
def lodge : World := modest.perform (.setTagCap 2)

/-- Ann is to be old, tired, and old and brave in other ways, and in between Bob is to be tired. -/
def toasts : ChangeSet where
  entityEdits := [.setTag ann.id "old" (.flag true), .setTag ann.id "tired" (.flag true),
    .setTag bob.id "tired" (.flag true), .setTag ann.id "old" (.text "very"),
    .setTag ann.id "tired" (.text "very"), .setTag ann.id "brave" (.text "very")]

/-- Ann has room for one of the new tags, and the other is dropped both times. -/
theorem lodge_after_toasts :
    lodge.Built ∧ (∀ e ∈ toasts.entityEdits, e.SetsTag) ∧ braveAnn ∈ lodge.entities
      ∧ (∃ ann', (lodge.commit toasts).1.entity? ann.id = some ann'
        ∧ ann'.hasTag "tired" = false ∧ ann'.tags.find? "old" = some (.text "very")
        ∧ ann'.tags.find? "brave" = some (.text "very"))
      ∧ (lodge.commit toasts).2.droppedTags.filter (·.1 = ann.id) =
        [(ann.id, "tired"), (ann.id, "tired")] := by
  have built : lodge.Built :=
    ((built_people.perform (.commit _) trivial).perform (.setTagCap 1) trivial).perform
      (.setTagCap 2) trivial
  have hsets : ∀ e ∈ toasts.entityEdits, e.SetsTag := by decide
  have hann : braveAnn ∈ lodge.entities := List.mem_cons_self
  obtain ⟨ann', hfound, hheld, hwritten, -, hdropped⟩ :=
    World.Built.tags_admitted built hsets hann
  have htired : ¬ ann'.hasTag "tired" = true := fun h => absurd ((hheld "tired").1 h) (by decide)
  have hold := hwritten "old" (by decide) (by decide)
  have hbrave := hwritten "brave" (by decide) (by decide)
  exact ⟨built, hsets, hann, ⟨ann', hfound, Bool.eq_false_iff.2 htired, hold, hbrave⟩,
    hdropped⟩

end Sample

end StoryWorld

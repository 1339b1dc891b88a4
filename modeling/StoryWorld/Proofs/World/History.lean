import StoryWorld.Proofs.World.Built

/-!
# The history of a world

What a world has on record it keeps. A call may add entities and relationships at the end of
their lists and nowhere else, so a position means the same entity and the same relationship from
then on. Of a relationship only the strength and the status can change, and neither can once it is
historical. Both are said of one step of a commit first (`Extends.after`); they compose
(`Extends.trans`), so they hold of a commit, of a call and of a run of any length.
-/

namespace StoryWorld

open Commit

/-- What one relationship may become: everything but its strength and its status stays, and those
stay too once it is historical. -/
structure Relationship.Continues (r r' : Relationship) : Prop where
  kind : r'.kind = r.kind
  src : r'.src = r.src
  dst : r'.dst = r.dst
  category : r'.category = r.category
  distance : r'.distance = r.distance
  catalyzedBy : r'.catalyzedBy = r.catalyzedBy
  createdAt : r'.createdAt = r.createdAt
  historical : r.status = .historical → r'.status = .historical ∧ r'.strength = r.strength

namespace Relationship.Continues

variable {r r' r'' : Relationship}

theorem refl (r : Relationship) : r.Continues r :=
  ⟨rfl, rfl, rfl, rfl, rfl, rfl, rfl, fun h => ⟨h, rfl⟩⟩

theorem trans (h : r.Continues r') (h' : r'.Continues r'') : r.Continues r'' where
  kind := h'.kind.trans h.kind
  src := h'.src.trans h.src
  dst := h'.dst.trans h.dst
  category := h'.category.trans h.category
  distance := h'.distance.trans h.distance
  catalyzedBy := h'.catalyzedBy.trans h.catalyzedBy
  createdAt := h'.createdAt.trans h.createdAt
  historical hr := by
    obtain ⟨hr', hstrength⟩ := h.historical hr
    obtain ⟨hr'', hstrength'⟩ := h'.historical hr'
    exact ⟨hr'', hstrength'.trans hstrength⟩

/-- Keys are about active relationships only. -/
theorem not_historical_of_hits {key : RelationshipKey} (h : hits key r = true) :
    r.status ≠ .historical := by
  intro hr
  rw [hits, Bool.and_eq_true, isActive, decide_eq_true_eq, hr] at h
  cases h.1

theorem archive (key : RelationshipKey) (r : Relationship) :
    r.Continues (if hits key r then { r with status := .historical } else r) := by
  split
  · exact ⟨rfl, rfl, rfl, rfl, rfl, rfl, rfl, fun _ => ⟨rfl, rfl⟩⟩
  · exact refl r

theorem strengthen (key : RelationshipKey) (strength : Option Float) (r : Relationship) :
    r.Continues (if hits key r then { r with strength } else r) := by
  split
  · rename_i hkey
    exact ⟨rfl, rfl, rfl, rfl, rfl, rfl, rfl, fun hr => absurd hr (not_historical_of_hits hkey)⟩
  · exact refl r

end Relationship.Continues

namespace World

/-- What a world may become: it gains entities and relationships at the end and loses none. -/
structure Extends (w w' : World) : Prop where
  ids : w.ids <+: w'.ids
  relationships : ∀ (i : Nat) (r : Relationship), w.relationships[i]? = some r →
    ∃ r', w'.relationships[i]? = some r' ∧ r.Continues r'

namespace Extends

variable {w w' w'' : World}

/-- Nothing but the ids and the relationships matters. -/
theorem of_eq (hids : w'.ids = w.ids) (hrels : w'.relationships = w.relationships) :
    w.Extends w' where
  ids := hids ▸ List.prefix_rfl
  relationships _ r hr := ⟨r, hrels ▸ hr, .refl r⟩

theorem refl (w : World) : w.Extends w := of_eq rfl rfl

theorem trans (h : w.Extends w') (h' : w'.Extends w'') : w.Extends w'' where
  ids := h.ids.trans h'.ids
  relationships i r hr := by
    obtain ⟨r', hr', hcontinues⟩ := h.relationships i r hr
    obtain ⟨r'', hr'', hcontinues'⟩ := h'.relationships i r' hr'
    exact ⟨r'', hr'', hcontinues.trans hcontinues'⟩

/-- A relationship that comes last leaves the others in their positions. -/
theorem append (hids : w'.ids = w.ids) {r : Relationship}
    (hrels : w'.relationships = w.relationships ++ [r]) : w.Extends w' where
  ids := hids ▸ List.prefix_rfl
  relationships i r' hr' := by
    have hi : i < w.relationships.length := (List.getElem?_eq_some_iff.1 hr').1
    exact ⟨r', by rw [hrels, List.getElem?_append_left hi, hr'], .refl r'⟩

/-- Relationships may be rewritten one by one, each as something it may become. -/
theorem map (hids : w'.ids = w.ids) {f : Relationship → Relationship}
    (hf : ∀ r : Relationship, r.Continues (f r))
    (hrels : w'.relationships = w.relationships.map f) : w.Extends w' where
  ids := hids ▸ List.prefix_rfl
  relationships i r hr := ⟨f r, by rw [hrels, List.getElem?_map, hr, Option.map_some], hf r⟩

/-! ## Commits -/

theorem after (w : World) (s : Step) : w.Extends (Step.after w s) := by
  cases s with
  | edit e =>
    rcases Step.after_edit w e with heq | heq <;> rw [heq]
    · exact refl w
    · refine of_eq (ids_rewritten fun x _ => ?_) rfl
      cases e <;> rfl
  | link r =>
    cases href : w.refusal? r with
    | some why =>
      rw [Step.after_link_refused href]
      exact refl w
    | none =>
      rw [Step.after_link_taken href]
      exact append (ids_credited r) rfl
  | archive key =>
    rw [Step.after_archive]
    exact map rfl (.archive key) rfl
  | strength change =>
    rw [Step.after_strength]
    exact map rfl (fun r => .strengthen change.key _ r) rfl
  | pressure change => exact of_eq rfl rfl

theorem foldl_after : ∀ (l : List Step) (w : World), w.Extends (l.foldl Step.after w)
  | [], w => refl w
  | s :: l, w => (after w s).trans (foldl_after l (Step.after w s))

theorem commit (w : World) (changes : ChangeSet) : w.Extends (w.commit changes).1 := by
  rw [commit_fst]
  exact foldl_after changes.steps w

/-! ## Calls -/

theorem addEntity {e : Entity} (h : w.addEntity e = .ok w') : w.Extends w' := by
  unfold World.addEntity at h
  split at h
  · cases h
  · cases h
    exact ⟨⟨[e.id], by simp [World.ids]⟩, fun i r hr => ⟨r, hr, .refl r⟩⟩

theorem addRelationship {r : Relationship} (h : w.addRelationship r = .ok w') : w.Extends w' := by
  rw [World.addRelationship_eq] at h
  cases href : w.refusal? r with
  | some why =>
    rw [href] at h
    cases h
  | none =>
    rw [href] at h
    cases h
    exact append rfl rfl

theorem perform {op : Operation} (hop : op.KeepsIds w) : w.Extends (w.perform op) := by
  cases op with
  | addEntity e =>
    simp only [World.perform]
    split
    · exact addEntity ‹_›
    · exact refl w
  | addRelationship r =>
    simp only [World.perform]
    split
    · exact addRelationship ‹_›
    · exact refl w
  | commit changes => exact commit w changes
  | editEntity id edit =>
    have hedit : w.perform (.editEntity id edit) = { w with entities := w.rewritten id edit } :=
      modifyEntity_eq w id edit
    rw [hedit]
    exact of_eq (ids_rewritten hop) rfl
  | _ => exact of_eq rfl rfl

end Extends

/-! ## Runs -/

/-- A run of calls from one world to another, none of which gives an entity another id. -/
inductive Run (w : World) : World → Prop
  | refl : Run w w
  | perform {w' : World} (op : Operation) : Run w w' → op.KeepsIds w' → Run w (w'.perform op)

/-- A run only adds to the history of a world, wherever it starts and however long it is. -/
theorem Run.extends_history {w w' : World} (run : w.Run w') : w.Extends w' := by
  induction run with
  | refl => exact .refl w
  | perform op _ hop ih => exact ih.trans (.perform hop)

end World

namespace Sample

/-- Ann and Bob part, and then whatever joins them is made stronger. -/
def estranged : World :=
  (village.perform (.commit { archived := [⟨"knows", ann.id, bob.id, .src⟩] })).perform
    (.commit { strengthChanges := [⟨⟨"knows", ann.id, bob.id, .both⟩, 0.25⟩] })

/-- The friendship that was over from the start is still there, and no stronger. -/
theorem estranged_extends_village :
    village.Run estranged ∧ village.ids <+: estranged.ids
      ∧ ∃ r, estranged.relationships[5]? = some r ∧ r.src = bob.id ∧ r.dst = ann.id
        ∧ r.status = .historical ∧ r.strength = none := by
  have hrun : village.Run estranged :=
    (World.Run.refl.perform (.commit _) trivial).perform (.commit _) trivial
  have hextends := World.Run.extends_history hrun
  obtain ⟨r, hr, hcontinues⟩ :=
    hextends.relationships 5 { knows bob ann with status := .historical } rfl
  obtain ⟨hstatus, hstrength⟩ := hcontinues.historical rfl
  exact ⟨hrun, hextends.ids, r, hr, hcontinues.src, hcontinues.dst, hstatus, hstrength⟩

end Sample

end StoryWorld

import StoryWorld.Proofs.World.Written

/-!
# Commits, one relationship at a time

A commit goes over all relationships for each key that it archives by, and again for each change
of strength. None of these passes looks at more than one relationship, so what becomes of one is
known without the others (`Step.rewriteAll`). It stays active unless an archived key covers it, no
matter how many do, and only then do the strengths move (`ChangeSet.settles_rewriteAll`). The new
relationships are among those that the passes go over, since they are taken in first
(`World.Built.commit_edgewise`).
-/

namespace StoryWorld

namespace Commit.Step

/-! ## Passes over the relationships -/

section Passes

variable (w : World) (s : Step)

/-- A step that adds no relationship rewrites them one by one. -/
theorem relationships_after (h : s.phase ≠ 1) :
    (after w s).relationships = w.relationships.map s.rewrite := by
  cases s with
  | edit e =>
    rw [after_edit_relationships]
    exact (List.map_id _).symm
  | link r => exact absurd rfl h
  | archive key => rfl
  | strength change => rfl
  | pressure change => exact (List.map_id _).symm

/-- What steps make of a relationship, one after the other. -/
def rewriteAll (l : List Step) (r : Relationship) : Relationship :=
  l.foldl (fun r s => s.rewrite r) r

theorem relationships_foldl_after : ∀ (l : List Step) (w : World), (∀ s ∈ l, s.phase ≠ 1) →
    (l.foldl after w).relationships = w.relationships.map (rewriteAll l)
  | [], w, _ => (List.map_id _).symm
  | s :: l, w, h => by
    rw [List.forall_mem_cons] at h
    rw [List.foldl_cons, relationships_foldl_after l _ h.2, relationships_after w s h.1,
      List.map_map]
    rfl

end Passes

/-- Whether a relationship is taken in does not change in the course of a commit. -/
theorem refusal?_after (w : World) (s : Step) (r : Relationship) :
    (after w s).refusal? r = w.refusal? r := by
  simp only [World.refusal?, contains_after]

theorem refusal?_foldl_after (l : List Step) (w : World) (r : Relationship) :
    (l.foldl after w).refusal? r = w.refusal? r := by
  simp only [World.refusal?, contains_foldl_after]

/-- New relationships come last, in their order, and without those that are refused. -/
theorem relationships_foldl_link : ∀ (l : List Relationship) (w : World),
    ((l.map link).foldl after w).relationships =
      w.relationships ++ (l.filter fun r => (w.refusal? r).isNone).map (stamped w.tick)
  | [], w => (List.append_nil _).symm
  | r :: l, w => by
    obtain ⟨_, _, _, hframe⟩ := exists_after_eq w (link r)
    have htick : (after w (link r)).tick = w.tick := by rw [hframe]
    rw [List.map_cons, List.foldl_cons, relationships_foldl_link l]
    simp only [refusal?_after, htick]
    cases href : w.refusal? r with
    | none =>
      rw [after_link_taken href, List.append_assoc]
      simp [href]
    | some why =>
      rw [after_link_refused href]
      simp [href]

/-! ## What becomes of one relationship -/

theorem hits_iff {key : RelationshipKey} {r : Relationship} :
    hits key r = true ↔ r.isActive = true ∧ key.covers r = true := by
  rw [hits, Bool.and_eq_true]

/-- A strength after a change: one half if there was none, moved by the change, but no further than
to 0 and to 1. -/
def moved (strength : Option Float) (change : StrengthChange) : Option Float :=
  let sum := strength.getD 0.5 + change.delta
  some (if sum < 0 then 0 else if 1 < sum then 1 else sum)

section RewriteAll

variable (r : Relationship)

theorem rewriteAll_append (l l' : List Step) :
    rewriteAll (l ++ l') r = rewriteAll l' (rewriteAll l r) := List.foldl_append

/-- The first key that covers an active relationship archives it, and then there is nothing left
for the others to do. -/
theorem rewriteAll_archive : ∀ (keys : List RelationshipKey) (r : Relationship),
    rewriteAll (keys.map archive) r =
      if r.isActive && keys.any (·.covers r) then { r with status := .historical } else r
  | [], r => by simp [rewriteAll]
  | key :: keys, r => by
    have ih := rewriteAll_archive keys (rewrite (archive key) r)
    change rewriteAll (keys.map archive) (rewrite (archive key) r) = _
    rw [ih]
    by_cases hkey : hits key r = true
    · obtain ⟨hactive, hcovers⟩ := hits_iff.1 hkey
      have hrewrite : rewrite (archive key) r = { r with status := .historical } := if_pos hkey
      have hcond : (r.isActive && (key :: keys).any (·.covers r)) = true := by
        simp [hactive, hcovers]
      rw [hrewrite, if_pos hcond]
      exact if_neg (by simp [Relationship.isActive])
    · have hrewrite : rewrite (archive key) r = r := if_neg hkey
      rw [hrewrite]
      cases hactive : r.isActive with
      | false => rfl
      | true =>
        have hcovers : key.covers r = false := by simpa [hits, hactive] using hkey
        rw [List.any_cons, hcovers, Bool.false_or]

/-- The changes that cover an active relationship move its strength one after the other. -/
theorem rewriteAll_strength : ∀ (changes : List StrengthChange) (r : Relationship),
    rewriteAll (changes.map strength) r =
      if r.isActive then
        { r with strength := (changes.filter (·.key.covers r)).foldl moved r.strength }
      else r
  | [], r => (ite_self r).symm
  | change :: changes, r => by
    have ih := rewriteAll_strength changes (rewrite (strength change) r)
    change rewriteAll (changes.map strength) (rewrite (strength change) r) = _
    rw [ih]
    by_cases hkey : hits change.key r = true
    · -- The others cover the same relationship, and find it active still.
      obtain ⟨hactive, hcovers⟩ := hits_iff.1 hkey
      have hrewrite : rewrite (strength change) r =
          { r with strength := moved r.strength change } := if_pos hkey
      have hstill : ({ r with strength := moved r.strength change } : Relationship).isActive =
          true := hactive
      rw [hrewrite, if_pos hstill, if_pos hactive]
      simp only [List.filter_cons, hcovers, if_true, List.foldl_cons]
      rfl
    · have hrewrite : rewrite (strength change) r = r := if_neg hkey
      rw [hrewrite]
      cases hactive : r.isActive with
      | false => rfl
      | true =>
        have hcovers : change.key.covers r = false := by simpa [hits, hactive] using hkey
        simp [hcovers]

/-- Steps that are about no relationships leave all of them alone. -/
theorem rewriteAll_of_key : ∀ (l : List Step), (∀ s ∈ l, s.key? = none) → rewriteAll l r = r
  | [], _ => rfl
  | s :: l, h => by
    rw [List.forall_mem_cons] at h
    have hcovers : s.covers r = false := by
      unfold covers
      rw [h.1]
      rfl
    have ih := rewriteAll_of_key l h.2
    change rewriteAll l (s.rewrite r) = r
    rw [rewrite_of_not_covers s r hcovers, ih]

end RewriteAll

end Commit.Step

open Commit

namespace ChangeSet

variable (c : ChangeSet) (w : World) (r : Relationship)

/-- The strength of a relationship after the changes that cover it, in their order. -/
def strengthOf : Option Float :=
  (c.strengthChanges.filter (·.key.covers r)).foldl Step.moved r.strength

/-- What a commit makes of a relationship that is there when archiving begins. -/
structure Settles (r r' : Relationship) : Prop where
  active : r'.status = .active ↔ r.status = .active ∧ ∀ key ∈ c.archived, key.covers r = false
  strength : r'.strength = if r'.status = .active then c.strengthOf r else r.strength
  others : r' = { r with status := r'.status, strength := r'.strength }

/-- The steps up to the new relationships. -/
def opening : List Step := c.entityEdits.map .edit ++ c.newRelationships.map .link

/-- The steps after the new relationships. -/
def settling : List Step :=
  c.archived.map .archive ++ (c.strengthChanges.map .strength ++ c.pressureChanges.map .pressure)

theorem steps_eq_append : c.steps = c.opening ++ c.settling := by
  simp only [steps, opening, settling, List.append_assoc]

theorem settles_rewriteAll : c.Settles r (Step.rewriteAll c.settling r) := by
  have hpressures : ∀ s ∈ c.pressureChanges.map Step.pressure, s.key? = none := by
    intro s hs
    obtain ⟨change, -, rfl⟩ := List.mem_map.1 hs
    rfl
  unfold settling
  rw [Step.rewriteAll_append, Step.rewriteAll_append, Step.rewriteAll_of_key _ _ hpressures,
    Step.rewriteAll_strength, Step.rewriteAll_archive]
  cases hactive : r.isActive with
  | false =>
    have hstatus : r.status ≠ .active := by simpa [Relationship.isActive] using hactive
    simp only [Bool.false_and, Bool.false_eq_true, if_false, hactive]
    exact ⟨by simp [hstatus], by simp [hstatus], rfl⟩
  | true =>
    have hstatus : r.status = .active := by simpa [Relationship.isActive] using hactive
    cases hended : c.archived.any (·.covers r) with
    | true =>
      obtain ⟨key, hkey, hcovers⟩ := List.any_eq_true.1 hended
      have hnot : ¬ ∀ key ∈ c.archived, key.covers r = false := fun h => by
        rw [h key hkey] at hcovers
        cases hcovers
      simp only [Bool.and_self, if_true, Relationship.isActive]
      exact ⟨by simp [hnot], by simp, rfl⟩
    | false =>
      have hnone : ∀ key ∈ c.archived, key.covers r = false := by simpa using hended
      simp only [Bool.and_false, Bool.false_eq_true, if_false, hactive, if_true]
      exact ⟨⟨fun _ => ⟨hstatus, hnone⟩, fun _ => hstatus⟩, (if_pos hstatus).symm, rfl⟩

end ChangeSet

/-! ## How many are archived -/

namespace Commit.Step

theorem archived_of_phase : ∀ (l : List Step) (w : World), (∀ s ∈ l, s.phase ≠ 2) →
    (l.foldl run (w, {})).2.relationshipsArchived = 0
  | [], _, _ => rfl
  | s :: l, w, h => by
    rw [List.forall_mem_cons] at h
    have hfirst : (noted w s).relationshipsArchived = 0 := by
      cases s with
      | edit e =>
        simp only [noted, run_edit]
        cases w.entity? e.entity with
        | none => rfl
        | some x =>
          simp only
          cases refusedTag? w.tagCap x e <;> rfl
      | link r =>
        simp only [noted, run_link]
        cases w.refusal? r <;> rfl
      | archive key => exact absurd rfl h.1
      | strength change => rfl
      | pressure change => rfl
    rw [foldl_run_cons, CommitReport.relationshipsArchived_add, hfirst, archived_of_phase l _ h.2]

/-- A relationship that the first key archives is not there any more for the other keys. -/
theorem countP_archived_cons (key : RelationshipKey) (keys : List RelationshipKey)
    (l : List Relationship) :
    l.countP (fun r => r.isActive && (key :: keys).any (·.covers r)) =
      l.countP (hits key)
        + (l.map (rewrite (archive key))).countP fun r => r.isActive && keys.any (·.covers r) := by
  induction l with
  | nil => rfl
  | cons r l ih =>
    rw [List.map_cons, List.countP_cons, List.countP_cons, List.countP_cons, ih]
    by_cases hkey : hits key r = true
    · obtain ⟨hactive, hcovers⟩ := hits_iff.1 hkey
      have hrewrite : rewrite (archive key) r = { r with status := .historical } := if_pos hkey
      have hgone : ({ r with status := .historical } : Relationship).isActive = false := rfl
      simp only [hrewrite, hgone, hkey, hactive, hcovers, List.any_cons, Bool.true_or,
        Bool.and_self, Bool.false_and, Bool.false_eq_true, if_true, if_false]
      omega
    · have hrewrite : rewrite (archive key) r = r := if_neg hkey
      have hnot : (r.isActive && key.covers r) = false := by simpa [hits] using hkey
      simp only [hrewrite, hkey, List.any_cons, Bool.and_or_distrib_left, hnot, Bool.false_or,
        Bool.false_eq_true, if_false]
      omega

/-- Each relationship that is archived is counted once, however many keys cover it. -/
theorem archived_foldl_run : ∀ (keys : List RelationshipKey) (w : World),
    ((keys.map archive).foldl run (w, {})).2.relationshipsArchived =
      w.relationships.countP fun r => r.isActive && keys.any (·.covers r)
  | [], w => by simp
  | key :: keys, w => by
    have hfirst : (noted w (archive key)).relationshipsArchived =
        w.relationships.countP (hits key) := Nat.zero_add _
    rw [List.map_cons, foldl_run_cons, CommitReport.relationshipsArchived_add, hfirst,
      archived_foldl_run keys, countP_archived_cons]
    rfl

end Commit.Step

/-! ## Commits -/

namespace World

variable {w : World}

/-- Whether an entity of the world has an id. -/
def hasEntity (w : World) (id : EntityId) : Bool := w.entities.any (·.id = id)

/-- Whether both ends of a relationship are entities of the world. -/
def hasEnds (w : World) (r : Relationship) : Bool := w.hasEntity r.src && w.hasEntity r.dst

theorem WellFormed.hasEntity_eq (good : w.WellFormed) (id : EntityId) :
    w.hasEntity id = w.contains id := by
  rw [Bool.eq_iff_iff, good.contains_iff]
  simp [hasEntity]

theorem WellFormed.hasEnds_eq (good : w.WellFormed) :
    w.hasEnds = fun r => (w.refusal? r).isNone := by
  funext r
  unfold hasEnds
  rw [good.hasEntity_eq, good.hasEntity_eq, Bool.eq_iff_iff, Option.isNone_iff_eq_none,
    refusal?_eq_none_iff, Bool.and_eq_true]

/-- The relationships of a world followed by the new ones of a change set that are taken in. -/
def joined (w : World) (c : ChangeSet) : List Relationship :=
  w.relationships ++ (c.newRelationships.filter w.hasEnds).map (stamped w.tick)

/-- What archiving finds is what was there and what has been taken in since. -/
theorem WellFormed.relationships_opening (good : w.WellFormed) (c : ChangeSet) :
    (c.opening.foldl Step.after w).relationships = w.joined c := by
  have hedits : ∀ s ∈ c.entityEdits.map Step.edit, s.phase ≠ 1 ∧ s.key? = none := by
    intro s hs
    obtain ⟨e, -, rfl⟩ := List.mem_map.1 hs
    exact ⟨Nat.zero_ne_one, rfl⟩
  have hkept : ∀ r, Step.rewriteAll (c.entityEdits.map Step.edit) r = r :=
    fun r => Step.rewriteAll_of_key r _ fun s hs => (hedits s hs).2
  obtain ⟨_, _, _, hframe⟩ := Step.exists_foldl_after_eq (c.entityEdits.map Step.edit) w
  have htick : ((c.entityEdits.map Step.edit).foldl Step.after w).tick = w.tick := by rw [hframe]
  rw [ChangeSet.opening, List.foldl_append, Step.relationships_foldl_link,
    Step.relationships_foldl_after _ _ fun s hs => (hedits s hs).1, List.map_id'' hkept, htick]
  simp only [Step.refusal?_foldl_after, joined, good.hasEnds_eq]

theorem WellFormed.relationships_commit (good : w.WellFormed) (c : ChangeSet) :
    (w.commit c).1.relationships = (w.joined c).map (Step.rewriteAll c.settling) := by
  have hsettling : ∀ s ∈ c.settling, s.phase ≠ 1 := by
    simp [ChangeSet.settling, Step.phase, or_imp, forall_and]
  rw [commit_fst, c.steps_eq_append, List.foldl_append,
    Step.relationships_foldl_after _ _ hsettling, good.relationships_opening]

theorem WellFormed.archived_commit (good : w.WellFormed) (c : ChangeSet) :
    (w.commit c).2.relationshipsArchived =
      (w.joined c).countP fun r => r.isActive && c.archived.any (·.covers r) := by
  have hopening : ∀ s ∈ c.opening, s.phase ≠ 2 := by
    simp [ChangeSet.opening, Step.phase, or_imp, forall_and]
  have hrest : ∀ s ∈ c.strengthChanges.map Step.strength ++ c.pressureChanges.map Step.pressure,
      s.phase ≠ 2 := by
    simp [Step.phase, or_imp, forall_and]
  rw [commit_eq_foldl, c.steps_eq_append, Step.foldl_run_append,
    CommitReport.relationshipsArchived_add, Step.archived_of_phase _ _ hopening, Nat.zero_add,
    ChangeSet.settling, Step.foldl_run_append, CommitReport.relationshipsArchived_add,
    Step.archived_of_phase _ _ hrest, Step.archived_foldl_run, good.relationships_opening,
    Nat.add_zero]

/-- A commit decides about each relationship on its own: whether it stays active and how strong it
is comes from the relationship and the keys that cover it. Nothing is left that an archived key is
about, and each relationship that was archived counts once. -/
theorem Built.commit_edgewise (built : w.Built) (c : ChangeSet) :
    List.Forall₂ c.Settles (w.joined c) (w.commit c).1.relationships
      ∧ (∀ key ∈ c.archived, (w.commit c).1.hasRelationship key.entity (some key.kind)
        (some key.other) key.direction = false)
      ∧ (w.commit c).2.relationshipsArchived =
        (w.joined c).countP fun r => r.isActive && c.archived.any (·.covers r) := by
  have good := built.wellFormed
  refine ⟨?_, fun key hkey => ?_, good.archived_commit c⟩
  · rw [good.relationships_commit, List.forall₂_map_right_iff, List.forall₂_same]
    exact fun r _ => c.settles_rewriteAll r
  · rw [Bool.eq_false_iff, Ne, hasRelationship_iff]
    rintro ⟨r', hr', hactive, hkind, hleads⟩
    rw [good.relationships_commit] at hr'
    obtain ⟨r, -, rfl⟩ := List.mem_map.1 hr'
    -- A key asks for the kind and the ends, which a relationship keeps.
    have hsettles := c.settles_rewriteAll r
    have hcovers := RelationshipKey.covers_iff.2 ⟨hkind, hleads⟩
    rw [hsettles.others] at hcovers
    have hnot : key.covers r = false := (hsettles.active.1 hactive).2 key hkey
    exact Bool.false_ne_true (hnot.symm.trans hcovers)

end World

namespace Sample

/-- Bob comes to know Cat once more, and somebody unknown comes to know her. Ann and Bob part, Bob
and Cat part by two keys, and what is left between Ann and Cat grows twice. -/
def quarrel : ChangeSet where
  newRelationships := [knows bob cat, { knows ann cat with src := ⟨9⟩ }]
  archived := [⟨"knows", ann.id, bob.id, .both⟩, ⟨"knows", cat.id, bob.id, .dst⟩,
    ⟨"knows", bob.id, cat.id, .both⟩]
  strengthChanges := [⟨⟨"knows", ann.id, cat.id, .both⟩, 0.25⟩,
    ⟨⟨"knows", ann.id, bob.id, .both⟩, 0.25⟩, ⟨⟨"knows", cat.id, ann.id, .src⟩, 1⟩]

/-- The new friendship of Bob and Cat is archived as well as the old one. What is between Ann and
Cat goes from one half to three quarters and then as far as it can. -/
theorem village_settled :
    village.Built
      ∧ (village.commit quarrel).1.relationships.length = 7
      ∧ (village.commit quarrel).1.relationships[2]? =
        some { knows cat ann with strength := some 1 }
      ∧ (village.commit quarrel).1.hasRelationship bob.id (some "knows") (some cat.id) .both = false
      ∧ (village.commit quarrel).2.relationshipsArchived = 4 := by
  obtain ⟨hsettles, hgone, harchived⟩ := World.Built.commit_edgewise built_village quarrel
  have hlength : (village.commit quarrel).1.relationships.length = 7 := hsettles.length_eq.symm
  have hcat := hsettles.get (i := 2) (by decide) (by omega)
  rw [List.get_eq_getElem, List.get_eq_getElem] at hcat
  have hactive : (village.commit quarrel).1.relationships[2].status = .active :=
    hcat.active.2 ⟨rfl, by decide⟩
  have hstrength : (village.commit quarrel).1.relationships[2].strength = some 1 :=
    hcat.strength.trans (if_pos hactive)
  have hothers := hcat.others
  rw [hactive, hstrength] at hothers
  refine ⟨built_village, hlength, ?_, ?_, ?_⟩
  · rw [List.getElem?_eq_getElem (by omega), hothers]
    rfl
  · exact hgone ⟨"knows", bob.id, cat.id, .both⟩ (by decide)
  · rw [harchived]
    decide

end Sample

end StoryWorld

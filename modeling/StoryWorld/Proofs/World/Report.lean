import StoryWorld.Mutation.Prepare
import StoryWorld.Proofs.World.Edgewise

/-!
# What a report says

The report of a commit leaves nothing out: each edit was made, has its tag among the dropped ones
or is skipped with a reason, and each new relationship was added or is skipped with a reason. Its
numbers can be told from the world and the change set before the commit
(`World.Built.commit_reported`). A report that counts nothing is the report of a commit that did
nothing, whatever it was asked to do (`Commit.Step.foldl_after_of_idle`).
-/

namespace StoryWorld

/-- Whether a report counts nothing that was done. -/
structure CommitReport.Idle (report : CommitReport) : Prop where
  entitiesChanged : report.entitiesChanged = 0
  relationshipsAdded : report.relationshipsAdded = 0
  relationshipsArchived : report.relationshipsArchived = 0
  strengthsAdjusted : report.strengthsAdjusted = 0
  pressuresChanged : report.pressuresChanged = 0

namespace CommitReport

variable {a b : CommitReport}

theorem anyChange_eq_false_iff : a.anyChange = false ↔ a.Idle := by
  unfold anyChange
  rw [decide_eq_false_iff_not]
  constructor
  · intro h
    constructor <;> omega
  · rintro ⟨h₁, h₂, h₃, h₄, h₅⟩
    omega

/-- Nothing that is counted is taken back. -/
theorem Idle.of_add (h : (a + b).Idle) : a.Idle ∧ b.Idle := by
  have hentities := Nat.add_eq_zero_iff.1 h.entitiesChanged
  have hadded := Nat.add_eq_zero_iff.1 h.relationshipsAdded
  have harchived := Nat.add_eq_zero_iff.1 h.relationshipsArchived
  have hstrengths := Nat.add_eq_zero_iff.1 h.strengthsAdjusted
  have hpressures := Nat.add_eq_zero_iff.1 h.pressuresChanged
  exact ⟨⟨hentities.1, hadded.1, harchived.1, hstrengths.1, hpressures.1⟩,
    ⟨hentities.2, hadded.2, harchived.2, hstrengths.2, hpressures.2⟩⟩

end CommitReport

namespace Commit.Step

variable {w : World} {s : Step}

/-- Relationships that a key does not hit are left alone. -/
theorem after_of_no_hits {k : RelationshipKey} (h : s.key? = some k)
    (hnone : w.relationships.countP (hits k) = 0) : after w s = w := by
  have hkept : w.relationships.map s.rewrite = w.relationships := by
    conv_rhs => rw [← List.map_id w.relationships]
    refine List.map_congr_left fun r hr => ?_
    have hr : ¬ hits k r = true := List.countP_eq_zero.1 hnone r hr
    cases s with
    | archive key =>
      cases h
      exact if_neg hr
    | strength change =>
      cases h
      exact if_neg hr
    | edit e => cases h
    | link r' => cases h
    | pressure change => cases h
  rw [after_of_key h, hkept]

/-- A step that counts nothing does nothing. -/
theorem after_of_idle (h : (noted w s).Idle) : after w s = w := by
  cases s with
  | edit e =>
    have hchanged := h.entitiesChanged
    simp only [noted, after, run_edit] at hchanged ⊢
    cases hx : w.entity? e.entity with
    | none => rfl
    | some x =>
      rw [hx] at hchanged
      cases htag : refusedTag? w.tagCap x e with
      | some tag => simp only [htag]
      | none =>
        simp only [htag] at hchanged
        cases hchanged
  | link r =>
    cases href : w.refusal? r with
    | some why => exact after_link_refused href
    | none =>
      have hadded := h.relationshipsAdded
      rw [noted_link_taken href] at hadded
      cases hadded
  | archive key =>
    have hcount := h.relationshipsArchived
    exact after_of_no_hits rfl (Nat.add_eq_zero_iff.1 hcount).2
  | strength change =>
    have hcount := h.strengthsAdjusted
    exact after_of_no_hits rfl (Nat.add_eq_zero_iff.1 hcount).2
  | pressure change => cases h.pressuresChanged

theorem foldl_after_of_idle : ∀ (l : List Step) {w : World},
    (l.foldl run (w, {})).2.Idle → l.foldl after w = w
  | [], _, _ => rfl
  | s :: l, w, h => by
    rw [foldl_run_cons] at h
    obtain ⟨hfirst, hrest⟩ := h.of_add
    have hworld : after w s = w := after_of_idle hfirst
    rw [hworld] at hrest
    rw [List.foldl_cons, hworld, foldl_after_of_idle l hrest]

end Commit.Step

open Commit

namespace World

variable {w : World}

theorem commit_of_idle {c : ChangeSet} (h : (w.commit c).2.Idle) : (w.commit c).1 = w := by
  rw [commit_eq_foldl] at h
  rw [commit_fst]
  exact Step.foldl_after_of_idle c.steps h

theorem WellFormed.length_relationships_commit (good : w.WellFormed) (c : ChangeSet) :
    (w.commit c).1.relationships.length =
      w.relationships.length + c.newRelationships.countP w.hasEnds := by
  rw [good.relationships_commit, List.length_map, joined, List.length_append, List.length_map,
    List.countP_eq_length_filter]

/-- A report accounts for every edit and every new relationship of a change set, and when nothing
was done the world is as it was. -/
theorem Built.commit_reported (built : w.Built) (c : ChangeSet) :
    (w.commit c).2.entitiesChanged + (w.commit c).2.relationshipsAdded
        + (w.commit c).2.droppedTags.length + (w.commit c).2.skipped.length =
      c.entityEdits.length + c.newRelationships.length
      ∧ (w.commit c).2.entitiesChanged + (w.commit c).2.droppedTags.length =
        c.entityEdits.countP (w.hasEntity ·.entity)
      ∧ (w.commit c).2.relationshipsAdded = c.newRelationships.countP w.hasEnds
      ∧ (w.commit c).1.relationships.length =
        w.relationships.length + (w.commit c).2.relationshipsAdded
      ∧ (w.commit c).2.pressuresChanged = c.pressureChanges.length
      ∧ ((w.commit c).2.Idle → (w.commit c).1 = w)
      ∧ ∀ m : MutationResult, m.changes = c →
        ((m.commit w).1.applied = false ↔ (w.commit c).2.Idle) := by
  have good := built.wellFormed
  have htally := good.tally_commit c
  have hedits : c.entityEdits.countP (w.hasEntity ·.entity) =
      c.entityEdits.countP (w.contains ·.entity) := by
    simp only [good.hasEntity_eq]
  have hlinks : c.newRelationships.countP w.hasEnds =
      c.newRelationships.countP fun r => w.contains r.src && w.contains r.dst := by
    unfold hasEnds
    simp only [good.hasEntity_eq]
  refine ⟨?_, htally.edits.trans hedits.symm, htally.links.trans hlinks.symm, ?_,
    htally.pressures, commit_of_idle, ?_⟩
  · have hall := List.length_eq_countP_add_countP
      (fun e : EntityEdit => w.contains e.entity) (l := c.entityEdits)
    have hall' := List.length_eq_countP_add_countP
      (fun r : Relationship => w.contains r.src && w.contains r.dst) (l := c.newRelationships)
    have hmade := htally.edits
    have hadded := htally.links
    have hskipped := htally.misses
    -- Whatever does not find what it looks up is skipped, and nothing else is.
    omega
  · rw [good.length_relationships_commit, hlinks, htally.links]
  · rintro m rfl
    exact CommitReport.anyChange_eq_false_iff

end World

namespace Sample

/-- The village, with no room for tags. -/
def plainVillage : World := village.perform (.setTagCap 0)

/-- Somebody unknown leaves and is met, Ann is marked, and those part who are not together. -/
def idleTalk : ChangeSet where
  entityEdits := [.setStatus ⟨9⟩ "gone", .setTag ann.id "host" (.flag true)]
  newRelationships := [{ knows ann cat with dst := ⟨9⟩ }]
  archived := [⟨"hates", ann.id, bob.id, .both⟩]
  strengthChanges := [⟨⟨"knows", cat.id, bob.id, .src⟩, 0.25⟩]

/-- All three that could have counted are refused, and the village is as it was. -/
theorem plainVillage_unmoved :
    plainVillage.Built
      ∧ (plainVillage.commit idleTalk).2.droppedTags.length
        + (plainVillage.commit idleTalk).2.skipped.length = 3
      ∧ (plainVillage.commit idleTalk).1 = plainVillage := by
  have built : plainVillage.Built := built_village.perform (.setTagCap 0) trivial
  have hidle : (plainVillage.commit idleTalk).2.Idle := ⟨rfl, rfl, rfl, rfl, rfl⟩
  obtain ⟨hall, -, -, -, -, hunmoved, -⟩ := World.Built.commit_reported built idleTalk
  rw [hidle.entitiesChanged, hidle.relationshipsAdded, Nat.zero_add] at hall
  exact ⟨built, hall, hunmoved hidle⟩

end Sample

end StoryWorld

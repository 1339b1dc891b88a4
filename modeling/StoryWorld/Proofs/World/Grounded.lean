import StoryWorld.Proofs.World.Batch

/-!
# Changes of what is there

A change set is grounded in a world when the entities it edits and the ends of its new relationships
are there. Nothing that a commit does takes an id away or brings one, so each step finds what it
looks up when its turn comes if it is there at the start. Those that find nothing are left out with
a reason, one for each (`World.WellFormed.tally_commit`). The report of a grounded set accounts for
the whole of it: nothing is left out, every new relationship is added, and every edit is made unless
it sets a tag that has no room (`World.WellFormed.accounts_commit`).
-/

namespace StoryWorld

/-- Whether a report accounts for a number of edits and a number of new relationships, with nothing
left out. -/
structure CommitReport.Accounts (report : CommitReport) (edits links : ℕ) : Prop where
  edits : report.entitiesChanged + report.droppedTags.length = edits
  links : report.relationshipsAdded = links
  skipped : report.skipped = []

/-- What a report comes to: how many edits were made or wanted a tag that had no room, how many
relationships were added and pressures changed, and how many changes were left out. -/
structure CommitReport.Tally (report : CommitReport) (edits links pressures misses : ℕ) : Prop where
  edits : report.entitiesChanged + report.droppedTags.length = edits
  links : report.relationshipsAdded = links
  pressures : report.pressuresChanged = pressures
  misses : report.skipped.length = misses

theorem CommitReport.Tally.add {a b : CommitReport} {edits edits' links links' pressures pressures'
    misses misses' : ℕ} (ha : a.Tally edits links pressures misses)
    (hb : b.Tally edits' links' pressures' misses') :
    (a + b).Tally (edits + edits') (links + links') (pressures + pressures')
      (misses + misses') where
  edits := by
    rw [← ha.edits, ← hb.edits, entitiesChanged_add, droppedTags_add, List.length_append]
    exact Nat.add_add_add_comm ..
  links := by rw [relationshipsAdded_add, ha.links, hb.links]
  pressures := by rw [pressuresChanged_add, ha.pressures, hb.pressures]
  misses := by rw [skipped_add, List.length_append, ha.misses, hb.misses]

namespace Commit.Step

/-- Whether what a step looks up is there. -/
def Grounded (w : World) : Step → Prop
  | edit e => w.contains e.entity = true
  | link r => w.contains r.src = true ∧ w.contains r.dst = true
  | _ => True

instance (w : World) : (s : Step) → Decidable (s.Grounded w)
  | edit e => inferInstanceAs (Decidable (w.contains e.entity = true))
  | link r => inferInstanceAs (Decidable (w.contains r.src = true ∧ w.contains r.dst = true))
  | archive _ | strength _ | pressure _ => inferInstanceAs (Decidable True)

theorem after_index (w : World) (s : Step) : (after w s).index = w.index := by
  cases s with
  | edit e => rcases after_edit w e with h | h <;> rw [h]
  | link r =>
    cases href : w.refusal? r with
    | some why => rw [after_link_refused href]
    | none => rw [after_link_taken href]
  | archive key => rfl
  | strength change => rfl
  | pressure change => rfl

theorem contains_after (w : World) (s : Step) (id : EntityId) :
    (after w s).contains id = w.contains id := by
  unfold World.contains
  rw [after_index]

theorem contains_foldl_after : ∀ (l : List Step) (w : World) (id : EntityId),
    (l.foldl after w).contains id = w.contains id
  | [], _, _ => rfl
  | s :: l, w, id => (contains_foldl_after l (after w s) id).trans (contains_after w s id)

variable {w : World} {s t : Step}

theorem grounded_after : t.Grounded (after w s) ↔ t.Grounded w := by
  cases t with
  | edit e => simp only [Grounded, contains_after]
  | link r => simp only [Grounded, contains_after]
  | _ => exact Iff.rfl

theorem Grounded.after (h : t.Grounded w) (s : Step) : t.Grounded (after w s) :=
  grounded_after.2 h

/-- A step that finds what it looks up counts in its phase, and one that does not is left out. -/
theorem tally_noted (good : w.WellFormed) (s : Step) :
    (noted w s).Tally (if s.phase = 0 ∧ s.Grounded w then 1 else 0)
      (if s.phase = 1 ∧ s.Grounded w then 1 else 0) (if s.phase = 4 then 1 else 0)
      (if s.Grounded w then 0 else 1) := by
  cases s with
  | edit e =>
    by_cases h : w.contains e.entity = true
    · have hground : (edit e).Grounded w := h
      obtain ⟨x, hx, hid⟩ := good.contains_iff.1 h
      have hfound := good.entity?_eq_some_iff.2 ⟨hx, hid⟩
      simp only [noted, run_edit, hfound, hground]
      cases refusedTag? w.tagCap x e <;> exact ⟨rfl, rfl, rfl, rfl⟩
    · have hground : ¬ (edit e).Grounded w := h
      have hlost : w.entity? e.entity = none := by
        rw [Option.eq_none_iff_forall_ne_some]
        intro x hx
        exact h (good.contains_iff.2 ⟨x, good.entity?_eq_some_iff.1 hx⟩)
      simp only [noted, run_edit, hlost, hground]
      exact ⟨rfl, rfl, rfl, rfl⟩
  | link r =>
    by_cases hground : (link r).Grounded w
    · rw [noted_link_taken (World.refusal?_eq_none_iff.2 hground)]
      simp only [hground]
      exact ⟨rfl, rfl, rfl, rfl⟩
    · cases href : w.refusal? r with
      | none => exact absurd (World.refusal?_eq_none_iff.1 href) hground
      | some why =>
        rw [noted_link_refused href]
        simp only [hground]
        exact ⟨rfl, rfl, rfl, rfl⟩
  | archive key => exact ⟨rfl, rfl, rfl, rfl⟩
  | strength change => exact ⟨rfl, rfl, rfl, rfl⟩
  | pressure change => exact ⟨rfl, rfl, rfl, rfl⟩

/-- Whether a step finds what it looks up is settled before the run. -/
theorem tally_foldl_run : ∀ (l : List Step) {w : World}, w.WellFormed →
    (l.foldl run (w, {})).2.Tally (l.countP fun s => s.phase = 0 ∧ s.Grounded w)
      (l.countP fun s => s.phase = 1 ∧ s.Grounded w) (l.countP (·.phase = 4))
      (l.countP fun s => ¬ s.Grounded w)
  | [], _, _ => ⟨rfl, rfl, rfl, rfl⟩
  | s :: l, w, good => by
    have hrest := tally_foldl_run l (good.after s)
    simp only [grounded_after] at hrest
    have hsum := (tally_noted good s).add hrest
    rw [foldl_run_cons]
    simp only [List.countP_cons, Nat.add_comm (List.countP ..), decide_eq_true_eq, ite_not]
    exact hsum

end Commit.Step

open Commit

/-- Whether the entities a change set edits and the ends of its new relationships are there. -/
structure ChangeSet.Grounded (c : ChangeSet) (w : World) : Prop where
  edits : ∀ e ∈ c.entityEdits, w.contains e.entity = true
  links : ∀ r ∈ c.newRelationships, w.contains r.src = true ∧ w.contains r.dst = true

namespace ChangeSet

variable {w : World} {c d : ChangeSet}

theorem Grounded.append (hc : c.Grounded w) (hd : d.Grounded w) : (c ++ d).Grounded w where
  edits e he := (List.mem_append.1 he).elim (hc.edits e) (hd.edits e)
  links r hr := (List.mem_append.1 hr).elim (hc.links r) (hd.links r)

theorem Grounded.step (h : c.Grounded w) {s : Step} (hs : s ∈ c.steps) : s.Grounded w := by
  rw [steps_eq_flatMap] at hs
  obtain ⟨i, -, hs⟩ := List.mem_flatMap.1 hs
  cases s with
  | edit e =>
    have hi : 0 = i := phase_of_mem_stepsIn hs
    subst hi
    obtain ⟨e', he, heq⟩ := List.mem_map.1 hs
    cases heq
    exact h.edits e he
  | link r => exact h.links r (mem_of_link_mem_stepsIn hs)
  | _ => trivial

end ChangeSet

namespace World

variable {w : World}

/-- The report of a commit tells the edits and the new relationships that find what they look up
from those that do not. -/
theorem WellFormed.tally_commit (good : w.WellFormed) (c : ChangeSet) :
    (w.commit c).2.Tally (c.entityEdits.countP (w.contains ·.entity))
      (c.newRelationships.countP fun r => w.contains r.src && w.contains r.dst)
      c.pressureChanges.length
      ((c.entityEdits.countP fun e => ¬ w.contains e.entity = true)
        + c.newRelationships.countP fun r => ¬ (w.contains r.src && w.contains r.dst) = true) := by
  have hrun := Step.tally_foldl_run c.steps good
  rw [← commit_eq_foldl] at hrun
  simpa [ChangeSet.steps, List.countP_append, List.countP_map, Function.comp_def, Step.phase,
    Step.Grounded] using hrun

/-- The report of a grounded change set accounts for all of it. -/
theorem WellFormed.accounts_commit (good : w.WellFormed) {c : ChangeSet} (h : c.Grounded w) :
    (w.commit c).2.Accounts c.entityEdits.length c.newRelationships.length := by
  have htally := good.tally_commit c
  have hlinks : ∀ r ∈ c.newRelationships, (w.contains r.src && w.contains r.dst) = true :=
    fun r hr => Bool.and_eq_true_iff.2 (h.links r hr)
  refine ⟨?_, ?_, ?_⟩
  · rw [htally.edits, List.countP_eq_length]
    exact h.edits
  · rw [htally.links, List.countP_eq_length]
    exact hlinks
  · rw [← List.length_eq_zero_iff, htally.misses, Nat.add_eq_zero_iff, List.countP_eq_zero,
      List.countP_eq_zero]
    exact ⟨fun e he => by simp [h.edits e he], fun r hr => by simp [hlinks r hr]⟩

end World

end StoryWorld

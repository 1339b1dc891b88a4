import StoryWorld.Proofs.World.Built
import StoryWorld.Proofs.World.Swap

/-!
# Change sets in one commit

To append change sets and commit them at once is to commit them one after the other, unless the
order of the phases tells them apart. In the one commit every phase of the second set runs before
all later phases of the first, so each of its steps passes those of the first set in later phases,
one by one (`alike_pass`, `alike_interleave`). It can, when the first set archives or moves nothing
that the second one adds, and the second archives nothing that the first one moves.

Steps that change places note the same things in another order. Only the reasons of edits that
could not be made are noted by steps of more than one phase, so the reports differ in the order of
these.
-/

namespace StoryWorld

/-! ## Reports up to the order of reasons -/

namespace CommitReport

/-- The same counts and dropped tags, and the same reasons in some order. -/
structure Alike (a b : CommitReport) : Prop where
  entitiesChanged : a.entitiesChanged = b.entitiesChanged
  relationshipsAdded : a.relationshipsAdded = b.relationshipsAdded
  relationshipsArchived : a.relationshipsArchived = b.relationshipsArchived
  strengthsAdjusted : a.strengthsAdjusted = b.strengthsAdjusted
  pressuresChanged : a.pressuresChanged = b.pressuresChanged
  droppedTags : a.droppedTags = b.droppedTags
  skipped : a.skipped.Perm b.skipped

namespace Alike

variable {a b c : CommitReport}

theorem refl (a : CommitReport) : a.Alike a := ⟨rfl, rfl, rfl, rfl, rfl, rfl, .refl _⟩

theorem symm (h : a.Alike b) : b.Alike a where
  entitiesChanged := h.entitiesChanged.symm
  relationshipsAdded := h.relationshipsAdded.symm
  relationshipsArchived := h.relationshipsArchived.symm
  strengthsAdjusted := h.strengthsAdjusted.symm
  pressuresChanged := h.pressuresChanged.symm
  droppedTags := h.droppedTags.symm
  skipped := h.skipped.symm

theorem trans (h : a.Alike b) (h' : b.Alike c) : a.Alike c where
  entitiesChanged := h.entitiesChanged.trans h'.entitiesChanged
  relationshipsAdded := h.relationshipsAdded.trans h'.relationshipsAdded
  relationshipsArchived := h.relationshipsArchived.trans h'.relationshipsArchived
  strengthsAdjusted := h.strengthsAdjusted.trans h'.strengthsAdjusted
  pressuresChanged := h.pressuresChanged.trans h'.pressuresChanged
  droppedTags := h.droppedTags.trans h'.droppedTags
  skipped := h.skipped.trans h'.skipped

theorem add_right (h : a.Alike b) (c : CommitReport) : (a + c).Alike (b + c) where
  entitiesChanged := congrArg (· + c.entitiesChanged) h.entitiesChanged
  relationshipsAdded := congrArg (· + c.relationshipsAdded) h.relationshipsAdded
  relationshipsArchived := congrArg (· + c.relationshipsArchived) h.relationshipsArchived
  strengthsAdjusted := congrArg (· + c.strengthsAdjusted) h.strengthsAdjusted
  pressuresChanged := congrArg (· + c.pressuresChanged) h.pressuresChanged
  droppedTags := congrArg (· ++ c.droppedTags) h.droppedTags
  skipped := h.skipped.append_right c.skipped

/-- The order of two reports does not matter when the first of them drops no tags. -/
theorem add_right_comm (h : b.droppedTags = []) : (a + b + c).Alike (a + c + b) where
  entitiesChanged := Nat.add_right_comm ..
  relationshipsAdded := Nat.add_right_comm ..
  relationshipsArchived := Nat.add_right_comm ..
  strengthsAdjusted := Nat.add_right_comm ..
  pressuresChanged := Nat.add_right_comm ..
  droppedTags := by
    simp only [add_def, CommitReport.add]
    rw [h, List.append_nil, List.append_nil]
  skipped := by
    simp only [add_def, CommitReport.add]
    rw [List.append_assoc, List.append_assoc]
    exact List.perm_append_comm.append_left _

end Alike

end CommitReport

namespace Commit

/-- The same world, with reports that are alike. -/
def Alike (c c' : Commit) : Prop := c.1 = c'.1 ∧ c.2.Alike c'.2

theorem Alike.refl (c : Commit) : Alike c c := ⟨rfl, .refl _⟩

theorem Alike.trans {c c' c'' : Commit} (h : Alike c c') (h' : Alike c' c'') : Alike c c'' :=
  ⟨h.1.trans h'.1, h.2.trans h'.2⟩

namespace Step

theorem run_alike {c c' : Commit} (h : Alike c c') (s : Step) : Alike (run c s) (run c' s) := by
  obtain ⟨w, report⟩ := c
  obtain ⟨w', report'⟩ := c'
  obtain ⟨rfl, hreport⟩ : w = w' ∧ _ := h
  rw [run_eq, run_eq]
  exact ⟨rfl, hreport.add_right _⟩

theorem foldl_alike : ∀ (l : List Step) {c c' : Commit}, Alike c c' →
    Alike (l.foldl run c) (l.foldl run c')
  | [], _, _, h => h
  | s :: l, _, _, h => foldl_alike l (run_alike h s)

/-- Only edits drop tags. -/
theorem noted_droppedTags (w : World) {s : Step} (hs : 0 < s.phase) :
    (noted w s).droppedTags = [] := by
  cases s with
  | edit e => exact absurd hs (Nat.lt_irrefl 0)
  | link r =>
    cases href : w.refusal? r with
    | some why => rw [noted_link_refused href]
    | none => rw [noted_link_taken href]
  | archive key => rfl
  | strength change => rfl
  | pressure change => rfl

/-! ## One step past another -/

/-- Whether every relationship of a world has the kind and the ends of one of a list. -/
def Within (known : List Relationship) (w : World) : Prop :=
  ∀ r ∈ w.relationships, ∃ r' ∈ known, ∀ k : RelationshipKey, k.covers r = k.covers r'

/-- Whether a step adds no relationship but those of a list. -/
def AddsOnly (known : List Relationship) (s : Step) : Prop := ∀ r, s = link r → r ∈ known

section Pass

variable {known : List Relationship}

theorem within_after {w : World} {s : Step} (hw : Within known w) (hs : s.AddsOnly known) :
    Within known (after w s) := by
  have hkey : ∀ k, s.key? = some k → Within known (after w s) := by
    intro k hk
    rw [after_of_key hk]
    intro r hr
    obtain ⟨r', hr', rfl⟩ := List.mem_map.1 hr
    obtain ⟨r₀, hr₀, hcovers⟩ := hw r' hr'
    exact ⟨r₀, hr₀, fun k => (key_covers_rewrite s r' k).trans (hcovers k)⟩
  cases s with
  | edit e =>
    unfold Within
    rw [after_edit_relationships]
    exact hw
  | link r =>
    cases href : w.refusal? r with
    | some why =>
      rw [after_link_refused href]
      exact hw
    | none =>
      rw [after_link_taken href]
      intro r' hr'
      rcases List.mem_append.1 hr' with hr' | hr'
      · exact hw r' hr'
      · rw [List.mem_singleton.1 hr']
        exact ⟨r, hs r rfl, fun _ => rfl⟩
  | archive key => exact hkey key rfl
  | strength change => exact hkey change.key rfl
  | pressure change => exact hw

/-- Whether a step can be passed by one of an earlier phase wherever all relationships are known. -/
structure Apart (known : List Relationship) (s t : Step) : Prop where
  phase : t.phase < s.phase
  link : ∀ r, t = link r → s.covers r = false
  both : ∀ r ∈ known, ¬ (s.covers r = true ∧ t.covers r = true)

theorem alike_swap {c : Commit} {s t : Step} (hw : Within known c.1) (h : Apart known s t) :
    Alike (run (run c s) t) (run (run c t) s) := by
  obtain ⟨w, report⟩ := c
  have hboth : ∀ r ∈ w.relationships, ¬ (s.covers r = true ∧ t.covers r = true) := by
    intro r hr
    obtain ⟨r', hr', hcovers⟩ := hw r hr
    unfold covers
    simp only [hcovers]
    exact h.both r' hr'
  have hswap := swaps h.phase h.link hboth
  simp only [run_eq]
  refine ⟨hswap.world, ?_⟩
  rw [hswap.left, hswap.right]
  exact .add_right_comm (noted_droppedTags w (Nat.zero_lt_of_lt h.phase))

theorem within_run {c : Commit} {s : Step} (hw : Within known c.1) (hs : s.AddsOnly known) :
    Within known (run c s).1 := by
  obtain ⟨w, report⟩ := c
  rw [run_eq]
  exact within_after hw hs

theorem within_foldl : ∀ (l : List Step) {c : Commit}, Within known c.1 →
    (∀ s ∈ l, s.AddsOnly known) → Within known (l.foldl run c).1
  | [], _, hw, _ => hw
  | s :: l, _, hw, hl => by
    rw [List.forall_mem_cons] at hl
    exact within_foldl l (within_run hw hl.1) hl.2

/-- A step passes a list of steps, one after the other. -/
theorem alike_pass (t : Step) : ∀ (l : List Step) {c : Commit}, Within known c.1 →
    (∀ s ∈ l, s.AddsOnly known) → (∀ s ∈ l, Apart known s t) →
      Alike (run (l.foldl run c) t) (l.foldl run (run c t))
  | [], _, _, _, _ => .refl _
  | s :: l, c, hw, hl, hapart => by
    rw [List.forall_mem_cons] at hl hapart
    have ih := alike_pass t l (within_run hw hl.1) hl.2 hapart.2
    exact ih.trans (foldl_alike l (alike_swap hw hapart.1))

theorem alike_pass_all : ∀ (early : List Step) {late : List Step} {c : Commit},
    Within known c.1 → (∀ s ∈ late, s.AddsOnly known) → (∀ t ∈ early, t.AddsOnly known) →
      (∀ s ∈ late, ∀ t ∈ early, Apart known s t) →
        Alike (early.foldl run (late.foldl run c)) (late.foldl run (early.foldl run c))
  | [], _, _, _, _, _, _ => .refl _
  | t :: early, late, c, hw, hlate, hearly, hapart => by
    rw [List.forall_mem_cons] at hearly
    have hpass := alike_pass t late hw hlate fun s hs => hapart s hs t List.mem_cons_self
    have ih := alike_pass_all early (within_run hw hearly.1) hlate hearly.2 fun s hs t' ht' =>
      hapart s hs t' (List.mem_cons_of_mem t ht')
    exact (foldl_alike early hpass).trans ih

/-- Two runs through the same phases can be taken phase by phase. -/
theorem alike_interleave {f g : ℕ → List Step} (hf : ∀ i, ∀ s ∈ f i, s.AddsOnly known)
    (hg : ∀ i, ∀ t ∈ g i, t.AddsOnly known)
    (hapart : ∀ i j, j < i → ∀ s ∈ f i, ∀ t ∈ g j, Apart known s t) :
    ∀ (phases : List ℕ) {c : Commit}, phases.Pairwise (· < ·) → Within known c.1 →
      Alike ((phases.flatMap g).foldl run ((phases.flatMap f).foldl run c))
        ((phases.flatMap fun i => f i ++ g i).foldl run c)
  | [], _, _, _ => .refl _
  | i :: phases, c, hsorted, hw => by
    rw [List.pairwise_cons] at hsorted
    simp only [List.flatMap_cons, List.foldl_append]
    have hwf := within_foldl (f i) hw (hf i)
    have hlate : ∀ s ∈ phases.flatMap f, s.AddsOnly known ∧ ∀ t ∈ g i, Apart known s t := by
      intro s hs
      obtain ⟨j, hj, hs⟩ := List.mem_flatMap.1 hs
      exact ⟨hf j s hs, hapart j i (hsorted.1 j hj) s hs⟩
    have hpass := alike_pass_all (g i) hwf (fun s hs => (hlate s hs).1) (hg i)
      fun s hs => (hlate s hs).2
    have ih := alike_interleave hf hg hapart phases hsorted.2 (within_foldl (g i) hwf (hg i))
    exact (foldl_alike _ hpass).trans ih

end Pass

/-- A run only adds to the report it starts with. -/
theorem foldl_run_report (w : World) : ∀ (l : List Step) (report : CommitReport),
    l.foldl run (w, report) = ((l.foldl run (w, {})).1, report + (l.foldl run (w, {})).2)
  | [], report => by
    rw [List.foldl_nil, List.foldl_nil, CommitReport.add_empty]
  | s :: l, report => by
    rw [List.foldl_cons, List.foldl_cons, run_eq, run_eq, foldl_run_report _ l,
      CommitReport.empty_add, foldl_run_report _ l (noted w s), CommitReport.add_assoc]

/-- What is noted in a run that goes on is added to what was noted before. -/
theorem foldl_run_append (w : World) (l l' : List Step) :
    ((l ++ l').foldl run (w, {})).2 =
      (l.foldl run (w, {})).2 + (l'.foldl run (l.foldl after w, {})).2 := by
  have hworld : (l.foldl run (w, {})).1 = l.foldl after w := foldl_run_fst l (w, {})
  rw [List.foldl_append, ← hworld]
  exact congrArg Prod.snd (foldl_run_report _ l' _)

theorem foldl_run_cons (w : World) (s : Step) (l : List Step) :
    ((s :: l).foldl run (w, {})).2 = noted w s + (l.foldl run (after w s, {})).2 :=
  foldl_run_append w [s] l

end Step

end Commit

open Commit

/-! ## Appended change sets -/

namespace ChangeSet

/-- The steps of a set that belong to a phase. -/
def stepsIn (c : ChangeSet) : ℕ → List Step
  | 0 => c.entityEdits.map .edit
  | 1 => c.newRelationships.map .link
  | 2 => c.archived.map .archive
  | 3 => c.strengthChanges.map .strength
  | 4 => c.pressureChanges.map .pressure
  | _ => []

variable {a b c : ChangeSet} {i : ℕ} {s : Step}

theorem steps_eq_flatMap (c : ChangeSet) : c.steps = [0, 1, 2, 3, 4].flatMap c.stepsIn := by
  simp [steps, stepsIn]

theorem stepsIn_append (a b : ChangeSet) (i : ℕ) :
    (a ++ b).stepsIn i = a.stepsIn i ++ b.stepsIn i := by
  unfold stepsIn
  split
  · exact List.map_append
  · exact List.map_append
  · exact List.map_append
  · exact List.map_append
  · exact List.map_append
  · rfl

theorem phase_of_mem_stepsIn (h : s ∈ c.stepsIn i) : s.phase = i := by
  unfold stepsIn at h
  split at h
  · obtain ⟨e, -, rfl⟩ := List.mem_map.1 h
    rfl
  · obtain ⟨r, -, rfl⟩ := List.mem_map.1 h
    rfl
  · obtain ⟨key, -, rfl⟩ := List.mem_map.1 h
    rfl
  · obtain ⟨change, -, rfl⟩ := List.mem_map.1 h
    rfl
  · obtain ⟨change, -, rfl⟩ := List.mem_map.1 h
    rfl
  · cases h

theorem mem_of_link_mem_stepsIn {r : Relationship} (h : .link r ∈ c.stepsIn i) :
    r ∈ c.newRelationships := by
  have hi : 1 = i := phase_of_mem_stepsIn h
  subst hi
  simpa [stepsIn] using h

theorem mem_of_archive_mem_stepsIn {key : RelationshipKey} (h : .archive key ∈ c.stepsIn i) :
    key ∈ c.archived := by
  have hi : 2 = i := phase_of_mem_stepsIn h
  subst hi
  simpa [stepsIn] using h

theorem mem_of_strength_mem_stepsIn {change : StrengthChange}
    (h : .strength change ∈ c.stepsIn i) : change ∈ c.strengthChanges := by
  have hi : 3 = i := phase_of_mem_stepsIn h
  subst hi
  simpa [stepsIn] using h

/-- What keeps two sets apart in one commit: the first leaves alone what the second adds, and the
second archives nothing that the first moves. -/
structure Separate (known : List Relationship) (a b : ChangeSet) : Prop where
  archived : ∀ r ∈ b.newRelationships, ∀ key ∈ a.archived, key.covers r = false
  strength : ∀ r ∈ b.newRelationships, ∀ change ∈ a.strengthChanges, change.key.covers r = false
  both : ∀ r ∈ known, ∀ change ∈ a.strengthChanges, ∀ key ∈ b.archived,
    ¬ (change.key.covers r = true ∧ key.covers r = true)

theorem Separate.apart {known : List Relationship} (h : a.Separate known b) {j : ℕ} {t : Step}
    (hji : j < i) (hs : s ∈ a.stepsIn i) (ht : t ∈ b.stepsIn j) : Step.Apart known s t := by
  have hphase : t.phase < s.phase := by
    rw [phase_of_mem_stepsIn hs, phase_of_mem_stepsIn ht]
    exact hji
  refine ⟨hphase, ?_, ?_⟩
  · rintro r rfl
    have hr := mem_of_link_mem_stepsIn ht
    cases s with
    | archive key => exact h.archived r hr key (mem_of_archive_mem_stepsIn hs)
    | strength change => exact h.strength r hr change (mem_of_strength_mem_stepsIn hs)
    | _ => rfl
  · rintro r hr ⟨hsr, htr⟩
    -- A step that rewrites relationships, and an earlier one that does, move and archive.
    cases s with
    | strength change =>
      cases t with
      | archive key =>
        exact h.both r hr change (mem_of_strength_mem_stepsIn hs) key
          (mem_of_archive_mem_stepsIn ht) ⟨hsr, htr⟩
      | strength change' => exact absurd hphase (Nat.lt_irrefl 3)
      | _ => cases htr
    | archive key =>
      cases t with
      | archive key' => exact absurd hphase (Nat.lt_irrefl 2)
      | strength change' => exact absurd hphase (by simp [Step.phase])
      | _ => cases htr
    | _ => cases hsr

end ChangeSet

/-- Committing an appended set is committing the one and then the other: the world comes out the
same, and the report is the two reports added up, but for the order of the reasons. -/
theorem World.commit_append (w : World) (a b : ChangeSet)
    (separate : a.Separate (w.relationships ++ a.newRelationships ++ b.newRelationships) b) :
    (w.commit (a ++ b)).1 = ((w.commit a).1.commit b).1
      ∧ (w.commit (a ++ b)).2.Alike ((w.commit a).2 + ((w.commit a).1.commit b).2) := by
  have hwithin : Step.Within (w.relationships ++ a.newRelationships ++ b.newRelationships) w :=
    fun r hr => ⟨r, List.mem_append_left _ (List.mem_append_left _ hr), fun _ => rfl⟩
  have ha : ∀ i, ∀ s ∈ a.stepsIn i,
      s.AddsOnly (w.relationships ++ a.newRelationships ++ b.newRelationships) := by
    rintro i s hs r rfl
    exact List.mem_append_left _ (List.mem_append_right _ (ChangeSet.mem_of_link_mem_stepsIn hs))
  have hb : ∀ i, ∀ t ∈ b.stepsIn i,
      t.AddsOnly (w.relationships ++ a.newRelationships ++ b.newRelationships) := by
    rintro i t ht r rfl
    exact List.mem_append_right _ (ChangeSet.mem_of_link_mem_stepsIn ht)
  have hrun := Step.alike_interleave ha hb (fun i j hji s hs t ht => separate.apart hji hs ht)
    [0, 1, 2, 3, 4] (by decide) (c := (w, {})) hwithin
  have hsteps : (a ++ b).steps = [0, 1, 2, 3, 4].flatMap fun i => a.stepsIn i ++ b.stepsIn i := by
    rw [ChangeSet.steps_eq_flatMap, funext (ChangeSet.stepsIn_append a b)]
  rw [← hsteps, ← ChangeSet.steps_eq_flatMap, ← ChangeSet.steps_eq_flatMap,
    ← World.commit_eq_foldl, ← World.commit_eq_foldl,
    Step.foldl_run_report (w.commit a).1 b.steps (w.commit a).2, ← World.commit_eq_foldl] at hrun
  exact ⟨hrun.1.symm, hrun.2.symm⟩

namespace Sample

/-- Cat comes to know Bob, Bob loses touch with her, and someone unknown leaves. -/
def meeting : ChangeSet where
  entityEdits := [.setStatus ⟨9⟩ "gone", .setStatus ann.id "away"]
  newRelationships := [{ knows cat bob with catalyzedBy := some ann.id }]
  archived := [{ kind := "knows", entity := bob.id, other := cat.id, direction := .src }]
  strengthChanges := [{
    key := { kind := "knows", entity := ann.id, other := bob.id, direction := .src }
    delta := 0.25 }]

/-- Ann is marked, Bob comes to know her and she nobody, and Cat loses touch with him. -/
def parting : ChangeSet where
  entityEdits := [.setTag ann.id "host" (.flag true)]
  newRelationships := [knows bob ann, { knows ann bob with dst := ⟨9⟩ }]
  archived := [{ kind := "knows", entity := cat.id, other := bob.id, direction := .src }]

theorem commit_meeting_parting :
    (village.commit (meeting ++ parting)).1 = ((village.commit meeting).1.commit parting).1 :=
  (World.commit_append village meeting parting
    ⟨by decide +kernel, by decide +kernel, by decide +kernel⟩).1

end Sample

end StoryWorld

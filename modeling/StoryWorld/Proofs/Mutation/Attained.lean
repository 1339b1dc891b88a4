import StoryWorld.Proofs.Filter.AsCondition
import StoryWorld.Proofs.Mutation.Prepared
import StoryWorld.Proofs.World.Written

/-!
# Mutations bring about what conditions ask for

Most mutations have something they aim at: a test that is to be passed at one of their references.
Mutations write and conditions read, each in its own way, and they agree: when the changes of a
prepared mutation are committed, the tests that it aims at are passed in the new world, whatever was
there before and however the references are put. The one exception is a tag that an entity has no
room for, and then the commit says so (`Mutation.aims_attained`).

The new world is looked at from any scope in which `$self` and the variables stand for the same ids.
A reference then means what it meant, as far as ids tell (`NamesAlike.map_id_resolve`).
-/

namespace StoryWorld

namespace Scope

/-- The id of the entity that a variable stands for. -/
def boundId? (s : Scope) (name : String) : Option EntityId :=
  ((s.binding? name).bind Binding.entity?).map (·.id)

/-- Whether `$self` and the variables stand for the same ids in two scopes. -/
structure NamesAlike (s s' : Scope) : Prop where
  self : s'.self?.map (·.id) = s.self?.map (·.id)
  boundId : ∀ name, s'.boundId? name = s.boundId? name

namespace NamesAlike

variable {s s' : Scope} (h : s.NamesAlike s') (good : s.world.WellFormed)
  (good' : s'.world.WellFormed) (hcontains : ∀ id, s'.world.contains id = s.world.contains id)

include h good good' hcontains

theorem map_id_resolve (reference : String) :
    (s'.resolve reference).map (·.id) = (s.resolve reference).map (·.id) := by
  unfold Scope.resolve
  simp only
  split
  · exact h.self
  · split
    · exact h.boundId _
    · cases EntityId.ofReference? (Text.trim reference) with
      | none => rfl
      | some id =>
        rw [Option.bind_some, Option.bind_some, good.map_id_entity?, good'.map_id_entity?,
          hcontains]

theorem exists_resolve {reference : String} {e : Entity} (he : s.resolve reference = some e) :
    ∃ e', s'.resolve reference = some e' ∧ e'.id = e.id := by
  have hid := h.map_id_resolve good good' hcontains reference
  rw [he, Option.map_some] at hid
  exact Option.map_eq_some_iff.1 hid

end NamesAlike

end Scope

/-- Counting the relationships with a partner finds some when the two are linked. -/
theorem Incidence.count_pos_iff {scope : Scope} {e : Entity} {kind reference : String}
    {direction : Direction} {other : Entity} (hother : scope.resolve reference = some other) :
    0 < Incidence.count { kind := some kind, direction, partner := some reference } scope e ↔
      scope.world.Linked kind direction e.id other.id := by
  have hadmits := Filter.admits_hasRelationship scope e kind (some reference) direction
  simp only [Filter.admits, hother, Option.any_some] at hadmits
  exact decide_eq_true_iff.symm.trans (by rw [← hadmits, World.hasRelationship_iff])

theorem Test.prominence_passed_self (ctx : Context) (e : Entity) :
    ((prominence { min := some e.prominence, max := some e.prominence }).run ctx (some e)).passed
      = true := by
  have hself : e.prominence ≤ e.prominence := Nat.le_refl _
  simp [run, hself]

namespace Mutation

/-- What a mutation is to bring about: tests, each with the reference at which it is to be
passed. -/
def aims (scope : Scope) : Mutation → List (String × Test)
  | setTag reference tag value => [(reference, .tagExists none tag (some value))]
  | removeTag reference tag => [(reference, .tagAbsent none tag)]
  | changeStatus reference status => [(reference, .status status false)]
  | adjustProminence reference delta =>
    let level := (scope.resolve reference).map fun e =>
      Prominence.ofRank (max 0 (min 4 (e.prominence.rank + delta.toInt)))
    [(reference, .prominence { min := level, max := level })]
  | createRelationship kind src dst _ _ bidirectional =>
    let linked (a b : String) : String × Test :=
      (a, .relationshipExists { kind := some kind, direction := .src, partner := some b })
    if bidirectional then [linked src dst, linked dst src] else [linked src dst]
  | archiveRelationship reference partner kind direction =>
    [(reference, .relationshipCount { kind := some kind, direction, partner := some partner }
      { max := some 0 })]
  | adjustStrength _ _ _ _ | modifyPressure _ _ | unrecognized _ => []

theorem resolve_of_ready {m : Mutation} {scope : Scope} {reference : String}
    {prepare : Entity → MutationResult} {r : MutationResult}
    (hr : m.withEntity scope reference prepare = r) (ready : r.skipped = []) :
    ∃ e, scope.resolve reference = some e ∧ prepare e = r := by
  unfold withEntity at hr
  cases he : scope.resolve reference with
  | none =>
    rw [he] at hr
    rw [← hr] at ready
    cases ready
  | some e =>
    rw [he] at hr
    exact ⟨e, rfl, hr⟩

/-- Whether a test is passed at what has become of the entity that its reference meant. When a tag
was dropped it is not. -/
def Attained (ctx after : Context) (report : CommitReport) (aim : String × Test) : Prop :=
  ∃ e new, ctx.resolve aim.1 = some e ∧ after.world.entity? e.id = some new
    ∧ (aim.2.run after (some new)).passed = report.droppedTags.isEmpty

section Attained

variable {ctx after : Context}

/-- What is passed at an edited entity is attained by an edit that is made. -/
theorem attained_edit {edit : EntityEdit} {reference : String} {e : Entity} {t : Test}
    (he : ctx.resolve reference = some e) (hx : ctx.world.entity? e.id = some e)
    (hid : edit.entity = e.id) (hfits : Commit.refusedTag? ctx.world.tagCap e edit = none)
    (hafter : after.world = (ctx.world.commit { entityEdits := [edit] }).1)
    (ht : (t.run after (some (Commit.touched ctx.world.tick edit e))).passed = true) :
    (ctx.world.commit { entityEdits := [edit] }).2.droppedTags = []
      ∧ Attained ctx after (ctx.world.commit { entityEdits := [edit] }).2 (reference, t) := by
  rw [← hid] at hx
  have hnew := World.entity?_commit_edit hx hfits
  have hreport := congrArg (·.2) (World.commit_edit_made hx hfits)
  rw [hreport]
  rw [← hafter, hid] at hnew
  exact ⟨rfl, e, _, he, hnew, ht⟩

section Links

variable (good : ctx.world.WellFormed) (grounded : ctx.toScope.Grounded)
  (alike : ctx.toScope.NamesAlike after.toScope) {a b : Entity} {reference partner : String}
  (ha : ctx.resolve reference = some a) (hb : ctx.resolve partner = some b)

include good grounded alike ha hb

/-- After a commit there still is the entity that a reference meant, and its relationships with
what another one meant are the links between the two. -/
theorem exists_count_pos_iff {changes : ChangeSet}
    (hafter : after.world = (ctx.world.commit changes).1) :
    ∃ new, after.world.entity? a.id = some new ∧ ∀ kind direction,
      0 < Incidence.count { kind := some kind, direction, partner := some partner }
          after.toScope new ↔
        after.world.Linked kind direction a.id b.id := by
  have hhere := grounded.contains_of_resolve good ha
  obtain ⟨new, hnew, hnewid⟩ := good.exists_entity?_commit changes hhere
  rw [← hafter] at hnew
  have good' : after.world.WellFormed := hafter ▸ good.commit changes
  have hcontains : ∀ id, after.world.contains id = ctx.world.contains id := by
    rw [hafter]
    exact World.contains_commit ctx.world changes
  obtain ⟨other, hother, hotherid⟩ := alike.exists_resolve good good' hcontains hb
  refine ⟨new, hnew, fun kind direction => ?_⟩
  rw [Incidence.count_pos_iff hother, hnewid, hotherid]

variable {kind : String} {direction : Direction}

/-- A new relationship is found from its source. -/
theorem attained_link {l : List Relationship}
    (hl : ChangeSet.Grounded { newRelationships := l } ctx.world)
    (hafter : after.world = (ctx.world.commit { newRelationships := l }).1)
    (hr : ∃ r ∈ l, r.kind = kind ∧ r.Leads a.id b.id .src) :
    Attained ctx after (ctx.world.commit { newRelationships := l }).2 (reference,
      .relationshipExists { kind := some kind, direction := .src, partner := some partner }) := by
  have hlinked : after.world.Linked kind .src a.id b.id := by
    rw [hafter]
    exact (World.linked_commit_links hl).2 (.inr hr)
  obtain ⟨new, hnew, hcount⟩ := exists_count_pos_iff good grounded alike ha hb hafter
  refine ⟨a, new, ha, hnew, ?_⟩
  rw [Test.relationshipExists_passed, good.droppedTags_commit hl rfl,
    decide_eq_true ((hcount kind .src).2 hlinked)]
  rfl

/-- What was archived is no longer found. -/
theorem attained_archive
    (hafter : after.world =
      (ctx.world.commit { archived := [⟨kind, a.id, b.id, direction⟩] }).1) :
    Attained ctx after (ctx.world.commit { archived := [⟨kind, a.id, b.id, direction⟩] }).2
      (reference, .relationshipCount
        { kind := some kind, direction, partner := some partner } { max := some 0 }) := by
  have hgone : ¬ after.world.Linked kind direction a.id b.id := by
    rw [hafter]
    exact World.not_linked_after_archive ⟨kind, a.id, b.id, direction⟩
  obtain ⟨new, hnew, hcount⟩ := exists_count_pos_iff good grounded alike ha hb hafter
  refine ⟨a, new, ha, hnew, ?_⟩
  rw [Test.relationshipCount_none_passed,
    decide_eq_false fun hpos => hgone ((hcount kind direction).1 hpos)]
  rfl

end Links

/-- Whether no tag was dropped or else the one that the mutation sets. -/
def Drops (scope : Scope) (m : Mutation) (dropped : List (EntityId × String)) : Prop :=
  dropped = [] ∨ ∃ reference tag value e, m = .setTag reference tag value
    ∧ scope.resolve reference = some e ∧ dropped = [(e.id, tag)]

theorem attained_of_ready (good : ctx.world.WellFormed) (grounded : ctx.toScope.Grounded)
    (alike : ctx.toScope.NamesAlike after.toScope) (m : Mutation) {r : MutationResult}
    (hr : m.prepare ctx.toScope = r) (ready : r.skipped = [])
    (hafter : after.world = (ctx.world.commit r.changes).1) :
    Drops ctx.toScope m (ctx.world.commit r.changes).2.droppedTags
      ∧ ∀ aim ∈ m.aims ctx.toScope, Attained ctx after (ctx.world.commit r.changes).2 aim := by
  have hfound {reference : String} {e : Entity} (he : ctx.resolve reference = some e) :
      ctx.world.entity? e.id = some e :=
    good.entity?_eq_some_iff.2 ⟨grounded.mem_of_resolve good he, rfl⟩
  have hgrounded : r.changes.Grounded ctx.world := hr ▸ (m.prepares good grounded).grounded
  cases m with
  | setTag reference tag value =>
    simp only [prepare] at hr
    obtain ⟨e, he, rfl⟩ := resolve_of_ready hr ready
    -- The one edit that may not be made: then the entity has no such tag, with whatever value.
    cases hfits : Commit.refusedTag? ctx.world.tagCap e (.setTag e.id tag value) with
    | none =>
      have h := attained_edit he (hfound he) rfl hfits hafter
        (t := .tagExists none tag (some value))
        (Commit.hasTagValue_touched_setTag _ e e.id tag value)
      exact ⟨.inl h.1, List.forall_mem_singleton.2 h.2⟩
    | some refused =>
      obtain ⟨rfl, hlacks⟩ := Commit.hasTagValue_of_refusedTag? hfits
      have hcommit := World.commit_edit_refused (hfound he) hfits
      rw [hcommit] at hafter ⊢
      exact ⟨.inr ⟨reference, refused, value, e, rfl, he, rfl⟩, List.forall_mem_singleton.2
        ⟨e, e, he, hafter ▸ hfound he, hlacks⟩⟩
  | removeTag reference tag =>
    simp only [prepare] at hr
    obtain ⟨e, he, rfl⟩ := resolve_of_ready hr ready
    have h := attained_edit he (hfound he) rfl rfl hafter (t := .tagAbsent none tag)
      (congrArg (!·) (Commit.hasTag_touched_removeTag _ e e.id tag))
    exact ⟨.inl h.1, List.forall_mem_singleton.2 h.2⟩
  | changeStatus reference status =>
    simp only [prepare] at hr
    obtain ⟨e, he, rfl⟩ := resolve_of_ready hr ready
    have h := attained_edit he (hfound he) rfl rfl hafter (t := .status status false)
      (by simp [Test.run, Commit.touched, Commit.edited])
    exact ⟨.inl h.1, List.forall_mem_singleton.2 h.2⟩
  | adjustProminence reference delta =>
    simp only [prepare] at hr
    obtain ⟨e, he, rfl⟩ := resolve_of_ready hr ready
    have h := attained_edit he (hfound he) rfl rfl hafter (Test.prominence_passed_self after _)
    simp only [aims, he, Option.map_some, Prominence.ofRank_clamp]
    exact ⟨.inl h.1, List.forall_mem_singleton.2 h.2⟩
  | createRelationship kind src dst strength category bidirectional =>
    simp only [prepare] at hr
    obtain ⟨a, ha, hr⟩ := resolve_of_ready hr ready
    obtain ⟨b, hb, rfl⟩ := resolve_of_ready hr ready
    refine ⟨.inl (good.droppedTags_commit hgrounded rfl), ?_⟩
    cases bidirectional with
    | false =>
      exact List.forall_mem_singleton.2 (attained_link good grounded alike ha hb hgrounded hafter
        ⟨_, List.mem_cons_self, rfl, rfl, rfl⟩)
    | true =>
      refine List.forall_mem_cons.2 ⟨?_, List.forall_mem_singleton.2 ?_⟩
      · exact attained_link good grounded alike ha hb hgrounded hafter
          ⟨_, List.mem_cons_self, rfl, rfl, rfl⟩
      · exact attained_link good grounded alike hb ha hgrounded hafter
          ⟨_, List.mem_cons_of_mem _ List.mem_cons_self, rfl, rfl, rfl⟩
  | archiveRelationship reference partner kind direction =>
    simp only [prepare] at hr
    obtain ⟨a, ha, hr⟩ := resolve_of_ready hr ready
    obtain ⟨b, hb, rfl⟩ := resolve_of_ready hr ready
    refine ⟨.inl (good.droppedTags_commit hgrounded rfl), List.forall_mem_singleton.2 ?_⟩
    exact attained_archive good grounded alike ha hb hafter
  | adjustStrength src dst kind delta =>
    simp only [prepare] at hr
    obtain ⟨a, ha, hr⟩ := resolve_of_ready hr ready
    obtain ⟨b, hb, rfl⟩ := resolve_of_ready hr ready
    exact ⟨.inl (good.droppedTags_commit hgrounded rfl), List.forall_mem_nil _⟩
  | modifyPressure pressure delta =>
    simp only [prepare] at hr
    subst hr
    exact ⟨.inl (good.droppedTags_commit hgrounded rfl), List.forall_mem_nil _⟩
  | unrecognized typeName =>
    simp only [prepare] at hr
    subst hr
    cases ready

end Attained

end Mutation

namespace Sample

/-- Ann and Cat get to know each other, both ways. -/
def introduction : Mutation :=
  .createRelationship "knows" "$self" "00000000-0000-0000-0000-000000000003" none none true

def introduced : World := (village.commit (introduction.prepare annsView.toScope).changes).1

/-- The village with Ann in the place of `$self`, once she and Cat have been introduced. -/
def annsNewView : Context :=
  { annsView with world := introduced, self? := introduced.entity? ann.id }

end Sample

end StoryWorld

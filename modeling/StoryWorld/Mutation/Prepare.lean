import StoryWorld.Decimal.Layout
import StoryWorld.Mutation.Basic

/-!
# Preparing mutations

Every reference of a mutation has to mean an entity; otherwise the mutation is skipped, with a
reason, and the others of its list are prepared all the same. New relationships are attributed to
`$self`. Changes are merged in the order of the mutations.
-/

namespace StoryWorld

/-- What preparing mutations came to, and whether it has been committed with any effect. -/
structure MutationResult where
  applied : Bool := false
  diagnostic : String
  changes : ChangeSet := {}
  /-- The reasons of mutations that propose nothing. -/
  skipped : List String := []

namespace MutationResult

def toDatum (r : MutationResult) : Datum :=
  .object [
    ("applied", .bool r.applied),
    ("diagnostic", .text r.diagnostic),
    ("changes", r.changes.toDatum),
    ("skipped", .ofList .text r.skipped)]

def ofDatum? (d : Datum) : Option MutationResult := do
  let fields ← d.asRecord .json ["applied", "diagnostic", "changes", "skipped"]
  return {
    applied := ← fields.required "applied" Datum.asBool
    diagnostic := ← fields.required "diagnostic" Datum.asText
    changes := ← fields.required "changes" ChangeSet.ofDatum?
    skipped := ← fields.required "skipped" (Datum.asList Datum.asText) }

/-- The result of a mutation that cannot be prepared. -/
def ofSkipped (reason : String) : MutationResult := { diagnostic := reason, skipped := [reason] }

/-- Commits the changes, and notes whether that had an effect. -/
def commit (r : MutationResult) (w : World) : MutationResult × World × CommitReport :=
  let (w, report) := w.commit r.changes
  ({ r with applied := report.anyChange }, w, report)

end MutationResult

namespace Mutation

/-- The relationship a mutation creates. -/
def edge (kind : String) (src dst : Entity) (strength : Option Float) (category : Option String)
    (catalyst : Option Entity) : Relationship where
  kind
  src := src.id
  dst := dst.id
  strength := strength.map clampUnit
  category
  catalyzedBy := catalyst.map (·.id)

/-- Why a mutation cannot be prepared: one of its references means nothing. -/
def unresolved (m : Mutation) (reference : String) : MutationResult :=
  .ofSkipped s!"{m.typeName}: cannot resolve '{reference}'"

/-- Prepares a change of the entity a reference means. -/
def withEntity (m : Mutation) (scope : Scope) (reference : String)
    (prepare : Entity → MutationResult) : MutationResult :=
  match scope.resolve reference with
  | none => m.unresolved reference
  | some e => prepare e

def prepare (scope : Scope) (m : Mutation) : MutationResult :=
  match m with
  | setTag reference tag value =>
    m.withEntity scope reference fun e =>
      { diagnostic := s!"set tag '{tag}' on {e.name}"
        changes := { entityEdits := [.setTag e.id tag value] } }
  | removeTag reference tag =>
    m.withEntity scope reference fun e =>
      { diagnostic := s!"remove tag '{tag}' from {e.name}"
        changes := { entityEdits := [.removeTag e.id tag] } }
  | changeStatus reference status =>
    m.withEntity scope reference fun e =>
      { diagnostic := s!"{e.name}: {e.status} -> {status}"
        changes := { entityEdits := [.setStatus e.id status] } }
  | adjustProminence reference delta =>
    m.withEntity scope reference fun e =>
      let shifted := e.prominence.shift delta.toInt
      { diagnostic := s!"{e.name}: {e.prominence} -> {shifted}"
        changes := { entityEdits := [.shiftProminence e.id delta] } }
  | createRelationship kind src dst strength category bidirectional =>
    m.withEntity scope src fun a => m.withEntity scope dst fun b =>
      let forth := edge kind a b strength category scope.self?
      let back := edge kind b a strength category scope.self?
      let arrow := if bidirectional then "<->" else "->"
      { diagnostic := s!"{a.name} {kind} {arrow} {b.name}"
        changes := { newRelationships := if bidirectional then [forth, back] else [forth] } }
  | archiveRelationship reference partner kind direction =>
    m.withEntity scope reference fun a => m.withEntity scope partner fun b =>
      { diagnostic := s!"archive {kind} between {a.name} and {b.name}"
        changes := { archived := [⟨kind, a.id, b.id, direction⟩] } }
  | adjustStrength src dst kind delta =>
    m.withEntity scope src fun a => m.withEntity scope dst fun b =>
      let deltaText := Decimal.writeSigned delta
      { diagnostic := s!"{a.name} {kind} -> {b.name} strength {deltaText}"
        changes := { strengthChanges := [⟨⟨kind, a.id, b.id, .src⟩, delta⟩] } }
  | modifyPressure pressure delta =>
    let deltaText := Decimal.writeSigned delta
    { diagnostic := s!"pressure '{pressure}' {deltaText}"
      changes := { pressureChanges := [⟨pressure, delta⟩] } }
  | unrecognized typeName => .ofSkipped s!"unrecognized mutation type '{typeName}'"

/-- Prepares mutations in order and merges their changes. -/
def prepareAll (scope : Scope) (mutations : List Mutation) : MutationResult :=
  let results := mutations.map (prepare scope)
  let skipped := results.flatMap (·.skipped)
  let prepared := mutations.length - skipped.length
  { diagnostic := s!"prepared {prepared} of {mutations.length} mutation(s)"
    changes := results.foldl (fun changes r => changes ++ r.changes) {}
    skipped }

end Mutation

end StoryWorld

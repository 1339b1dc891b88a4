import StoryWorld.Mutation.Prepare
import StoryWorld.Proofs.Datum.Respelled
import StoryWorld.Proofs.Reference
import StoryWorld.Proofs.RuleSet.Saved

/-!
# Saved world data

Entities, relationships, change sets and the results of mutations are saved as JSON values. As long
as their floats are finite nothing is lost, and whatever has been read from a JSON value has finite
floats (`saved_data_survives`). Every type of record says how it may be spelled: in which order its
values are listed, which may be left out, for which value, and where a direction may go by another
name. Its reader respects that.
-/

namespace StoryWorld

/-! ## Scalars -/

namespace EntityId

@[simp]
theorem jsonValue_toDatum (id : EntityId) : id.toDatum.JsonValue := .text _

@[simp]
theorem toDatum_ne_null (id : EntityId) : id.toDatum ≠ .null := nofun

@[simp]
theorem ofDatum?_toDatum (id : EntityId) : ofDatum? id.toDatum = some id := ofText?_toString id

end EntityId

@[simp]
theorem TagValue.jsonValue_toDatum (v : TagValue) : v.toDatum.JsonValue := by
  cases v <;> simp [toDatum]

@[simp]
theorem Prominence.jsonValue_toDatum (p : Prominence) : p.toDatum.JsonValue := .text _

@[simp]
theorem RelationshipStatus.ofName?_name (s : RelationshipStatus) : ofName? s.name = some s := by
  cases s <;> rfl

namespace Direction

/-- The other names of directions. -/
inductive Respelled : Datum → Datum → Prop
  | same (d : Datum) : Respelled d d
  | out : Respelled (.text "src") (.text "out")
  | into : Respelled (.text "dst") (.text "in")
  | any : Respelled (.text "both") (.text "any")

theorem respects (setting : Datum.Setting) :
    Datum.Respects (ofDatum? setting) Respelled := by
  rintro _ _ (_ | _ | _ | _) <;> rfl

end Direction

/-! ## Entities -/

namespace Point

def floats (p : Point) : List Float := [p.x, p.y, p.z]

def spelling : Spelling where
  known := ["x", "y", "z"]
  spare
    | "z" => some (.float 0)
    | _ => none

@[simp]
theorem jsonValue_toDatum (p : Point) : p.toDatum.JsonValue := by simp [toDatum]

theorem ofDatum?_toDatum {p : Point} (finite : AllFinite p.floats) :
    ofDatum? p.toDatum = some p := by
  simp only [AllFinite, floats, List.forall_mem_cons] at finite
  refine (Datum.conveys_record p.jsonValue_toDatum.settled fun fields h => ?_).read_eq
  simp only [Fields.holds_cons] at h
  simp [Fields.required, Fields.withDefault, h, finite]

theorem asOptional_toDatum {o : Option Point} (finite : ∀ p ∈ o, AllFinite p.floats) :
    Datum.asOptional ofDatum? (some (.ofOption toDatum o)) = some o := by
  cases o with
  | none => rfl
  | some p =>
    show (ofDatum? p.toDatum).map some = some (some p)
    rw [ofDatum?_toDatum (finite p rfl), Option.map_some]

theorem respects : Datum.Respects ofDatum? spelling.Respelled := by
  refine Spelling.respects fun same => ?_
  rw [same.required "x" (by decide) rfl (Datum.respects_eq _),
    same.required "y" (by decide) rfl (Datum.respects_eq _),
    same.withDefault "z" (by decide) 0 rfl (Datum.respects_eq Datum.asFloat) rfl]

theorem yields_allFinite : Datum.Yields ofDatum? fun p => AllFinite p.floats := by
  refine Datum.yields_record fun values p hp => ?_
  simp only [Option.bind_eq_bind, Option.bind_eq_some_iff] at hp
  obtain ⟨x, hx, y, hy, z, hz, hp⟩ := hp
  cases hp
  simp only [AllFinite, floats, List.forall_mem_cons]
  exact ⟨Datum.yields_asFloat.required values hx, Datum.yields_asFloat.required values hy,
    Datum.yields_asFloat.withDefault values (by decide) hz, List.forall_mem_nil _⟩

end Point

namespace CatalyzedEvent

def spelling : Spelling where
  known := ["tick", "description", "relationship_kind"]
  spare
    | "relationship_kind" => some .null
    | _ => none

@[simp]
theorem jsonValue_toDatum (e : CatalyzedEvent) : e.toDatum.JsonValue := by simp [toDatum]

@[simp]
theorem ofDatum?_toDatum (e : CatalyzedEvent) : ofDatum? e.toDatum = some e := by
  refine (Datum.conveys_record e.jsonValue_toDatum.settled fun fields h => ?_).read_eq
  simp only [Fields.holds_cons] at h
  simp [Fields.required_eq _ h.1, Fields.required_eq _ h.2.1, Fields.optional_eq, h]

theorem respects : Datum.Respects ofDatum? spelling.Respelled := by
  refine Spelling.respects fun same => ?_
  rw [same.required "tick" (by decide) rfl (Datum.respects_eq _),
    same.required "description" (by decide) rfl (Datum.respects_eq _),
    same.optional "relationship_kind" (by decide) rfl (Datum.respects_eq _)]

end CatalyzedEvent

namespace Entity

def floats (e : Entity) : List Float := e.coordinates.toList.flatMap Point.floats

def spelling : Spelling where
  known := fieldNames
  spare
    | "prominence" => some (Prominence.toDatum .recognized)
    | "culture" => some (.text "")
    | "tags" => some (.object [])
    | "coordinates" => some .null
    | "catalyzed_events" => some (.list [])
    | "created_at" | "updated_at" => some (.ofNat 0)
    | _ => none
  told
    | "coordinates" => Datum.RespelledOption Point.spelling.Respelled
    | "catalyzed_events" => Datum.RespelledList CatalyzedEvent.spelling.Respelled
    | _ => Eq

@[simp]
theorem jsonValue_toDatum (e : Entity) : e.toDatum.JsonValue := by simp [toDatum]

theorem allFinite_floats {e : Entity} :
    AllFinite e.floats ↔ ∀ p ∈ e.coordinates, AllFinite p.floats := by
  simp only [AllFinite, floats, List.forall_mem_flatMap, Option.mem_toList, Option.mem_def]

theorem ofDatum?_toDatum {e : Entity} (finite : AllFinite e.floats) :
    ofDatum? e.toDatum = some e := by
  have htags : Datum.asTable TagValue.ofDatum? (.ofTable TagValue.toDatum e.tags) = some e.tags :=
    Datum.asTable_of_forall₂ (List.forall₂_map_right_iff.2 (List.forall₂_same.2 fun entry _ =>
      ⟨rfl, entry.2.ofDatum?_toDatum⟩))
  have hcoordinates := Point.asOptional_toDatum (allFinite_floats.1 finite)
  have hevents :=
    Datum.asList_ofList fun event (_ : event ∈ e.catalyzedEvents) => event.ofDatum?_toDatum
  refine (Datum.conveys_record e.jsonValue_toDatum.settled fun fields h => ?_).read_eq
  simp only [Fields.holds_cons] at h
  simp [Fields.required, Fields.withDefault, Fields.optional_eq, h, htags, hcoordinates, hevents]

theorem respects : Datum.Respects ofDatum? spelling.Respelled := by
  refine Spelling.respects fun same => ?_
  rw [same.required "id" (by decide) rfl (Datum.respects_eq _),
    same.required "kind" (by decide) rfl (Datum.respects_eq _),
    same.required "subtype" (by decide) rfl (Datum.respects_eq _),
    same.required "name" (by decide) rfl (Datum.respects_eq _),
    same.required "status" (by decide) rfl (Datum.respects_eq _),
    same.withDefault "prominence" (by decide) .recognized rfl (Datum.respects_eq Prominence.ofDatum?)
      (Prominence.ofDatum?_toDatum .recognized),
    same.withDefault "culture" (by decide) "" rfl (Datum.respects_eq Datum.asText) rfl,
    same.withDefault "tags" (by decide) {} rfl
      (Datum.respects_eq (Datum.asTable TagValue.ofDatum?)) rfl,
    same.optional "coordinates" (by decide) rfl Point.respects.option,
    same.withDefault "catalyzed_events" (by decide) [] rfl CatalyzedEvent.respects.list rfl,
    same.withDefault "created_at" (by decide) 0 rfl (Datum.respects_eq Datum.asUInt64) rfl,
    same.withDefault "updated_at" (by decide) 0 rfl (Datum.respects_eq Datum.asUInt64) rfl]

theorem yields_allFinite : Datum.Yields ofDatum? fun e => AllFinite e.floats := by
  refine Datum.yields_record fun values e he => ?_
  simp only [Option.bind_eq_bind, Option.bind_eq_some_iff] at he
  obtain ⟨_, _, _, _, _, _, _, _, _, _, _, _, _, _, _, _, coordinates, hcoordinates, _, _, _, _, _,
    _, he⟩ := he
  cases he
  exact allFinite_floats.2 (Point.yields_allFinite.optional values hcoordinates)

end Entity

/-! ## Relationships -/

namespace Relationship

def floats (r : Relationship) : List Float := r.strength.toList ++ r.distance.toList

def spelling : Spelling where
  known := fieldNames
  spare
    | "strength" | "category" | "distance" | "catalyzed_by" => some .null
    | "status" => some (RelationshipStatus.toDatum .active)
    | "created_at" => some (.ofNat 0)
    | _ => none

@[simp]
theorem jsonValue_toDatum (r : Relationship) : r.toDatum.JsonValue := by simp [toDatum]

theorem allFinite_floats {r : Relationship} : AllFinite r.floats ↔
    (∀ x, r.strength = some x → x.isFinite = true)
      ∧ ∀ x, r.distance = some x → x.isFinite = true := by
  simp only [AllFinite, floats, List.mem_append, Option.mem_toList, or_imp, forall_and]

theorem ofDatum?_toDatum {r : Relationship} (finite : AllFinite r.floats) :
    ofDatum? r.toDatum = some r := by
  obtain ⟨hstrength, hdistance⟩ := allFinite_floats.1 finite
  have hcatalyst : Datum.asOptional EntityId.ofDatum?
      (some (.ofOption EntityId.toDatum r.catalyzedBy)) = some r.catalyzedBy :=
    Datum.asOptional_ofOption EntityId.ofDatum?_toDatum EntityId.toDatum_ne_null _
  refine (Datum.conveys_record r.jsonValue_toDatum.settled fun fields h => ?_).read_eq
  simp only [Fields.holds_cons] at h
  simp [Fields.required, Fields.withDefault, Fields.optional_eq, h, hcatalyst,
    Datum.asOptional_float hstrength, Datum.asOptional_float hdistance]

theorem respects : Datum.Respects ofDatum? spelling.Respelled := by
  refine Spelling.respects fun same => ?_
  rw [same.required "kind" (by decide) rfl (Datum.respects_eq _),
    same.required "src" (by decide) rfl (Datum.respects_eq _),
    same.required "dst" (by decide) rfl (Datum.respects_eq _),
    same.optional "strength" (by decide) rfl (Datum.respects_eq _),
    same.optional "category" (by decide) rfl (Datum.respects_eq _),
    same.optional "distance" (by decide) rfl (Datum.respects_eq _),
    same.withDefault "status" (by decide) .active rfl
      (Datum.respects_eq (RelationshipStatus.ofDatum? .json)) rfl,
    same.optional "catalyzed_by" (by decide) rfl (Datum.respects_eq _),
    same.withDefault "created_at" (by decide) 0 rfl (Datum.respects_eq Datum.asUInt64) rfl]

theorem yields_allFinite : Datum.Yields ofDatum? fun r => AllFinite r.floats := by
  refine Datum.yields_record fun values r hr => ?_
  simp only [Option.bind_eq_bind, Option.bind_eq_some_iff] at hr
  obtain ⟨_, _, _, _, _, _, strength, hstrength, _, _, distance, hdistance, _, _, _, _, _, _, hr⟩ :=
    hr
  cases hr
  exact allFinite_floats.2 ⟨Datum.yields_asFloat.optional values hstrength,
    Datum.yields_asFloat.optional values hdistance⟩

end Relationship

/-! ## Change sets -/

namespace EntityEdit

@[simp]
theorem jsonValue_toDatum (c : EntityEdit) : c.toDatum.JsonValue := by cases c <;> simp [toDatum]

@[simp]
theorem ofDatum?_toDatum (c : EntityEdit) : ofDatum? c.toDatum = some c := by
  rw [ofDatum?, c.jsonValue_toDatum.settled.whole?_eq]
  cases c <;>
    simp [toDatum, Datum.tagText?, Datum.tag?, Datum.asRecord_of_nodup, Fields.required,
      List.lookup_cons]

end EntityEdit

namespace RelationshipKey

def spelling : Spelling where
  known := ["kind", "entity", "other", "direction"]
  told
    | "direction" => Direction.Respelled
    | _ => Eq

@[simp]
theorem jsonValue_toDatum (k : RelationshipKey) : k.toDatum.JsonValue := by simp [toDatum]

@[simp]
theorem ofDatum?_toDatum (k : RelationshipKey) : ofDatum? k.toDatum = some k := by
  refine (Datum.conveys_record k.jsonValue_toDatum.settled fun fields h => ?_).read_eq
  simp only [Fields.holds_cons] at h
  simp [Fields.required, h]

theorem respects : Datum.Respects ofDatum? spelling.Respelled := by
  refine Spelling.respects fun same => ?_
  rw [same.required "kind" (by decide) rfl (Datum.respects_eq _),
    same.required "entity" (by decide) rfl (Datum.respects_eq _),
    same.required "other" (by decide) rfl (Datum.respects_eq _),
    same.required "direction" (by decide) rfl (Direction.respects .json)]

end RelationshipKey

namespace StrengthChange

def spelling : Spelling where
  known := ["key", "delta"]
  told
    | "key" => RelationshipKey.spelling.Respelled
    | _ => Eq

@[simp]
theorem jsonValue_toDatum (c : StrengthChange) : c.toDatum.JsonValue := by simp [toDatum]

theorem ofDatum?_toDatum {c : StrengthChange} (finite : c.delta.isFinite = true) :
    ofDatum? c.toDatum = some c := by
  refine (Datum.conveys_record c.jsonValue_toDatum.settled fun fields h => ?_).read_eq
  simp only [Fields.holds_cons] at h
  simp [Fields.required, h, finite]

theorem respects : Datum.Respects ofDatum? spelling.Respelled := by
  refine Spelling.respects fun same => ?_
  rw [same.required "key" (by decide) rfl RelationshipKey.respects,
    same.required "delta" (by decide) rfl (Datum.respects_eq _)]

theorem yields_isFinite : Datum.Yields ofDatum? fun c => c.delta.isFinite = true := by
  refine Datum.yields_record fun values c hc => ?_
  simp only [Option.bind_eq_bind, Option.bind_eq_some_iff] at hc
  obtain ⟨_, _, delta, hdelta, hc⟩ := hc
  cases hc
  exact Datum.yields_asFloat.required values hdelta

end StrengthChange

namespace PressureChange

def spelling : Spelling where
  known := ["pressure_id", "delta"]

@[simp]
theorem jsonValue_toDatum (c : PressureChange) : c.toDatum.JsonValue := by simp [toDatum]

theorem ofDatum?_toDatum {c : PressureChange} (finite : c.delta.isFinite = true) :
    ofDatum? c.toDatum = some c := by
  refine (Datum.conveys_record c.jsonValue_toDatum.settled fun fields h => ?_).read_eq
  simp only [Fields.holds_cons] at h
  simp [Fields.required, h, finite]

theorem respects : Datum.Respects ofDatum? spelling.Respelled := by
  refine Spelling.respects fun same => ?_
  rw [same.required "pressure_id" (by decide) rfl (Datum.respects_eq _),
    same.required "delta" (by decide) rfl (Datum.respects_eq _)]

theorem yields_isFinite : Datum.Yields ofDatum? fun c => c.delta.isFinite = true := by
  refine Datum.yields_record fun values c hc => ?_
  simp only [Option.bind_eq_bind, Option.bind_eq_some_iff] at hc
  obtain ⟨_, _, delta, hdelta, hc⟩ := hc
  cases hc
  exact Datum.yields_asFloat.required values hdelta

end PressureChange

namespace ChangeSet

def floats (c : ChangeSet) : List Float :=
  c.newRelationships.flatMap Relationship.floats ++ c.strengthChanges.map (·.delta)
    ++ c.pressureChanges.map (·.delta)

def spelling : Spelling where
  known := fieldNames
  told
    | "new_relationships" => Datum.RespelledList Relationship.spelling.Respelled
    | "archived_relationships" => Datum.RespelledList RelationshipKey.spelling.Respelled
    | "strength_changes" => Datum.RespelledList StrengthChange.spelling.Respelled
    | "pressure_changes" => Datum.RespelledList PressureChange.spelling.Respelled
    | _ => Eq

theorem allFinite_floats {c : ChangeSet} : AllFinite c.floats ↔
    (∀ r ∈ c.newRelationships, AllFinite r.floats)
      ∧ (∀ s ∈ c.strengthChanges, s.delta.isFinite = true)
      ∧ ∀ p ∈ c.pressureChanges, p.delta.isFinite = true := by
  simp only [AllFinite, floats, List.forall_mem_append, List.forall_mem_flatMap,
    List.forall_mem_map, and_assoc]

@[simp]
theorem jsonValue_toDatum (c : ChangeSet) : c.toDatum.JsonValue := by simp [toDatum]

theorem ofDatum?_toDatum {c : ChangeSet} (finite : AllFinite c.floats) :
    ofDatum? c.toDatum = some c := by
  obtain ⟨hrelationships, hstrengths, hpressures⟩ := allFinite_floats.1 finite
  have hedits' := Datum.asList_ofList fun e (_ : e ∈ c.entityEdits) => e.ofDatum?_toDatum
  have hrelationships' := Datum.asList_ofList fun r hr =>
    Relationship.ofDatum?_toDatum (hrelationships r hr)
  have harchived' := Datum.asList_ofList fun k (_ : k ∈ c.archived) => k.ofDatum?_toDatum
  have hstrengths' := Datum.asList_ofList fun s hs =>
    StrengthChange.ofDatum?_toDatum (hstrengths s hs)
  have hpressures' := Datum.asList_ofList fun p hp =>
    PressureChange.ofDatum?_toDatum (hpressures p hp)
  refine (Datum.conveys_record c.jsonValue_toDatum.settled fun fields h => ?_).read_eq
  simp only [Fields.holds_cons] at h
  simp [Fields.required, h, hedits', hrelationships', harchived', hstrengths', hpressures']

theorem respects : Datum.Respects ofDatum? spelling.Respelled := by
  refine Spelling.respects fun same => ?_
  rw [same.required "entity_changes" (by decide) rfl (Datum.respects_eq _),
    same.required "new_relationships" (by decide) rfl Relationship.respects.list,
    same.required "archived_relationships" (by decide) rfl RelationshipKey.respects.list,
    same.required "strength_changes" (by decide) rfl StrengthChange.respects.list,
    same.required "pressure_changes" (by decide) rfl PressureChange.respects.list]

theorem yields_allFinite : Datum.Yields ofDatum? fun c => AllFinite c.floats := by
  refine Datum.yields_record fun values c hc => ?_
  simp only [Option.bind_eq_bind, Option.bind_eq_some_iff] at hc
  obtain ⟨_, _, relationships, hrelationships, _, _, strengths, hstrengths, pressures, hpressures,
    hc⟩ := hc
  cases hc
  exact allFinite_floats.2
    ⟨(Datum.yields_asList Relationship.yields_allFinite).required values hrelationships,
      (Datum.yields_asList StrengthChange.yields_isFinite).required values hstrengths,
      (Datum.yields_asList PressureChange.yields_isFinite).required values hpressures⟩

end ChangeSet

namespace MutationResult

def floats (r : MutationResult) : List Float := r.changes.floats

def spelling : Spelling where
  known := ["applied", "diagnostic", "changes", "skipped"]
  told
    | "changes" => ChangeSet.spelling.Respelled
    | _ => Eq

theorem jsonValue_toDatum (r : MutationResult) : r.toDatum.JsonValue := by simp [toDatum]

theorem ofDatum?_toDatum {r : MutationResult} (finite : AllFinite r.floats) :
    ofDatum? r.toDatum = some r := by
  have hchanges := ChangeSet.ofDatum?_toDatum finite
  refine (Datum.conveys_record r.jsonValue_toDatum.settled fun fields h => ?_).read_eq
  simp only [Fields.holds_cons] at h
  simp [Fields.required, h, hchanges]

theorem respects : Datum.Respects ofDatum? spelling.Respelled := by
  refine Spelling.respects fun same => ?_
  rw [same.required "applied" (by decide) rfl (Datum.respects_eq _),
    same.required "diagnostic" (by decide) rfl (Datum.respects_eq _),
    same.required "changes" (by decide) rfl ChangeSet.respects,
    same.required "skipped" (by decide) rfl (Datum.respects_eq _)]

theorem yields_allFinite : Datum.Yields ofDatum? fun r => AllFinite r.floats := by
  refine Datum.yields_record fun values r hr => ?_
  simp only [Option.bind_eq_bind, Option.bind_eq_some_iff] at hr
  obtain ⟨_, _, _, _, changes, hchanges, _, _, hr⟩ := hr
  cases hr
  exact ChangeSet.yields_allFinite.required values hchanges

end MutationResult

/-! ## Saving -/

/-- What it is for the things of a kind to survive being saved. What one is written as is a JSON
value and is read as the same thing, also when it is told in other words. Whatever a JSON value is
read as is written as data that stays what it is when it is read and written again. -/
structure Survives {α : Type} (write : α → Datum) (read : Datum → Option α) (floats : α → List Float)
    (respelled : Datum → Datum → Prop) : Prop where
  value : ∀ a, (write a).JsonValue
  back : ∀ a, AllFinite (floats a) → read (write a) = some a
  respelled : ∀ a d, AllFinite (floats a) → respelled (write a) d → read d = some a
  settles : ∀ d a, d.JsonValue → read d = some a →
    AllFinite (floats a) ∧ (read (write a)).map write = some (write a)

theorem survives {α : Type} {write : α → Datum} {read : Datum → Option α} {floats : α → List Float}
    {respelled : Datum → Datum → Prop} (value : ∀ a, (write a).JsonValue)
    (back : ∀ {a}, AllFinite (floats a) → read (write a) = some a)
    (respects : Datum.Respects read respelled)
    (yields : Datum.Yields read fun a => AllFinite (floats a)) :
    Survives write read floats respelled where
  value := value
  back _ := back
  respelled _ _ finite told := (respects _ _ told).trans (back finite)
  settles d a hd ha := by
    have finite := yields d hd a ha
    exact ⟨finite, by rw [back finite, Option.map_some]⟩

/-- The data with some fields replaced. -/
def Datum.replace (fields : Fields) : Datum → Datum
  | .object old => .object ((old.filter fun field => (fields.lookup field.1).isNone) ++ fields)
  | d => d

theorem Datum.replace_nil (d : Datum) : d.replace [] = d := by
  cases d with
  | object old => simp [replace]
  | _ => rfl

/-- Entities, relationships, change sets and the results of mutations survive being saved. In
particular an entity stays what it is when it is read again with none of its fields replaced. -/
theorem saved_data_survives :
    Survives Entity.toDatum Entity.ofDatum? Entity.floats Entity.spelling.Respelled
      ∧ Survives Relationship.toDatum Relationship.ofDatum? Relationship.floats
        Relationship.spelling.Respelled
      ∧ Survives ChangeSet.toDatum ChangeSet.ofDatum? ChangeSet.floats ChangeSet.spelling.Respelled
      ∧ Survives MutationResult.toDatum MutationResult.ofDatum? MutationResult.floats
        MutationResult.spelling.Respelled
      ∧ ∀ e : Entity, AllFinite e.floats → Entity.ofDatum? (e.toDatum.replace []) = some e := by
  refine ⟨survives Entity.jsonValue_toDatum Entity.ofDatum?_toDatum Entity.respects
      Entity.yields_allFinite,
    survives Relationship.jsonValue_toDatum Relationship.ofDatum?_toDatum Relationship.respects
      Relationship.yields_allFinite,
    survives ChangeSet.jsonValue_toDatum ChangeSet.ofDatum?_toDatum ChangeSet.respects
      ChangeSet.yields_allFinite,
    survives MutationResult.jsonValue_toDatum MutationResult.ofDatum?_toDatum
      MutationResult.respects MutationResult.yields_allFinite, fun e finite => ?_⟩
  rw [Datum.replace_nil, Entity.ofDatum?_toDatum finite]

namespace Sample

def hut : Entity where
  id := ann.id
  kind := "place"
  subtype := "hut"
  name := "Hut"
  coordinates := some ⟨1, 2, 0⟩

/-- The hut with everything left out that can be, and its coordinates listed. -/
def hutInShort : Datum := .object [
  ("id", ann.id.toDatum), ("kind", .text "place"), ("subtype", .text "hut"), ("name", .text "Hut"),
  ("status", .text "active"), ("coordinates", .list [.float 1, .float 2])]

theorem hutInShort_respelled : Entity.spelling.Respelled hut.toDatum hutInShort := by
  have hplace : Point.spelling.Respelled (Point.toDatum ⟨1, 2, 0⟩)
      (.list [.float 1, .float 2]) := by
    refine .intro (.object (by simp)) (.list (by decide)) (List.forall_mem_cons.2 ⟨.some rfl, ?_⟩)
    exact List.forall_mem_cons.2 ⟨.some rfl, List.forall_mem_singleton.2 (.some rfl)⟩
  have hcoordinates : Datum.RespelledOption Point.spelling.Respelled (Point.toDatum ⟨1, 2, 0⟩)
      (.list [.float 1, .float 2]) := .some nofun nofun hplace
  refine .intro (.object (by simp)) (.object (by simp)) ?_
  simp only [Spelling.SaysSame, Entity.spelling, Entity.fieldNames, List.forall_mem_cons]
  exact ⟨.some rfl, .some rfl, .some rfl, .some rfl, .some rfl, .some rfl, .some rfl, .some rfl,
    .some hcoordinates, .some (.list .nil), .some rfl, .some rfl, nofun⟩

def parted : RelationshipKey := ⟨"knows", ann.id, cat.id, .both⟩

def strained : StrengthChange := ⟨⟨"knows", ann.id, bob.id, .src⟩, -0.5⟩

def fallout : ChangeSet where
  newRelationships := [knows ann bob]
  archived := [parted]
  strengthChanges := [strained]

def keyInShort (other : Entity) (direction : String) : Datum := .object [
  ("kind", .text "knows"), ("entity", ann.id.toDatum), ("other", other.id.toDatum),
  ("direction", .text direction)]

/-- The fallout, with everything left out that can be, the directions that path steps say and the
new relationship listed. -/
def falloutInShort : Datum := .object [
  ("entity_changes", .list []),
  ("new_relationships", .list [.list [.text "knows", ann.id.toDatum, bob.id.toDatum]]),
  ("archived_relationships", .list [keyInShort cat "any"]),
  ("strength_changes", .list [.object [
    ("key", keyInShort bob "out"), ("delta", .float (-0.5))]]),
  ("pressure_changes", .list [])]

theorem falloutInShort_respelled : ChangeSet.spelling.Respelled fallout.toDatum falloutInShort := by
  have hknows : Relationship.spelling.Respelled (knows ann bob).toDatum
      (.list [.text "knows", ann.id.toDatum, bob.id.toDatum]) := by
    refine .intro (.object (by simp)) (.list (by decide)) ?_
    simp only [Spelling.SaysSame, Relationship.spelling, Relationship.fieldNames,
      List.forall_mem_cons]
    exact ⟨.some rfl, .some rfl, .some rfl, .some rfl, .some rfl, .some rfl, .some rfl, .some rfl,
      .some rfl, nofun⟩
  have hkey : ∀ (other : Entity) (direction : Direction) (told : String),
      Direction.Respelled direction.toDatum (.text told) →
        RelationshipKey.spelling.Respelled
          (RelationshipKey.toDatum ⟨"knows", ann.id, other.id, direction⟩)
          (keyInShort other told) := by
    intro other direction told htold
    refine .intro (.object (by simp)) (.object (by simp)) ?_
    simp only [Spelling.SaysSame, RelationshipKey.spelling, List.forall_mem_cons]
    exact ⟨.some rfl, .some rfl, .some rfl, .some htold, nofun⟩
  have hstrained : StrengthChange.spelling.Respelled strained.toDatum
      (.object [("key", keyInShort bob "out"), ("delta", .float (-0.5))]) := by
    refine .intro (.object (by simp)) (.object (by simp)) ?_
    simp only [Spelling.SaysSame, StrengthChange.spelling, List.forall_mem_cons]
    exact ⟨.some (hkey bob .src "out" .out), .some rfl, nofun⟩
  refine .intro (.object (by simp)) (.object (by simp)) ?_
  simp only [Spelling.SaysSame, ChangeSet.spelling, ChangeSet.fieldNames, List.forall_mem_cons]
  exact ⟨.some rfl, .some (.list (.cons hknows .nil)),
    .some (.list (.cons (hkey cat .both "any" .any) .nil)), .some (.list (.cons hstrained .nil)),
    .some (.list .nil), nofun⟩

/-- Told in short, the hut and the fallout are what they are. -/
theorem hut_and_fallout_survive :
    Entity.ofDatum? hutInShort = some hut
      ∧ Entity.ofDatum? (hut.toDatum.replace []) = some hut
      ∧ ChangeSet.ofDatum? falloutInShort = some fallout
      ∧ (ChangeSet.ofDatum? fallout.toDatum).map ChangeSet.toDatum = some fallout.toDatum := by
  obtain ⟨entities, -, changes, -, reread⟩ := saved_data_survives
  have finite : AllFinite hut.floats := by decide
  have finite' : AllFinite fallout.floats := by decide
  refine ⟨entities.respelled hut hutInShort finite hutInShort_respelled, reread hut finite,
    changes.respelled fallout falloutInShort finite' falloutInShort_respelled, ?_⟩
  rw [changes.back fallout finite', Option.map_some]

end Sample

end StoryWorld

import StoryWorld.Proofs.Datum.Update
import StoryWorld.Proofs.RuleSet.Saved

/-!
# Unknown types are contained

A rule of an unknown type does not touch the rule around it. Wherever the data of a rule has the
data of a node of that rule, an object of a type that the node's family does not have can take its
place: the rule is read all the same, with that node unrecognized and everything else as it was. An
object of a known type is never let off like that. None of this depends on which of the rules around
the node, and which path assertions, are objects and which are given as lists.
-/

namespace StoryWorld

/-! ## Reading families -/

/-- The type that data names, if it can be taken whole. -/
def Datum.typeName? (d : Datum) : Option String := d.settled?.bind (getText? "type")

namespace Family

/-- Reads settled data as a rule of a family. -/
def readSettled? : Family → Datum → Option Node
  | condition, d => (Condition.ofSettled? d).map .condition
  | metric, d =>
    (d.readSettled Metric.typeNames (fun _ => none) .unrecognized Metric.ofFields?).map .metric
  | filter, d =>
    (d.readSettled Filter.typeNames Filter.fieldNames? .unrecognized Filter.ofFields?).map .filter
  | mutation, d =>
    (d.readSettled Mutation.typeNames Mutation.fieldNames? .unrecognized Mutation.ofFields?).map
      .mutation
  | pathConstraint, d =>
    (d.readSettled PathConstraint.typeNames PathConstraint.fieldNames? .unrecognized
      PathConstraint.ofFields?).map .constraint

/-- Reads data as a rule of a family. -/
def read? : Family → Datum → Option Node
  | condition, d => (Condition.ofDatum? d).map .condition
  | metric, d => (Metric.ofDatum? d).map .metric
  | filter, d => (Filter.ofDatum? d).map .filter
  | mutation, d => (Mutation.ofDatum? d).map .mutation
  | pathConstraint, d => (PathConstraint.ofDatum? d).map .constraint

theorem read?_eq (family : Family) (d : Datum) :
    family.read? d = d.settled?.bind family.readSettled? := by
  cases hd : d.settled? <;> cases family <;>
    simp [read?, readSettled?, Condition.ofDatum?, Metric.ofDatum?, Filter.ofDatum?,
      Mutation.ofDatum?, PathConstraint.ofDatum?, Datum.readRule, hd]

end Family

/-! ## Types of what is read -/

theorem Test.typeName_of_ofFields? {type : String} {fields : Fields} {t : Test}
    (h : ofFields? type fields = some t) : t.typeName = type := by
  unfold ofFields? at h
  split at h <;>
    simp only [Option.pure_def, Option.bind_eq_bind, Option.bind_eq_some_iff, Option.some.injEq,
      reduceCtorEq] at h <;>
    grind [typeName]

theorem Measure.typeName_of_ofFields? {type : String} {fields : Fields} {m : Measure}
    (h : ofFields? type fields = some m) : m.typeName = type := by
  unfold ofFields? at h
  split at h <;>
    simp only [Option.pure_def, Option.bind_eq_bind, Option.bind_eq_some_iff, Option.some.injEq,
      reduceCtorEq] at h <;>
    grind [typeName]

theorem Condition.typeName_of_ofFields? {conditions : Option (List Condition)} {type : String}
    {fields : Fields} {c : Condition} (h : ofFields? conditions type fields = some c) :
    c.typeName = type ∧ ∀ typeName, c ≠ unrecognized typeName := by
  unfold ofFields? at h
  split at h <;> obtain ⟨a, ha, h⟩ := Option.bind_eq_some_iff.1 h <;> cases h
  case h_5 => exact ⟨a.typeName_of_ofFields? ha, nofun⟩
  all_goals exact ⟨rfl, nofun⟩

theorem Metric.typeName_of_ofFields? {type : String} {fields : Fields} {m : Metric}
    (h : ofFields? type fields = some m) :
    m.typeName = type ∧ ∀ typeName, m ≠ unrecognized typeName := by
  obtain ⟨measure, hmeasure, h⟩ := Option.bind_eq_some_iff.1 h
  obtain ⟨scale, -, h⟩ := Option.bind_eq_some_iff.1 h
  cases h
  exact ⟨measure.typeName_of_ofFields? hmeasure, nofun⟩

theorem Filter.typeName_of_ofFields? {type : String} {fields : Fields} {f : Filter}
    (h : ofFields? type fields = some f) :
    f.typeName = type ∧ ∀ typeName, f ≠ unrecognized typeName := by
  unfold ofFields? at h
  split at h <;>
    simp only [Option.pure_def, Option.bind_eq_bind, Option.bind_eq_some_iff, Option.some.injEq,
      reduceCtorEq] at h <;>
    grind [typeName]

theorem Mutation.typeName_of_ofFields? {type : String} {fields : Fields} {m : Mutation}
    (h : ofFields? type fields = some m) :
    m.typeName = type ∧ ∀ typeName, m ≠ unrecognized typeName := by
  unfold ofFields? at h
  split at h <;>
    simp only [Option.pure_def, Option.bind_eq_bind, Option.bind_eq_some_iff, Option.some.injEq,
      reduceCtorEq] at h <;>
    grind [typeName]

theorem PathConstraint.typeName_of_ofFields? {type : String} {fields : Fields} {k : PathConstraint}
    (h : ofFields? type fields = some k) :
    k.typeName = type ∧ ∀ typeName, k ≠ unrecognized typeName := by
  unfold ofFields? at h
  split at h <;>
    simp only [Option.pure_def, Option.bind_eq_bind, Option.bind_eq_some_iff, Option.some.injEq,
      reduceCtorEq] at h <;>
    grind [typeName]

namespace Datum

theorem getText?_eq_some_iff {d : Datum} {name s : String} : d.getText? name = some s ↔
    ∃ fields, d = .object fields ∧ List.lookup name fields = some (.text s) := by
  cases d with
  | object fields =>
    cases hd : List.lookup name fields with
    | none => simp [getText?, get?, hd]
    | some e => cases e <;> simp [getText?, get?, hd]
  | _ => simp [getText?, get?]

section Settled

variable {α : Type} {known : List String} {order : String → Option (List String)}
  {unrecognized : String → α} {read : String → Fields → Option α} {d : Datum} {type : String}
  {fields : Fields} {a : α}

/-- An object of an unknown type is kept under its type. -/
theorem readSettled_of_notMem (h : d.getText? "type" = some type) (hknown : type ∉ known) :
    readSettled known order unrecognized read d = some (unrecognized type) := by
  obtain ⟨fields, rfl, htype⟩ := getText?_eq_some_iff.1 h
  rw [readSettled_object htype, if_neg hknown]

/-- Readers read a rule alike that agree on its fields. -/
theorem readSettled_congr {read' : String → Fields → Option α}
    (h : ∀ type fields, d.asRule order = some (type, fields) →
      read type fields = read' type fields) :
    readSettled known order unrecognized read d =
      readSettled known order unrecognized read' d := by
  refine Option.bind_congr fun rule hrule => ?_
  obtain ⟨type, fields⟩ := rule
  dsimp only
  rw [h type fields hrule]

/-- A rule of a known type is read from the fields that its type has. -/
theorem readSettled_eq_some_iff {typeName : α → String}
    (hread : ∀ type fields a, read type fields = some a → typeName a = type)
    (hknown : ∀ type, a ≠ unrecognized type) :
    readSettled known order unrecognized read d = some a ↔
      ∃ fields, d.asRule order = some (typeName a, fields) ∧ typeName a ∈ known
        ∧ read (typeName a) fields = some a := by
  constructor
  · intro h
    obtain ⟨⟨type, fields⟩, hrule, h⟩ := Option.bind_eq_some_iff.1 h
    dsimp only at h
    split at h
    · rename_i hmem
      obtain rfl := hread type fields a h
      exact ⟨fields, hrule, hmem, h⟩
    · cases h
      exact absurd rfl (hknown type)
  · rintro ⟨fields, hrule, hmem, h⟩
    rw [readSettled, hrule, Option.bind_eq_bind, Option.bind_some]
    exact (if_pos hmem).trans h

/-- From settled data, a rule has settled fields with different names. -/
theorem settled_of_asRule {names : List String} (htype : order type = some names)
    (hnames : names.Nodup) (hsettled : d.Settled) (h : d.asRule order = some (type, fields)) :
    (object fields).Settled := by
  rcases asRule_eq_some h with ⟨rfl, -⟩ | ⟨items, names', rfl, htype', hfields⟩
  · exact hsettled
  · cases htype.symm.trans htype'
    have hitems : ∀ e ∈ items, e.Settled := fun e he =>
      settled_list.1 hsettled e (List.mem_cons_of_mem _ he)
    exact settled_of_asRecord hnames (.list hitems) hfields

/-- In a rule with a single field that field can be rewritten. -/
theorem asRule_updateOnly {name : String} {f : Datum → Datum} (htype : order type = some [name])
    (hname : name ≠ "type") (hsettled : d.Settled) (h : d.asRule order = some (type, fields)) :
    (object fields).Settled ∧
      (d.updateField name 1 f).asRule order = some (type, Fields.update name f fields) :=
  ⟨settled_of_asRule htype (List.nodup_singleton name) hsettled h,
    asRule_updateField htype hname (List.nodup_singleton name) rfl h⟩

/-- From an object of a known type, only what its type has is read. -/
theorem exists_of_readSettled (h : readSettled known order unrecognized read d = some a)
    (htype : d.getText? "type" = some type) (hknown : type ∈ known) :
    ∃ fields, read type fields = some a := by
  obtain ⟨fields, rfl, hlookup⟩ := getText?_eq_some_iff.1 htype
  rw [readSettled_object hlookup, if_pos hknown] at h
  exact ⟨fields, h⟩

end Settled

end Datum

namespace Condition

theorem subconditions?_eq : ∀ fields : Fields, subconditions? fields =
    (List.lookup "conditions" fields).bind (Datum.asList ofSettled?)
  | [] => rfl
  | (name, d) :: fields => by
    rw [subconditions?, List.lookup_cons]
    split
    · rename_i hname
      subst hname
      cases d <;> simp [listed?, Datum.asList, ofItems?_eq]
    · rename_i hname
      rw [beq_false_of_ne (Ne.symm hname)]
      exact subconditions?_eq fields

/-- Only combinations have sub-conditions. -/
theorem ofFields?_congr {type : String} {fields : Fields} {parts parts' : Option (List Condition)}
    (h : type = "and" ∨ type = "or" → parts = parts') :
    ofFields? parts type fields = ofFields? parts' type fields := by
  unfold ofFields?
  split
  · rfl
  · rfl
  · rw [h (.inl rfl)]
  · rw [h (.inr rfl)]
  · rfl

/-- The list that follows the type is the only field of a combination. -/
theorem secondListed?_eq {type : String} {names : List String} {items : List Datum}
    {fields : Fields} (htype : type = "and" ∨ type = "or") (hnames : fieldNames? type = some names)
    (hfields : Datum.asRecord .whole names (.list items) = some fields) :
    secondListed? (.text type :: items) = subconditions? fields := by
  have hconditions : names = ["conditions"] := by
    rcases htype with rfl | rfl <;> exact (Option.some.inj hnames).symm
  obtain ⟨-, hfields⟩ := Option.ite_none_right_eq_some.1 hfields
  subst hconditions
  cases hfields
  cases items <;> rfl

/-- A condition is read from its type and its fields, and its parts are among the fields. -/
theorem ofSettled?_eq (d : Datum) : ofSettled? d =
    d.readSettled typeNames fieldNames? unrecognized
      fun type fields => ofFields? (subconditions? fields) type fields := by
  cases d with
  | object fields =>
    rw [ofSettled?]
    refine Datum.readSettled_congr fun type fields' hrule => ?_
    rcases Datum.asRule_eq_some hrule with ⟨heq, -⟩ | ⟨_, _, heq, -⟩
    · cases heq
      rfl
    · cases heq
  | list items =>
    rw [ofSettled?]
    refine Datum.readSettled_congr fun type fields hrule => ?_
    rcases Datum.asRule_eq_some hrule with ⟨heq, -⟩ | ⟨rest, names, heq, hnames, hfields⟩
    · cases heq
    · cases heq
      exact ofFields?_congr fun htype => secondListed?_eq htype hnames hfields
  | _ => rfl

theorem ofSettled?_of_notMem {d : Datum} {type : String} (h : d.getText? "type" = some type)
    (hknown : type ∉ typeNames) : ofSettled? d = some (.unrecognized type) := by
  rw [ofSettled?_eq]
  exact Datum.readSettled_of_notMem h hknown

/-- A recognized condition is read from the fields that its type has. -/
theorem ofSettled?_eq_some_iff {d : Datum} {c : Condition}
    (hknown : ∀ typeName, c ≠ unrecognized typeName) : ofSettled? d = some c ↔
      ∃ fields, d.asRule fieldNames? = some (c.typeName, fields) ∧ c.typeName ∈ typeNames
        ∧ ofFields? (subconditions? fields) c.typeName fields = some c := by
  rw [ofSettled?_eq]
  exact Datum.readSettled_eq_some_iff (fun _ _ _ h => (typeName_of_ofFields? h).1) hknown

theorem ofSettled?_eq_all_iff {d : Datum} {l : List Condition} : ofSettled? d = some (.all l) ↔
    ∃ fields, d.asRule fieldNames? = some ("and", fields) ∧ subconditions? fields = some l := by
  rw [ofSettled?_eq_some_iff (by simp)]
  simp [typeName, typeNames, ofFields?, Option.bind_eq_some_iff]

theorem ofSettled?_eq_any_iff {d : Datum} {l : List Condition} : ofSettled? d = some (.any l) ↔
    ∃ fields, d.asRule fieldNames? = some ("or", fields) ∧ subconditions? fields = some l := by
  rw [ofSettled?_eq_some_iff (by simp)]
  simp [typeName, typeNames, ofFields?, Option.bind_eq_some_iff]

theorem ofSettled?_eq_path_iff {d : Datum} {a : PathAssertion} :
    ofSettled? d = some (.path a) ↔
      ∃ fields, d.asRule fieldNames? = some ("graph_path", fields)
        ∧ fields.required "assert" (PathAssertion.ofDatum? .whole) = some a := by
  rw [ofSettled?_eq_some_iff (by simp)]
  simp [typeName, typeNames, ofFields?, Option.bind_eq_some_iff]

end Condition

/-! ## Replacing nodes in data and in rules -/

/-- The data of a rule with the list of its members in a slot rewritten. No rule of a family has
members in any other slots than these two. A list of a rule has the first field behind the type. -/
def Datum.updateSlot : Slot → (Datum → Datum) → Datum → Datum
  | .conditions, f, d => d.updateField "conditions" 1 f
  | .constraints, f, d => d.updateField "assert" 1 (updateField "where" 3 f)
  | _, _, d => d

/-- The data with the data of the node at an address replaced. -/
def Datum.graft (replacement : Datum) : Address → Datum → Datum
  | [], _ => replacement
  | p :: address, d => d.updateSlot p.slot (updateItem p.index (graft replacement address))

namespace Datum

theorem settle_updateSlot {f g : Datum → Datum} (hfg : ∀ d, (f d).settle = g d.settle) (slot : Slot)
    (d : Datum) : (d.updateSlot slot f).settle = d.settle.updateSlot slot g := by
  cases slot with
  | conditions => exact settle_updateField hfg _ _ d
  | constraints => exact settle_updateField (settle_updateField hfg _ _) _ _ d
  | _ => rfl

theorem isReadable_updateSlot {f : Datum → Datum}
    (hf : ∀ d, d.isReadable = true → (f d).isReadable = true) (slot : Slot) (d : Datum)
    (h : d.isReadable = true) : (d.updateSlot slot f).isReadable = true := by
  cases slot with
  | conditions => exact isReadable_updateField hf _ _ d h
  | constraints => exact isReadable_updateField (isReadable_updateField hf _ _) _ _ d h
  | _ => exact h

/-- Replacing data at an address leaves the names of every object as they stand, so the fields that
count are the same ones before and after. -/
theorem settle_graft (x : Datum) : ∀ (address : Address) (d : Datum),
    (graft x address d).settle = graft x.settle address d.settle
  | [], _ => rfl
  | p :: address, d => by
    rw [graft, graft]
    exact settle_updateSlot (settle_updateItem (settle_graft x address) p.index) _ d

theorem isReadable_graft {x : Datum} (hx : x.isReadable = true) : ∀ (address : Address) (d : Datum),
    d.isReadable = true → (graft x address d).isReadable = true
  | [], _, _ => hx
  | p :: address, d, h =>
    isReadable_updateSlot (isReadable_updateItem (isReadable_graft hx address) p.index) _ d h

theorem settled?_eq_some_iff {d e : Datum} :
    d.settled? = some e ↔ d.isReadable = true ∧ d.settle = e := by
  rw [settled?, whole?]
  split <;> simp_all

theorem settled?_graft {x y d e : Datum} (hx : x.settled? = some y) (hd : d.settled? = some e)
    (address : Address) : (graft x address d).settled? = some (graft y address e) := by
  obtain ⟨hxread, rfl⟩ := settled?_eq_some_iff.1 hx
  obtain ⟨hdread, rfl⟩ := settled?_eq_some_iff.1 hd
  exact settled?_eq_some_iff.2 ⟨isReadable_graft hxread address d hdread, settle_graft x address d⟩

end Datum

/-- The assertion with a constraint of an unknown type in place of one of its own. -/
def PathAssertion.forgetAt (typeName : String) (index : Nat) (a : PathAssertion) : PathAssertion :=
  { a with constraints := a.constraints.modify index fun _ => .unrecognized typeName }

/-- The condition with the node at an address replaced by one of an unknown type. -/
def Condition.forgetAt (typeName : String) : Address → Condition → Condition
  | [], _ => .unrecognized typeName
  | ⟨.conditions, i⟩ :: address, .all l => .all (l.modify i (forgetAt typeName address))
  | ⟨.conditions, i⟩ :: address, .any l => .any (l.modify i (forgetAt typeName address))
  | ⟨.constraints, i⟩ :: _, .path a => .path (a.forgetAt typeName i)
  | _ :: _, c => c

/-- The filter with the node at an address replaced by one of an unknown type. -/
def Filter.forgetAt (typeName : String) : Address → Filter → Filter
  | [], _ => .unrecognized typeName
  | ⟨.constraints, i⟩ :: _, .path a => .path (a.forgetAt typeName i)
  | _ :: _, f => f

/-- The rule with the node at an address replaced by one of an unknown type. -/
def Node.forgetAt (typeName : String) : Address → Node → Node
  | address, condition c => condition (c.forgetAt typeName address)
  | address, filter f => filter (f.forgetAt typeName address)
  | [], metric _ => metric (.unrecognized typeName)
  | [], mutation _ => mutation (.unrecognized typeName)
  | [], constraint _ => constraint (.unrecognized typeName)
  | _, n => n

/-! ## Reading what was grafted -/

/-- A node without members has nothing below it. -/
theorem Node.at?_of_no_members {m n : Node} {address : Address} (hm : ∀ slot, m.listed slot = [])
    (h : m.at? address = some n) : address = [] ∧ n = m := by
  cases address with
  | nil =>
    cases h
    exact ⟨rfl, rfl⟩
  | cons p address =>
    obtain ⟨k, hk, -⟩ := at?_cons_eq_some_iff.1 h
    simp [hm] at hk

namespace PathAssertion

/-- The constraints that an assertion lists are read with the replaced one. -/
theorem withDefault_where_update {fields : Fields} {y : Datum} {l : List PathConstraint} {i : Nat}
    {k : PathConstraint} {typeName : String} (hnames : (fields.map (·.1)).Nodup)
    (h : fields.withDefault "where" (Datum.asList PathConstraint.ofDatum?) [] = some l)
    (hi : l[i]? = some k) (hy : PathConstraint.ofDatum? y = some (.unrecognized typeName)) :
    Fields.withDefault (Fields.update "where" (Datum.updateItem i fun _ => y) fields) "where"
      (Datum.asList PathConstraint.ofDatum?) [] =
        some (l.modify i fun _ => .unrecognized typeName) := by
  rw [Fields.withDefault] at h
  rw [Fields.withDefault, Fields.lookup_update_self hnames]
  cases he : List.lookup "where" fields with
  | none =>
    -- an absent list reads as the empty one, which has no constraint to replace
    rw [he] at h
    cases h
    simp at hi
  | some e =>
    rw [he] at h
    cases e with
    | list items => exact Datum.readItems_modify h fun _ _ _ _ _ => hy
    | _ => cases h

theorem ofDatum?_forgetAt {d y : Datum} {a : PathAssertion} {i : Nat} {k : PathConstraint}
    {typeName : String} (hsettled : d.Settled) (h : ofDatum? .whole d = some a)
    (hi : a.constraints[i]? = some k)
    (hy : PathConstraint.ofDatum? y = some (.unrecognized typeName)) :
    ofDatum? .whole (d.updateField "where" 3 (Datum.updateItem i fun _ => y)) =
      some (a.forgetAt typeName i) := by
  obtain ⟨fields, hfields, h⟩ := Option.bind_eq_some_iff.1 h
  obtain ⟨check, hcheck, h⟩ := Option.bind_eq_some_iff.1 h
  obtain ⟨path, hpath, h⟩ := Option.bind_eq_some_iff.1 h
  obtain ⟨count, hcount, h⟩ := Option.bind_eq_some_iff.1 h
  obtain ⟨constraints, hwhere, h⟩ := Option.bind_eq_some_iff.1 h
  cases h
  have hknown : fieldNames.Nodup := by simp [fieldNames]
  have hnames := (Datum.settled_object.1 (Datum.settled_of_asRecord hknown hsettled hfields)).1
  have hwhere' := withDefault_where_update hnames hwhere hi hy
  rw [ofDatum?, Datum.asRecord_updateField hknown rfl hfields]
  simp only [Option.bind_eq_bind, Option.bind_some]
  rw [Fields.required_update_of_ne (by simp), Fields.required_update_of_ne (by simp),
    Fields.optional_update_of_ne (by simp), hwhere', hcheck, hpath, hcount]
  rfl

/-- An assertion in an object is read with the grafted constraint. -/
theorem required_graft {fields : Fields} {y : Datum} {a : PathAssertion} {i : Nat} {k n : Node}
    {address : Address} {family : Family} {typeName : String} (hy : y.Settled)
    (htype : y.getText? "type" = some typeName) (hsettled : (Datum.object fields).Settled)
    (h : fields.required "assert" (ofDatum? .whole) = some a)
    (hk : (a.constraints.map Node.constraint)[i]? = some k) (hn : k.at? address = some n)
    (hfamily : n.family? = some family) (hunknown : typeName ∉ family.typeNames) :
    Fields.required (Fields.update "assert" (Datum.updateField "where" 3
      (Datum.updateItem i (Datum.graft y address))) fields) "assert" (ofDatum? .whole) =
        some (a.forgetAt typeName i) := by
  obtain ⟨hnames, hfields⟩ := Datum.settled_object.1 hsettled
  rw [List.getElem?_map] at hk
  obtain ⟨constraint, hconstraint, rfl⟩ := Option.map_eq_some_iff.1 hk
  obtain ⟨rfl, rfl⟩ := Node.at?_of_no_members (fun _ => rfl) hn
  cases hfamily
  have hread : PathConstraint.ofDatum? y = some (.unrecognized typeName) := by
    rw [PathConstraint.ofDatum?, Datum.readRule, hy.settled?_eq]
    exact Datum.readSettled_of_notMem htype hunknown
  obtain ⟨d, hd, h⟩ := Option.bind_eq_some_iff.1 h
  rw [Fields.required, Fields.lookup_update_self hnames, hd]
  exact ofDatum?_forgetAt (hfields _ (Fields.mem_of_lookup hd)) h hconstraint hread

end PathAssertion

namespace Condition

/-- Rewriting one part rewrites what is read of it and nothing else. -/
theorem subconditions?_update {fields : Fields} {l : List Condition} {i : Nat} {f : Datum → Datum}
    {g : Condition → Condition} (hsettled : (Datum.object fields).Settled)
    (h : subconditions? fields = some l)
    (hpart : ∀ d c, d.Settled → l[i]? = some c → ofSettled? d = some c →
      ofSettled? (f d) = some (g c)) :
    subconditions? (Fields.update "conditions" (Datum.updateItem i f) fields) =
      some (l.modify i g) := by
  obtain ⟨hnames, hfields⟩ := Datum.settled_object.1 hsettled
  rw [subconditions?_eq] at h
  obtain ⟨d, hd, h⟩ := Option.bind_eq_some_iff.1 h
  rw [subconditions?_eq, Fields.lookup_update_self hnames, hd]
  cases d with
  | list items =>
    have hitems := Datum.settled_list.1 (hfields _ (Fields.mem_of_lookup hd))
    refine Datum.readItems_modify h fun d c hd hc hread => ?_
    exact hpart d c (hitems d (List.mem_of_getElem? hd)) hc hread
  | _ => cases h

/-- Conditions list conditions, so the induction is on the address: the part it enters is read with
the node replaced further in, and an assertion ends it. -/
theorem ofSettled?_graft {y : Datum} {typeName : String} (hy : y.Settled)
    (htype : y.getText? "type" = some typeName) : ∀ (address : Address) {d : Datum} {c : Condition}
    {n : Node} {family : Family}, d.Settled → ofSettled? d = some c →
      (Node.condition c).at? address = some n → n.family? = some family →
      typeName ∉ family.typeNames →
      ofSettled? (Datum.graft y address d) = some (c.forgetAt typeName address)
  | [], d, c, n, family, _, _, hn, hfamily, hunknown => by
    cases hn
    cases hfamily
    exact ofSettled?_of_notMem htype hunknown
  | ⟨slot, i⟩ :: address, d, c, n, family, hsettled, h, hat, hfamily, hunknown => by
    obtain ⟨k, hk, hn⟩ := Node.at?_cons_eq_some_iff.1 hat
    have hparts : ∀ {fields : Fields} {l : List Condition}, (Datum.object fields).Settled →
        (l.map Node.condition)[i]? = some k → subconditions? fields = some l →
        subconditions? (Fields.update "conditions"
          (Datum.updateItem i (Datum.graft y address)) fields) =
            some (l.modify i (forgetAt typeName address)) := by
      intro fields l hfields hl hread
      refine subconditions?_update hfields hread fun e part he hpart hread => ?_
      rw [List.getElem?_map, hpart] at hl
      cases hl
      exact ofSettled?_graft hy htype address he hread hn hfamily hunknown
    cases c with
    | all l =>
      cases slot with
      | conditions =>
        obtain ⟨fields, hand, hl⟩ := ofSettled?_eq_all_iff.1 h
        obtain ⟨hfields, hupdated⟩ := Datum.asRule_updateOnly rfl (by simp) hsettled hand
        exact ofSettled?_eq_all_iff.2 ⟨_, hupdated, hparts hfields hk hl⟩
      | _ => simp [Node.listed] at hk
    | any l =>
      cases slot with
      | conditions =>
        obtain ⟨fields, hor, hl⟩ := ofSettled?_eq_any_iff.1 h
        obtain ⟨hfields, hupdated⟩ := Datum.asRule_updateOnly rfl (by simp) hsettled hor
        exact ofSettled?_eq_any_iff.2 ⟨_, hupdated, hparts hfields hk hl⟩
      | _ => simp [Node.listed] at hk
    | path a =>
      cases slot with
      | constraints =>
        obtain ⟨fields, hpath, ha⟩ := ofSettled?_eq_path_iff.1 h
        obtain ⟨hfields, hupdated⟩ := Datum.asRule_updateOnly rfl (by simp) hsettled hpath
        exact ofSettled?_eq_path_iff.2 ⟨_, hupdated,
          PathAssertion.required_graft hy htype hfields ha hk hn hfamily hunknown⟩
      | _ => simp [Node.listed] at hk
    | _ => simp [Node.listed] at hk

end Condition

namespace Filter

theorem readSettled_eq_path_iff {d : Datum} {a : PathAssertion} :
    d.readSettled typeNames fieldNames? unrecognized ofFields? = some (.path a) ↔
      ∃ fields, d.asRule fieldNames? = some ("graph_path", fields)
        ∧ fields.required "assert" (PathAssertion.ofDatum? .whole) = some a := by
  rw [Datum.readSettled_eq_some_iff (fun _ _ _ h => (typeName_of_ofFields? h).1) (by simp)]
  simp [typeName, typeNames, ofFields?, Option.bind_eq_some_iff]

theorem readSettled_graft {y d : Datum} {f : Filter} {n : Node} {family : Family}
    {typeName : String} (hy : y.Settled) (htype : y.getText? "type" = some typeName)
    (hsettled : d.Settled)
    (h : d.readSettled typeNames fieldNames? .unrecognized ofFields? = some f) :
    ∀ address, (Node.filter f).at? address = some n → n.family? = some family →
      typeName ∉ family.typeNames →
      (Datum.graft y address d).readSettled typeNames fieldNames? .unrecognized ofFields? =
        some (f.forgetAt typeName address)
  | [], hat, hfamily, hunknown => by
    cases hat
    cases hfamily
    exact Datum.readSettled_of_notMem htype hunknown
  | ⟨slot, i⟩ :: address, hat, hfamily, hunknown => by
    obtain ⟨k, hk, hn⟩ := Node.at?_cons_eq_some_iff.1 hat
    cases f with
    | path a =>
      cases slot with
      | constraints =>
        obtain ⟨fields, hpath, ha⟩ := readSettled_eq_path_iff.1 h
        obtain ⟨hfields, hupdated⟩ := Datum.asRule_updateOnly rfl (by simp) hsettled hpath
        exact readSettled_eq_path_iff.2 ⟨_, hupdated,
          PathAssertion.required_graft hy htype hfields ha hk hn hfamily hunknown⟩
      | _ => simp [Node.listed] at hk
    | _ => simp [Node.listed] at hk

end Filter

namespace Family

theorem readSettled?_graft {family f : Family} {y d : Datum} {r n : Node} {typeName : String}
    {address : Address} (hy : y.Settled) (htype : y.getText? "type" = some typeName)
    (hsettled : d.Settled) (h : family.readSettled? d = some r) (hat : r.at? address = some n)
    (hfamily : n.family? = some f) (hunknown : typeName ∉ f.typeNames) :
    family.readSettled? (Datum.graft y address d) = some (r.forgetAt typeName address) := by
  cases family with
  | condition =>
    obtain ⟨c, hc, rfl⟩ := Option.map_eq_some_iff.1 h
    rw [readSettled?, Condition.ofSettled?_graft hy htype address hsettled hc hat hfamily hunknown]
    cases address <;> rfl
  | filter =>
    obtain ⟨g, hg, rfl⟩ := Option.map_eq_some_iff.1 h
    rw [readSettled?, Filter.readSettled_graft hy htype hsettled hg address hat hfamily hunknown]
    cases address <;> rfl
  | metric | mutation | pathConstraint =>
    obtain ⟨a, ha, rfl⟩ := Option.map_eq_some_iff.1 h
    obtain ⟨rfl, rfl⟩ := Node.at?_of_no_members (fun _ => rfl) hat
    cases hfamily
    exact congrArg (Option.map _) (Datum.readSettled_of_notMem htype hunknown)

theorem typeName?_of_readSettled? {family : Family} {d : Datum} {r : Node} {typeName : String}
    (h : family.readSettled? d = some r) (htype : d.getText? "type" = some typeName)
    (hknown : typeName ∈ family.typeNames) :
    r.typeName? = some typeName ∧ ¬ r.Unrecognized := by
  cases family with
  | condition =>
    obtain ⟨c, hc, rfl⟩ := Option.map_eq_some_iff.1 h
    rw [Condition.ofSettled?_eq] at hc
    obtain ⟨_, hread⟩ := Datum.exists_of_readSettled hc htype hknown
    obtain ⟨rfl, hne⟩ := Condition.typeName_of_ofFields? hread
    exact ⟨rfl, fun ⟨_, type, heq⟩ => hne type (Node.condition_eq_unrecognized.1 heq).2⟩
  | metric =>
    obtain ⟨m, hm, rfl⟩ := Option.map_eq_some_iff.1 h
    obtain ⟨_, hread⟩ := Datum.exists_of_readSettled hm htype hknown
    obtain ⟨rfl, hne⟩ := Metric.typeName_of_ofFields? hread
    exact ⟨rfl, fun ⟨_, type, heq⟩ => hne type (Node.metric_eq_unrecognized.1 heq).2⟩
  | filter =>
    obtain ⟨f, hf, rfl⟩ := Option.map_eq_some_iff.1 h
    obtain ⟨_, hread⟩ := Datum.exists_of_readSettled hf htype hknown
    obtain ⟨rfl, hne⟩ := Filter.typeName_of_ofFields? hread
    exact ⟨rfl, fun ⟨_, type, heq⟩ => hne type (Node.filter_eq_unrecognized.1 heq).2⟩
  | mutation =>
    obtain ⟨m, hm, rfl⟩ := Option.map_eq_some_iff.1 h
    obtain ⟨_, hread⟩ := Datum.exists_of_readSettled hm htype hknown
    obtain ⟨rfl, hne⟩ := Mutation.typeName_of_ofFields? hread
    exact ⟨rfl, fun ⟨_, type, heq⟩ => hne type (Node.mutation_eq_unrecognized.1 heq).2⟩
  | pathConstraint =>
    obtain ⟨k, hk, rfl⟩ := Option.map_eq_some_iff.1 h
    obtain ⟨_, hread⟩ := Datum.exists_of_readSettled hk htype hknown
    obtain ⟨rfl, hne⟩ := PathConstraint.typeName_of_ofFields? hread
    exact ⟨rfl, fun ⟨_, type, heq⟩ => hne type (Node.constraint_eq_unrecognized.1 heq).2⟩

/-- Where the data of a rule has a node of the rule, an object of a type that the family of the node
does not have can take its place, and then that node is unrecognized and nothing else changes. From
an object of a type that the family has, only a rule of that type is ever read. -/
theorem unknown_contained (family : Family) (d : Datum) :
    (∀ r, family.read? d = some r → ∀ address n f x typeName,
        r.at? address = some n → n.family? = some f →
        x.typeName? = some typeName → typeName ∉ f.typeNames →
        family.read? (Datum.graft x address d) = some (r.forgetAt typeName address))
      ∧ ∀ typeName, d.typeName? = some typeName → typeName ∈ family.typeNames →
        ∀ r, family.read? d = some r → r.typeName? = some typeName ∧ ¬ r.Unrecognized := by
  simp only [read?_eq]
  constructor
  · intro r h address n f x typeName hat hfamily htype hunknown
    obtain ⟨e, he, hr⟩ := Option.bind_eq_some_iff.1 h
    obtain ⟨y, hy, htype⟩ := Option.bind_eq_some_iff.1 htype
    rw [Datum.settled?_graft hy he, Option.bind_some]
    exact readSettled?_graft (Datum.settled_of_settled? hy) htype (Datum.settled_of_settled? he) hr
      hat hfamily hunknown
  · intro typeName htype hknown r h
    obtain ⟨e, he, hr⟩ := Option.bind_eq_some_iff.1 h
    rw [Datum.typeName?, he] at htype
    exact typeName?_of_readSettled? hr htype hknown

end Family

namespace Sample

/-- Always, and somebody other than oneself to walk to. Parts of it are given as lists. -/
def vigil : Datum :=
  .ofRule "and" [("conditions", .list [
    .list [.text "always"],
    .list [.text "graph_path", .list [
      .text "exists",
      .list [.object [("via", .text "walks_to")]],
      .null,
      .list [.ofRule "not_self" []]]]])]

def vigilRead (constraint : PathConstraint) : Node :=
  .condition (.all [
    .test .always,
    .path ⟨.nonempty, [⟨"walks_to", .both, {}, none⟩], none, [constraint]⟩])

/-- A constraint of a type that no constraint has. -/
def glow : Datum := .ofRule "glows" [("strength", .int 3)]

/-- Where the only constraint of the path in the vigil is. -/
def vigilAddress : Address := [⟨.conditions, 1⟩, ⟨.constraints, 0⟩]

theorem vigil_contains_glow :
    Family.condition.read? (Datum.graft glow vigilAddress vigil) =
        some (vigilRead (.unrecognized "glows"))
      ∧ (vigilRead .notSelf).typeName? = some "and" ∧ ¬ (vigilRead .notSelf).Unrecognized := by
  have hread : Family.condition.read? vigil = some (vigilRead .notSelf) := rfl
  obtain ⟨hgraft, htype⟩ := Family.unknown_contained .condition vigil
  exact ⟨hgraft _ hread vigilAddress (.constraint .notSelf) .pathConstraint glow "glows" rfl rfl rfl
    (by decide), htype "and" rfl (by decide) _ hread⟩

end Sample

end StoryWorld

import StoryWorld.Proofs.RuleSet.Nodes
import StoryWorld.Proofs.RuleSet.Written

/-!
# Saved rule sets

A rule set can be saved exactly when nothing in it is of an unknown type, and then nothing is lost
(`RuleSet.saved_faithfully`). Both are shown node by node: a node can be written when its members
can be and it is itself of a known type, and what it is written as conveys it when what its members
are written as conveys them. The data of a member lies in the data of its node where its slot says,
so an address leads to the same place in a rule and in its data.
-/

namespace StoryWorld

/-! ## Addresses in data -/

/-- The outermost names under which members are listed. -/
def Slot.names : List String :=
  ["conditions", "assert", "filters", "saturation_limits", "prefer_filters"]

theorem Slot.forall_iff {P : Slot → Prop} : (∀ slot, P slot) ↔
    P conditions ∧ P constraints ∧ P filters ∧ P saturationLimits ∧ P preferFilters ∧
      P members := by
  refine ⟨fun h => ⟨h _, h _, h _, h _, h _, h _⟩, fun h slot => ?_⟩
  cases slot <;> simp [h]

namespace Datum

/-- The data under names, one inside the other. -/
def under? : List String → Datum → Option Datum
  | [], d => some d
  | name :: names, d => (d.get? name).bind (under? names)

def items : Datum → List Datum
  | .list items => items
  | _ => []

/-- The data of the members of a node in a slot. -/
def listed (d : Datum) (slot : Slot) : List Datum := ((d.under? slot.path).map items).getD []

/-- An object that has none of the names of members lists nothing. -/
theorem listed_object_eq_nil {fields : Fields} (h : ∀ name ∈ Slot.names, name ∉ fields.map (·.1))
    (slot : Slot) : (object fields).listed slot = [] := by
  have hnone : ∀ name ∈ Slot.names, List.lookup name fields = none :=
    fun name hname => Fields.lookup_eq_none (h name hname)
  simp only [Slot.names, List.forall_mem_cons] at hnone
  cases slot <;> simp [listed, Slot.path, under?, get?, items, hnone]

/-- The data of the node at an address. -/
def at? (d : Datum) : Address → Option Datum
  | [] => some d
  | p :: address => ((d.listed p.slot)[p.index]?).bind fun e => e.at? address

end Datum

/-! ## Nodes and their data -/

namespace Condition

theorem toItems?_eq : ∀ l : List Condition, toItems? l = Datum.ofListM toDatum? l
  | [] => rfl
  | c :: l => by rw [toItems?, Datum.ofListM, toItems?_eq l]

end Condition

namespace Node

/-- What a node is written as, when it can be. -/
def toDatum? : Node → Option Datum
  | condition c => c.toDatum?
  | metric m => m.toDatum?
  | filter f => f.toDatum?
  | mutation m => m.toDatum?
  | constraint k => k.toDatum?
  | limit l => some l.toDatum
  | selection r => r.toDatum?
  | variableRule r => r.toDatum?
  | mutations l => RuleSet.mutationsToDatum? l

/-- The floats of a node itself. -/
def floats : Node → List Float
  | condition (.test t) => t.floats
  | condition (.randomChance chance) => [chance]
  | metric m => m.floats
  | mutation m => m.floats
  | selection r => r.strategy.floats
  | _ => []

/-- Only rules of a family can be unrecognized. -/
theorem not_unrecognized {n : Node} (h : n.family? = none) : ¬ n.Unrecognized := by
  rintro ⟨family, typeName, hn⟩
  rw [family?_of_eq_unrecognized hn] at h
  cases h

/-- A node can be written when it is of a known type and its members can be written. -/
theorem isSome_toDatum?_iff (n : Node) : n.toDatum?.isSome ↔
    ¬ n.Unrecognized ∧ ∀ slot, ∀ m ∈ n.listed slot, m.toDatum?.isSome := by
  rw [Slot.forall_iff]
  cases n with
  | condition c =>
    cases c <;> simp [toDatum?, Condition.toDatum?, Condition.toItems?_eq,
      PathAssertion.toDatum?, Option.isSome_bind, Datum.isSome_ofListM, listed, Unrecognized,
      condition_eq_unrecognized]
  | metric m =>
    cases m <;> simp [toDatum?, Metric.toDatum?, listed, Unrecognized, metric_eq_unrecognized]
  | filter f =>
    cases f <;> simp [toDatum?, Filter.toDatum?, PathAssertion.toDatum?, Option.isSome_bind,
      Datum.isSome_ofListM, listed, Unrecognized, filter_eq_unrecognized]
  | mutation m =>
    cases m <;> simp [toDatum?, Mutation.toDatum?, listed, Unrecognized, mutation_eq_unrecognized]
  | constraint k =>
    cases k <;> simp [toDatum?, PathConstraint.toDatum?, listed, Unrecognized,
      constraint_eq_unrecognized]
  | limit l => simp [toDatum?, listed, not_unrecognized (n := limit l) rfl]
  | selection r =>
    have hknown : ¬ (selection r).Unrecognized := not_unrecognized rfl
    simp [toDatum?, SelectionRule.toDatum?, Option.isSome_bind, Datum.isSome_ofListM, listed,
      hknown]
  | variableRule r =>
    have hknown : ¬ (variableRule r).Unrecognized := not_unrecognized rfl
    have hfilters : ∀ l : List Filter, (∀ f ∈ l, f.toDatum?.isSome) ↔
        (Datum.ofListM Filter.toDatum? l).isSome := fun _ => Datum.isSome_ofListM.symm
    simp only [toDatum?, VariableRule.toDatum?, listed, List.forall_mem_map, hfilters]
    cases Datum.ofListM Filter.toDatum? r.filters <;> simp [Option.isSome_bind, hknown]
  | mutations l =>
    have hknown : ¬ (mutations l).Unrecognized := not_unrecognized rfl
    simp [toDatum?, RuleSet.mutationsToDatum?, Option.isSome_bind, Datum.isSome_ofListM, listed,
      hknown]

theorem ascends_isSome :
    Ascends fun n => n.toDatum?.isSome ↔ n.Everywhere fun m => ¬ m.Unrecognized := by
  intro n hmembers
  rw [isSome_toDatum?_iff, everywhere_iff]
  exact and_congr_right' (forall_congr' fun slot => forall₂_congr (hmembers slot))

/-! ### Reading back -/

/-- Whether data is settled and is read as a node. -/
def ConveyedBy : Node → Datum → Prop
  | condition c, d => d.Conveys Condition.ofDatum? c
  | metric m, d => d.Conveys Metric.ofDatum? m
  | filter f, d => d.Conveys Filter.ofDatum? f
  | mutation m, d => d.Conveys Mutation.ofDatum? m
  | constraint k, d => d.Conveys PathConstraint.ofDatum? k
  | limit l, d => d.Conveys (SaturationLimit.ofDatum? .json) l
  | selection r, d => d.Conveys (SelectionRule.ofDatum? .json) r
  | variableRule r, d => d.Conveys (VariableRule.ofDatum? .json) r
  | mutations l, d => d.Conveys (Datum.asList Mutation.ofDatum?) l

end Node

namespace Condition

theorem ofItems?_eq : ∀ items : List Datum, ofItems? items = Datum.readItems ofSettled? items
  | [] => rfl
  | d :: items => by rw [ofItems?, Datum.readItems, ofItems?_eq items]

theorem ofSettled?_of_conveys {c : Condition} {d : Datum} (h : d.Conveys ofDatum? c) :
    ofSettled? d = some c := by
  rw [← h.read_eq, ofDatum?, h.settled.settled?_eq, Option.bind_some]

theorem conveys_ofRule {type : String} {fields : Fields} {c : Condition} (hknown : type ∈ typeNames)
    (hnames : ("type" :: fields.map (·.1)).Nodup) (hfields : ∀ field ∈ fields, field.2.Settled)
    (hread : ofFields? (subconditions? (("type", .text type) :: fields)) type
      (("type", .text type) :: fields) = some c) :
    Datum.Conveys ofDatum? (.ofRule type fields) c := by
  have hsettled : (Datum.ofRule type fields).Settled := Datum.settled_ofRule hnames hfields
  refine ⟨hsettled, ?_⟩
  rw [ofDatum?, hsettled.settled?_eq, Option.bind_some]
  exact (Datum.readSettled_ofRule hknown).trans hread

theorem conveys_test {t : Test} (finite : AllFinite t.floats) :
    Datum.Conveys ofDatum? (.ofRule t.typeName t.toFields) (test t) := by
  refine conveys_ofRule t.typeName_mem t.names_nodup t.settled_toFields ?_
  have htest : ∀ conditions fields, ofFields? conditions t.typeName fields = do
      return test (← Test.ofFields? t.typeName fields) := fun _ _ => by
    cases t <;> simp [Test.typeName, ofFields?]
  rw [htest, Test.ofFields?_eq finite (Datum.holds_ofRule t.names_nodup _)]
  rfl

/-- The parts of a combination are read one by one. -/
theorem subconditions?_of_conveys {type : String} {l : List Condition} {items : List Datum}
    (h : List.Forall₂ (fun c d => Datum.Conveys ofDatum? d c) l items) :
    subconditions? [("type", .text type), ("conditions", .list items)] = some l := by
  have hitems := Datum.readItems_of_forall₂ (h.imp fun _ _ => ofSettled?_of_conveys)
  simp [subconditions?, listed?, ofItems?_eq, hitems]

/-- A combination is conveyed when its parts are. -/
theorem conveys_combination {type : String} {combine : List Condition → Condition}
    {l : List Condition} {items : List Datum} (hknown : type ∈ typeNames)
    (hcombine : ∀ fields, ofFields? (some l) type fields = some (combine l))
    (h : List.Forall₂ (fun c d => Datum.Conveys ofDatum? d c) l items) :
    Datum.Conveys ofDatum? (.ofRule type [("conditions", .list items)]) (combine l) := by
  refine conveys_ofRule hknown (by simp) ?_ ?_
  · simpa using (Datum.conveys_list h).settled
  · rw [subconditions?_of_conveys h, hcombine]

end Condition

namespace Node

/-- Members that are conveyed one by one are conveyed together. -/
theorem conveys_parts {α : Type} {l : List α} {items : List Datum} {write : α → Option Datum}
    {read : Datum → Option α} (hitems : Datum.ofListM write l = some items)
    (h : ∀ a ∈ l, ∀ d, write a = some d → d.Conveys read a) :
    List.Forall₂ (fun a d => Datum.Conveys read d a) l items :=
  ((List.forall₂_and_left l items).2 ⟨h, Datum.ofListM_eq_some_iff.1 hitems⟩).imp
    fun _ d ⟨hconveys, hd⟩ => hconveys d hd

theorem ascends_conveyedBy : Ascends fun n => ∀ d, n.toDatum? = some d →
    n.Everywhere (fun m => AllFinite m.floats) → n.ConveyedBy d := by
  intro n hmembers d h finite
  have hbelow : ∀ slot, ∀ m ∈ n.listed slot, ∀ e, m.toDatum? = some e → m.ConveyedBy e :=
    fun slot m hm e he => hmembers slot m hm e he (finite.below hm)
  -- Only combinations and lists need what is known of their members; all other rules, whatever is
  -- listed in them, are read back in one piece.
  cases n with
  | condition c =>
    cases c with
    | test t =>
      cases h
      exact Condition.conveys_test finite.here
    | randomChance chance =>
      cases h
      have hchance : chance.isFinite = true := finite.here chance (List.mem_singleton_self _)
      refine Condition.conveys_ofRule (by decide) (by simp) (by simp) ?_
      simp [Condition.ofFields?, Fields.required, List.lookup_cons, hchance]
    | path a =>
      obtain ⟨assertion, ha, h⟩ := Option.bind_eq_some_iff.1 h
      cases h
      have hconveys := PathAssertion.conveys ha
      refine Condition.conveys_ofRule (by decide) (by simp) (by simp [hconveys.settled]) ?_
      simp [Condition.ofFields?, Fields.required, List.lookup_cons, hconveys.read_eq]
    | all l =>
      obtain ⟨items, hitems, h⟩ := Option.bind_eq_some_iff.1 h
      cases h
      rw [Condition.toItems?_eq] at hitems
      have hparts := conveys_parts hitems (List.forall_mem_map.1 (hbelow .conditions))
      exact Condition.conveys_combination (by decide) (by simp [Condition.ofFields?]) hparts
    | any l =>
      obtain ⟨items, hitems, h⟩ := Option.bind_eq_some_iff.1 h
      cases h
      rw [Condition.toItems?_eq] at hitems
      have hparts := conveys_parts hitems (List.forall_mem_map.1 (hbelow .conditions))
      exact Condition.conveys_combination (by decide) (by simp [Condition.ofFields?]) hparts
    | unrecognized typeName => cases h
  | metric m => exact m.conveys finite.here h
  | filter f => exact f.conveys h
  | mutation m => exact m.conveys finite.here h
  | constraint k => exact k.conveys h
  | limit l =>
    cases h
    exact l.conveys .json
  | selection r => exact r.conveys finite.here h
  | variableRule r => exact r.conveys h
  | mutations l =>
    obtain ⟨items, hitems, h⟩ := Option.bind_eq_some_iff.1 h
    cases h
    exact Datum.conveys_list (conveys_parts hitems (List.forall_mem_map.1 (hbelow .members)))

/-! ### Where the data of members is -/

theorem forall₂_listed_of_leaf {n : Node} {fields : Fields} (hn : ∀ slot, n.listed slot = [])
    (hnames : ∀ name ∈ Slot.names, name ∉ fields.map (·.1)) (slot : Slot) :
    List.Forall₂ (fun m e => m.toDatum? = some e) (n.listed slot)
      ((Datum.object fields).listed slot) := by
  rw [hn, Datum.listed_object_eq_nil hnames]
  exact .nil

/-- The constraints of a path are where its data lists them. -/
theorem forall₂_constraints {a : PathAssertion} {d : Datum} (h : a.toDatum? = some d) :
    List.Forall₂ (fun m e => m.toDatum? = some e) (a.constraints.map constraint)
      ((Datum.ofRule "graph_path" [("assert", d)]).listed .constraints) := by
  obtain ⟨constraints, hconstraints, h⟩ := Option.bind_eq_some_iff.1 h
  cases h
  exact List.forall₂_map_left_iff.2 (Datum.ofListM_eq_some_iff.1 hconstraints)

/-- The parts of a combination are where its data lists them. -/
theorem forall₂_parts {l : List Condition} {items : List Datum}
    (h : Condition.toItems? l = some items) (type : String) :
    List.Forall₂ (fun m e => m.toDatum? = some e) (l.map condition)
      ((Datum.ofRule type [("conditions", .list items)]).listed .conditions) := by
  rw [Condition.toItems?_eq] at h
  exact List.forall₂_map_left_iff.2 (Datum.ofListM_eq_some_iff.1 h)

section Listed

variable {d : Datum}

theorem forall₂_listed_condition {c : Condition} (h : c.toDatum? = some d) (slot : Slot) :
    List.Forall₂ (fun m e => m.toDatum? = some e) ((condition c).listed slot) (d.listed slot) := by
  cases c with
  | test t =>
    cases h
    refine forall₂_listed_of_leaf (fun _ => rfl) ?_ slot
    cases t <;> simp [Slot.names, Test.toFields, Bounds.toFields, Census.toFields,
      Incidence.toFields, Target.toFields]
  | randomChance chance =>
    cases h
    exact forall₂_listed_of_leaf (fun _ => rfl) (by simp [Slot.names]) slot
  | path a =>
    obtain ⟨assertion, ha, h⟩ := Option.bind_eq_some_iff.1 h
    cases h
    cases slot with
    | constraints => exact forall₂_constraints ha
    | _ => exact .nil
  | all l =>
    obtain ⟨items, hitems, h⟩ := Option.bind_eq_some_iff.1 h
    cases h
    cases slot with
    | conditions => exact forall₂_parts hitems "and"
    | _ => exact .nil
  | any l =>
    obtain ⟨items, hitems, h⟩ := Option.bind_eq_some_iff.1 h
    cases h
    cases slot with
    | conditions => exact forall₂_parts hitems "or"
    | _ => exact .nil
  | unrecognized typeName => cases h

theorem forall₂_listed_metric {m : Metric} (h : m.toDatum? = some d) (slot : Slot) :
    List.Forall₂ (fun m e => m.toDatum? = some e) ((metric m).listed slot) (d.listed slot) := by
  cases m with
  | scaled measure scale =>
    cases h
    refine forall₂_listed_of_leaf (fun _ => rfl) (fun name hname => ?_) slot
    have hmeasure : name ∉ "type" :: measure.toFields.map (·.1) := by
      revert name
      cases measure <;> simp [Slot.names, Measure.toFields, Census.toFields, EdgeFilter.toFields]
    have hscale : name ∉ scale.toFields.map (·.1) := fun hmem => by
      have hscale := scale.names_sublist.subset hmem
      revert name
      simp [Slot.names]
    rw [List.map_cons, List.map_append, ← List.cons_append, List.mem_append, not_or]
    exact ⟨hmeasure, hscale⟩
  | unrecognized typeName => cases h

theorem forall₂_listed_filter {f : Filter} (h : f.toDatum? = some d) (slot : Slot) :
    List.Forall₂ (fun m e => m.toDatum? = some e) ((filter f).listed slot) (d.listed slot) := by
  cases f with
  | path a =>
    obtain ⟨assertion, ha, h⟩ := Option.bind_eq_some_iff.1 h
    cases h
    cases slot with
    | constraints => exact forall₂_constraints ha
    | _ => exact .nil
  | unrecognized typeName => cases h
  | _ =>
    cases h
    exact forall₂_listed_of_leaf (fun _ => rfl) (by simp [Slot.names]) slot

theorem forall₂_listed_selection {r : SelectionRule} (h : r.toDatum? = some d) (slot : Slot) :
    List.Forall₂ (fun m e => m.toDatum? = some e) ((selection r).listed slot) (d.listed slot) := by
  obtain ⟨filters, hfilters, h⟩ := Option.bind_eq_some_iff.1 h
  cases h
  have hfilters : List.Forall₂ (fun m e => m.toDatum? = some e) (r.filters.map filter) filters :=
    List.forall₂_map_left_iff.2 (Datum.ofListM_eq_some_iff.1 hfilters)
  have hlimits : List.Forall₂ (fun m e => m.toDatum? = some e) (r.saturationLimits.map limit)
      (r.saturationLimits.map SaturationLimit.toDatum) := by
    simp [List.forall₂_map_left_iff, List.forall₂_map_right_iff, List.forall₂_same, toDatum?]
  -- The fields of the strategy come first, and there is nothing in them to list.
  obtain ⟨strategy, _, _, _, _, _, _⟩ := r
  cases slot with
  | filters => cases strategy <;> exact hfilters
  | saturationLimits => cases strategy <;> exact hlimits
  | _ => cases strategy <;> exact .nil

/-- In what a node is written as, its members are listed where their slot says. -/
theorem forall₂_listed {n : Node} (h : n.toDatum? = some d) (slot : Slot) :
    List.Forall₂ (fun m e => m.toDatum? = some e) (n.listed slot) (d.listed slot) := by
  cases n with
  | condition c => exact forall₂_listed_condition h slot
  | metric m => exact forall₂_listed_metric h slot
  | filter f => exact forall₂_listed_filter h slot
  | mutation m =>
    cases m <;> cases h <;>
      exact forall₂_listed_of_leaf (fun _ => rfl) (by simp [Slot.names]) slot
  | constraint k =>
    cases k <;> cases h <;>
      exact forall₂_listed_of_leaf (fun _ => rfl) (by simp [Slot.names]) slot
  | limit l =>
    cases h
    exact forall₂_listed_of_leaf (fun _ => rfl) (by simp [Slot.names]) slot
  | selection r => exact forall₂_listed_selection h slot
  | variableRule r =>
    obtain ⟨filters, hfilters, h⟩ := Option.bind_eq_some_iff.1 h
    obtain ⟨preferFilters, hprefer, h⟩ := Option.bind_eq_some_iff.1 h
    cases h
    cases slot with
    | filters => exact List.forall₂_map_left_iff.2 (Datum.ofListM_eq_some_iff.1 hfilters)
    | preferFilters => exact List.forall₂_map_left_iff.2 (Datum.ofListM_eq_some_iff.1 hprefer)
    | _ => exact .nil
  | mutations l =>
    obtain ⟨items, hitems, h⟩ := Option.bind_eq_some_iff.1 h
    cases h
    cases slot with
    | members => exact List.forall₂_map_left_iff.2 (Datum.ofListM_eq_some_iff.1 hitems)
    | _ => exact .nil

end Listed

/-- In what a node is written as, the nodes below it stand at their addresses. -/
theorem at?_written : ∀ (address : Address) {n : Node} {d : Datum}, n.toDatum? = some d →
    Option.Rel (fun e m => m.toDatum? = some e) (d.at? address) (n.at? address)
  | [], _, _, h => .some h
  | p :: address, n, d, h => by
    rw [Datum.at?, Node.at?, member?, Datum.getElem?_of_forall₂ (forall₂_listed h p.slot) p.index]
    cases hm : (n.listed p.slot)[p.index]? with
    | none => exact .none
    | some m =>
      have hmembers := (n.isSome_toDatum?_iff.1 (Option.isSome_iff_exists.2 ⟨d, h⟩)).2
      obtain ⟨e, he⟩ := Option.isSome_iff_exists.1
        (hmembers p.slot m (List.mem_of_getElem? hm))
      simp only [Option.bind_some, he]
      exact at?_written address he

end Node

/-! ### Types -/

/-- Whether data has the type of a rule of some family, and the family has the type. -/
def Datum.TypedAs (d : Datum) (n : Node) : Prop :=
  ∀ family, n.family? = some family →
    ∃ typeName ∈ family.typeNames, n.typeName? = some typeName
      ∧ d.getText? "type" = some typeName

namespace Node

/-- A rule of a known type has a type of its family. -/
theorem typeName?_of_family? {n : Node} {family : Family} (hfamily : n.family? = some family)
    (hknown : ¬ n.Unrecognized) :
    ∃ typeName ∈ family.typeNames, n.typeName? = some typeName := by
  cases n with
  | condition c =>
    cases hfamily
    cases c with
    | test t => exact ⟨_, t.typeName_mem, rfl⟩
    | unrecognized typeName => exact absurd ⟨.condition, typeName, rfl⟩ hknown
    | _ => exact ⟨_, by simp [Condition.typeName, Family.typeNames, Condition.typeNames], rfl⟩
  | metric m =>
    cases hfamily
    cases m with
    | scaled measure scale => exact ⟨_, measure.typeName_mem, rfl⟩
    | unrecognized typeName => exact absurd ⟨.metric, typeName, rfl⟩ hknown
  | filter f =>
    cases hfamily
    cases f with
    | unrecognized typeName => exact absurd ⟨.filter, typeName, rfl⟩ hknown
    | _ => exact ⟨_, by simp [Filter.typeName, Family.typeNames, Filter.typeNames], rfl⟩
  | mutation m =>
    cases hfamily
    cases m with
    | unrecognized typeName => exact absurd ⟨.mutation, typeName, rfl⟩ hknown
    | _ => exact ⟨_, by simp [Mutation.typeName, Family.typeNames, Mutation.typeNames], rfl⟩
  | constraint k =>
    cases hfamily
    cases k with
    | unrecognized typeName => exact absurd ⟨.pathConstraint, typeName, rfl⟩ hknown
    | _ =>
      exact ⟨_, by simp [PathConstraint.typeName, Family.typeNames, PathConstraint.typeNames], rfl⟩
  | _ => cases hfamily

/-- What a rule is written as has its type. -/
theorem getText?_type {n : Node} {d : Datum} {family : Family} (h : n.toDatum? = some d)
    (hfamily : n.family? = some family) : d.getText? "type" = n.typeName? := by
  cases n with
  | condition c =>
    cases c with
    | test t | randomChance chance =>
      cases h
      rfl
    | unrecognized typeName => cases h
    | _ =>
      obtain ⟨_, -, h⟩ := Option.bind_eq_some_iff.1 h
      cases h
      rfl
  | filter f =>
    cases f with
    | path a =>
      obtain ⟨_, -, h⟩ := Option.bind_eq_some_iff.1 h
      cases h
      rfl
    | unrecognized typeName => cases h
    | _ =>
      cases h
      rfl
  | metric m =>
    cases m <;> cases h
    rfl
  | mutation m => cases m <;> cases h <;> rfl
  | constraint k => cases k <;> cases h <;> rfl
  | _ => cases hfamily

theorem typedAs_toDatum? {n : Node} {d : Datum} (h : n.toDatum? = some d) : d.TypedAs n := by
  intro family hfamily
  have hknown := (n.isSome_toDatum?_iff.1 (Option.isSome_iff_exists.2 ⟨d, h⟩)).1
  obtain ⟨typeName, hmem, htype⟩ := typeName?_of_family? hfamily hknown
  exact ⟨typeName, hmem, htype, (getText?_type h hfamily).trans htype⟩

end Node

/-! ## Rule sets and their data -/

namespace Datum

section Entries

variable {α β : Type} {write : α → Option Datum}

theorem ofEntriesM_eq_some_iff : ∀ {l : List (String × α)} {fields : Fields},
    ofEntriesM write l = some fields ↔
      List.Forall₂ (fun entry field => entry.1 = field.1 ∧ write entry.2 = some field.2) l fields
  | [], fields => by cases fields <;> simp [ofEntriesM]
  | (name, a) :: l, [] => by simp [ofEntriesM, Option.bind_eq_some_iff]
  | (name, a) :: l, (name', d) :: fields => by
    rw [List.forall₂_cons, ← ofEntriesM_eq_some_iff]
    simp only [ofEntriesM, Option.bind_eq_bind, Option.bind_eq_some_iff, Option.pure_def,
      Option.some.injEq, List.cons.injEq, Prod.mk.injEq]
    constructor
    · rintro ⟨_, hd, _, hfields, ⟨hname, rfl⟩, rfl⟩
      exact ⟨⟨hname, hd⟩, hfields⟩
    · rintro ⟨⟨hname, hd⟩, hfields⟩
      exact ⟨d, hd, fields, hfields, ⟨hname, rfl⟩, rfl⟩

theorem isSome_ofEntriesM : ∀ {l : List (String × α)},
    (ofEntriesM write l).isSome ↔ ∀ entry ∈ l, (write entry.2).isSome
  | [] => by simp [ofEntriesM]
  | (name, a) :: l => by
    rw [List.forall_mem_cons, ← isSome_ofEntriesM]
    cases hd : write a <;> cases hl : ofEntriesM write l <;> simp [ofEntriesM, hd, hl]

theorem ofEntriesM_map (f : β → α) : ∀ l : List (String × β),
    ofEntriesM write (l.map fun entry => (entry.1, f entry.2)) =
      ofEntriesM (fun b => write (f b)) l
  | [] => rfl
  | entry :: l => by rw [List.map_cons, ofEntriesM, ofEntriesM, ofEntriesM_map f l]

/-- What is filed under a name is written under that name. -/
theorem lookup_of_forall₂ {l : List (String × α)} {fields : Fields}
    (h : List.Forall₂ (fun entry field => entry.1 = field.1 ∧ write entry.2 = some field.2) l
      fields) (name : String) :
    List.lookup name fields = (Table.findIn name l).bind write := by
  induction h with
  | nil => rfl
  | @cons entry field l fields hfield _ ih =>
    obtain ⟨name', a⟩ := entry
    obtain ⟨_, d⟩ := field
    obtain ⟨rfl, ha⟩ := hfield
    rw [List.lookup_cons, Table.findIn, ih]
    by_cases hname : name' = name
    · simp [hname, ha]
    · rw [if_neg hname, beq_false_of_ne (Ne.symm hname)]

/-- A table is read from what conveys its values, in their order. -/
theorem asTable_of_forall₂ {read : Datum → Option α} {t : Table String α} {fields : Fields}
    (h : List.Forall₂ (fun entry field => entry.1 = field.1 ∧ read field.2 = some entry.2) t.entries
      fields) : asTable read (.object fields) = some t := by
  have hentries : ∀ {l : List (String × α)} {fields : Fields}, List.Forall₂
      (fun entry field => entry.1 = field.1 ∧ read field.2 = some entry.2) l fields →
        readEntries read fields = some l := by
    intro l fields h
    induction h with
    | nil => rfl
    | @cons entry field l fields hfield _ ih =>
      obtain ⟨name, a⟩ := entry
      obtain ⟨_, d⟩ := field
      obtain ⟨rfl, ha⟩ := hfield
      rw [readEntries, ha, ih]
      rfl
  rw [asTable, hentries h, Option.map_some, Table.ofList_entries]

end Entries

/-- The data of the node at a spot. -/
def atSpot? (d : Datum) (s : Spot) : Option Datum :=
  ((d.get? s.shelf.name).bind (get? s.name)).bind fun e => e.at? s.address

end Datum

namespace RuleSet

/-- What the rules on a shelf are written as, when all of them can be. -/
def shelfFields? (r : RuleSet) (shelf : Shelf) : Option Fields :=
  Datum.ofEntriesM Node.toDatum? (r.shelved shelf).entries

variable {r : RuleSet} {d : Datum}

/-- What a rule set is written as, given what its shelves are written as. -/
def datumOf (r : RuleSet) (written : Shelf → Fields) : Datum :=
  .object (("name", .text r.name) ::
    Shelf.inOrder.map fun shelf => (shelf.name, .object (written shelf)))

theorem toDatum?_eq (r : RuleSet) : r.toDatum? = do
    let conditions ← r.shelfFields? .conditions
    let metrics ← r.shelfFields? .metrics
    let selections ← r.shelfFields? .selections
    let variableRules ← r.shelfFields? .variableRules
    let mutations ← r.shelfFields? .mutations
    return r.datumOf fun
      | .conditions => conditions
      | .metrics => metrics
      | .selections => selections
      | .variableRules => variableRules
      | .mutations => mutations := by
  simp only [shelfFields?, shelved, Table.map, Datum.ofEntriesM_map]
  rfl

theorem toDatum?_eq_some_iff : r.toDatum? = some d ↔
    ∃ written : Shelf → Fields,
      (∀ shelf, r.shelfFields? shelf = some (written shelf)) ∧ d = r.datumOf written := by
  rw [toDatum?_eq]
  constructor
  · intro h
    simp only [Option.bind_eq_bind, Option.bind_eq_some_iff] at h
    obtain ⟨conditions, hconditions, metrics, hmetrics, selections, hselections, variableRules,
      hvariableRules, mutations, hmutations, h⟩ := h
    refine ⟨_, fun shelf => ?_, (Option.some.inj h).symm⟩
    cases shelf <;> assumption
  · rintro ⟨written, hwritten, rfl⟩
    simp only [hwritten, Option.bind_eq_bind, Option.bind_some]
    rfl

/-- A rule set can be written when every rule in it is of a known type. -/
theorem isSome_toDatum?_iff (r : RuleSet) :
    r.toDatum?.isSome ↔ r.Everywhere fun n => ¬ n.Unrecognized := by
  have hshelf : ∀ shelf, (r.shelfFields? shelf).isSome ↔
      ∀ entry ∈ (r.shelved shelf).entries, entry.2.Everywhere fun n => ¬ n.Unrecognized :=
    fun shelf => Datum.isSome_ofEntriesM.trans
      (forall₂_congr fun entry _ => Node.ascends_isSome.holds entry.2)
  rw [everywhere_iff]
  simp only [← hshelf, Option.isSome_iff_exists, toDatum?_eq_some_iff]
  exact ⟨fun ⟨_, written, hwritten, _⟩ shelf => ⟨written shelf, hwritten shelf⟩,
    fun h => ⟨_, fun shelf => (h shelf).choose, fun shelf => (h shelf).choose_spec, rfl⟩⟩

/-- What the rules on a shelf are written as conveys them, in their order. -/
theorem conveys_shelf {fields : Fields} {shelf : Shelf}
    (finite : r.Everywhere fun n => AllFinite n.floats)
    (h : r.shelfFields? shelf = some fields) :
    List.Forall₂ (fun entry field => entry.1 = field.1 ∧ entry.2.ConveyedBy field.2)
      (r.shelved shelf).entries fields := by
  have hentries := (List.forall₂_and_left _ _).2
    ⟨everywhere_iff.1 finite shelf, Datum.ofEntriesM_eq_some_iff.1 h⟩
  exact hentries.imp fun entry field ⟨hfinite, hname, hd⟩ =>
    ⟨hname, Node.ascends_conveyedBy.holds entry.2 field.2 hd hfinite⟩

/-- A table is read from what its nodes are conveyed by. -/
theorem asTable_of_conveyedBy {α : Type} {read : Datum → Option α} (node : α → Node)
    {t : Table String α} {fields : Fields}
    (hread : ∀ a d, (node a).ConveyedBy d → read d = some a)
    (h : List.Forall₂ (fun entry field => entry.1 = field.1 ∧ entry.2.ConveyedBy field.2)
      (t.map node).entries fields) : Datum.asTable read (.object fields) = some t := by
  refine Datum.asTable_of_forall₂ ((List.forall₂_map_left_iff.1 h).imp ?_)
  exact fun entry field ⟨hname, hconveyed⟩ => ⟨hname, hread entry.2 field.2 hconveyed⟩

theorem ofDatum?_toDatum (finite : r.Everywhere fun n => AllFinite n.floats)
    (h : r.toDatum? = some d) : ofDatum? .json d = some r := by
  obtain ⟨written, hwritten, rfl⟩ := toDatum?_eq_some_iff.1 h
  have hconveys : ∀ shelf, List.Forall₂ (fun entry field => entry.1 = field.1 ∧
      entry.2.ConveyedBy field.2) (r.shelved shelf).entries (written shelf) :=
    fun shelf => conveys_shelf finite (hwritten shelf)
  have hconditions : Datum.asTable Condition.ofDatum? (.object (written .conditions)) =
      some r.conditions :=
    asTable_of_conveyedBy .condition (fun _ _ h => h.read_eq) (hconveys .conditions)
  have hmetrics : Datum.asTable Metric.ofDatum? (.object (written .metrics)) = some r.metrics :=
    asTable_of_conveyedBy .metric (fun _ _ h => h.read_eq) (hconveys .metrics)
  have hselections : Datum.asTable (SelectionRule.ofDatum? .json)
      (.object (written .selections)) = some r.selections :=
    asTable_of_conveyedBy .selection (fun _ _ h => h.read_eq) (hconveys .selections)
  have hvariableRules : Datum.asTable (VariableRule.ofDatum? .json)
      (.object (written .variableRules)) = some r.variableRules :=
    asTable_of_conveyedBy .variableRule (fun _ _ h => h.read_eq) (hconveys .variableRules)
  have hmutations : Datum.asTable (Datum.asList Mutation.ofDatum?)
      (.object (written .mutations)) = some r.mutations :=
    asTable_of_conveyedBy .mutations (fun _ _ h => h.read_eq) (hconveys .mutations)
  rw [datumOf, ofDatum?, Datum.asRecord_of_nodup _ _ (by simp [Shelf.inOrder, Shelf.name])]
  simp [Shelf.inOrder, Shelf.name, Fields.required, Fields.withDefault, List.lookup_cons,
    hconditions, hmetrics, hselections, hvariableRules, hmutations]

/-- In what a rule set is written as, every node stands at its spot. -/
theorem atSpot?_written (h : r.toDatum? = some d) (s : Spot) :
    Option.Rel (fun e m => m.toDatum? = some e) (d.atSpot? s) (r.at? s) := by
  obtain ⟨written, hwritten, rfl⟩ := toDatum?_eq_some_iff.1 h
  have hshelf : (r.datumOf written).get? s.shelf.name = some (.object (written s.shelf)) := by
    cases s.shelf <;> rfl
  have hentries := Datum.ofEntriesM_eq_some_iff.1 (hwritten s.shelf)
  rw [Datum.atSpot?, hshelf, Option.bind_some, Datum.get?, Datum.lookup_of_forall₂ hentries,
    at?, Table.find?]
  cases hn : Table.findIn s.name (r.shelved s.shelf).entries with
  | none => exact .none
  | some n =>
    have hsome := Datum.isSome_ofEntriesM.1 (Option.isSome_iff_exists.2 ⟨_, hwritten s.shelf⟩)
    have hmem : (s.name, n) ∈ (r.shelved s.shelf).entries := Table.find?_eq_some_iff.1 hn
    obtain ⟨e, he⟩ := Option.isSome_iff_exists.1 (hsome (s.name, n) hmem)
    simp only [Option.bind_some, he]
    exact Node.at?_written s.address he

/-- A rule set with finite floats can be saved exactly when every rule in it is of a known type.
What it is saved as is loaded as the same rule set and has the rules of the rule set at their spots
and nowhere else, each with its type. -/
theorem saved_faithfully (r : RuleSet) (finite : r.Everywhere fun n => AllFinite n.floats) :
    (r.toDatum?.isSome ↔ r.Everywhere fun n => ¬ n.Unrecognized)
      ∧ ∀ d, r.toDatum? = some d →
        ofDatum? .json d = some r
          ∧ ∀ s, Option.Rel Datum.TypedAs (d.atSpot? s) (r.at? s) := by
  refine ⟨r.isSome_toDatum?_iff, fun d h => ⟨ofDatum?_toDatum finite h, fun s => ?_⟩⟩
  have hwritten := atSpot?_written h s
  revert hwritten
  generalize d.atSpot? s = e, r.at? s = n
  rintro (he | _)
  · exact .some (Node.typedAs_toDatum? he)
  · exact .none

end RuleSet

namespace Sample

/-- The rules of a place that darkens when its gloom grows and somebody is left who walks out. -/
def almanac : RuleSet where
  name := "almanac"
  conditions := ⟨[("dusk", .all [
    .test (.pressure "gloom" ⟨some 0.5, none⟩),
    .path ⟨.nonempty, [⟨"walks_to", .src, {}, none⟩], none, [.notSelf]⟩])], by simp⟩
  metrics := ⟨[("shade", .scaled (.ratio (.tagged "dark") .total 0) ⟨some 2, none⟩)], by simp⟩
  mutations := ⟨[("fall", [.modifyPressure "gloom" 0.25])], by simp⟩

theorem almanac_finite : almanac.Everywhere fun n => AllFinite n.floats := by
  rw [RuleSet.everywhere_iff]
  intro shelf entry hentry
  cases shelf with
  | conditions =>
    cases List.mem_singleton.1 hentry
    refine Node.everywhere_iff.2 ⟨by decide, fun slot part hpart => ?_⟩
    cases slot <;> simp only [Node.listed, List.map_cons, List.map_nil, List.mem_cons,
      List.not_mem_nil, or_false] at hpart
    rcases hpart with rfl | rfl
    · exact Node.everywhere_of_no_members (fun _ => rfl) (by decide)
    · refine Node.everywhere_iff.2 ⟨by decide, fun slot constraint hconstraint => ?_⟩
      cases slot <;> simp only [Node.listed, List.map_cons, List.map_nil, List.mem_singleton,
        List.not_mem_nil] at hconstraint
      subst hconstraint
      exact Node.everywhere_of_no_members (fun _ => rfl) (by decide)
  | metrics =>
    cases List.mem_singleton.1 hentry
    exact Node.everywhere_of_no_members (fun _ => rfl) (by decide)
  | mutations =>
    cases List.mem_singleton.1 hentry
    refine Node.everywhere_iff.2 ⟨by decide, fun slot mutation hmutation => ?_⟩
    cases slot <;> simp only [Node.listed, List.map_cons, List.map_nil, List.mem_singleton,
      List.not_mem_nil] at hmutation
    subst hmutation
    exact Node.everywhere_of_no_members (fun _ => rfl) (by decide)
  | selections | variableRules => cases hentry

theorem almanac_saved_faithfully :
    ∃ d, almanac.toDatum? = some d ∧ RuleSet.ofDatum? .json d = some almanac
      ∧ ∀ s, Option.Rel Datum.TypedAs (d.atSpot? s) (almanac.at? s) :=
  ⟨_, rfl, (almanac.saved_faithfully almanac_finite).2 _ rfl⟩

end Sample

end StoryWorld

import StoryWorld.Proofs.Datum.Fields
import StoryWorld.RuleSet.Basic

/-!
# Rules read back as they were written

What a rule is written as, as far as it can be written, is settled and is read as the rule again. A
float that is not finite is written as null and lost, so the floats of a rule have to be finite.
Records that share an object with other fields are read from any object that holds their own.
-/

namespace StoryWorld

/-- Whether all of some floats are finite. -/
def AllFinite (floats : List Float) : Prop := ∀ x ∈ floats, x.isFinite = true

instance (floats : List Float) : Decidable (AllFinite floats) :=
  inferInstanceAs (Decidable (∀ x ∈ floats, x.isFinite = true))

/-! ## Choices -/

@[simp]
theorem Direction.ofName?_name (d : Direction) : ofName? d.name = some d := by cases d <;> rfl

@[simp]
theorem Comparison.ofName?_symbol (c : Comparison) : ofName? c.symbol = some c := by cases c <;> rfl

@[simp]
theorem TimeAnchor.ofName?_name (a : TimeAnchor) : ofName? a.name = some a := by cases a <;> rfl

@[simp]
theorem PathCheck.ofName?_name (c : PathCheck) : ofName? c.name = some c := by cases c <;> rfl

@[simp]
theorem ProminenceCurve.ofName?_name (c : ProminenceCurve) : ofName? c.name = some c := by
  cases c <;> rfl

@[simp]
theorem DecayRate.ofName?_name (r : DecayRate) : ofName? r.name = some r := by cases r <;> rfl

@[simp]
theorem Falloff.ofName?_name (f : Falloff) : ofName? f.name = some f := by cases f <;> rfl

@[simp]
theorem PickStrategy.ofName?_name (p : PickStrategy) : ofName? p.name = some p := by cases p <;> rfl

@[simp]
theorem Prominence.settled_toDatum (p : Prominence) : p.toDatum.Settled := .text _

@[simp]
theorem Prominence.toDatum_ne_null (p : Prominence) : p.toDatum ≠ .null := nofun

@[simp]
theorem Prominence.ofDatum?_toDatum (p : Prominence) : ofDatum? p.toDatum = some p := by
  cases p <;> rfl

@[simp]
theorem TagValue.settled_toDatum (v : TagValue) : v.toDatum.Settled := by
  cases v <;> simp [toDatum]

@[simp]
theorem TagValue.toDatum_ne_null (v : TagValue) : v.toDatum ≠ .null := by
  cases v <;> simp [toDatum]

@[simp]
theorem TagValue.ofDatum?_toDatum (v : TagValue) : ofDatum? v.toDatum = some v := by
  cases v <;> rfl

/-! ## Records among other fields -/

section Records

variable {fields : Fields}

theorem Target.ofFields?_eq {t : Target} (h : fields.Holds t.toFields) :
    ofFields? fields = some t := by
  simp only [toFields, Fields.holds_cons] at h
  simp [ofFields?, Fields.optional_eq, h]

theorem Incidence.ofFields?_eq {i : Incidence} (h : fields.Holds i.toFields) :
    ofFields? fields = some i := by
  simp only [toFields, Fields.holds_append, Fields.holds_cons] at h
  simp [ofFields?, Fields.optional_eq, Fields.withDefault, h, Target.ofFields?_eq h.2]

theorem Census.ofFields?_eq {c : Census} (h : fields.Holds c.toFields) :
    ofFields? fields = some c := by
  simp only [toFields, Fields.holds_cons] at h
  simp [ofFields?, Fields.required, Fields.optional_eq, h]

theorem Criteria.ofFields?_eq {c : Criteria} (h : fields.Holds c.toFields) :
    ofFields? fields = some c := by
  simp only [toFields, Fields.holds_cons] at h
  simp [ofFields?, Fields.withDefault, Fields.optional_eq, h]

theorem Bounds.ofFields?_eq {α : Type} {write : α → Datum} {read : Datum → Option α} {b : Bounds α}
    (hmin : Datum.asOptional read (some (.ofOption write b.min)) = some b.min)
    (hmax : Datum.asOptional read (some (.ofOption write b.max)) = some b.max)
    (h : fields.Holds (b.toFields write)) : ofFields? read fields = some b := by
  simp only [toFields, Fields.holds_cons] at h
  simp [ofFields?, Fields.optional_eq, h, hmin, hmax]

def Bounds.floats (b : Bounds Float) : List Float := b.min.toList ++ b.max.toList

theorem Bounds.ofFields?_float {b : Bounds Float} (finite : AllFinite b.floats)
    (h : fields.Holds (b.toFields .ofFloat)) : ofFields? Datum.asFloat fields = some b := by
  simp only [AllFinite, floats, List.mem_append, Option.mem_toList, or_imp, forall_and] at finite
  exact ofFields?_eq (Datum.asOptional_float finite.1) (Datum.asOptional_float finite.2) h

def EdgeFilter.floats (f : EdgeFilter) : List Float := f.minStrength.toList

theorem EdgeFilter.ofFields?_eq {f : EdgeFilter} (finite : AllFinite f.floats)
    (h : fields.Holds f.toFields) : ofFields? fields = some f := by
  simp only [AllFinite, floats, Option.mem_toList] at finite
  simp only [toFields, Fields.holds_cons] at h
  simp [ofFields?, Fields.optional_eq, Fields.withDefault, h, Datum.asOptional_float finite]

end Records

/-! ## Paths -/

theorem PathStep.conveys (setting : Datum.Setting) (s : PathStep) :
    Datum.Conveys (ofDatum? setting) s.toDatum s := by
  refine Datum.conveys_record (by simp [Target.toFields]) fun fields h => ?_
  simp only [Fields.holds_append, Fields.holds_cons] at h
  simp [Fields.required, Fields.withDefault, Fields.optional_eq, h, Target.ofFields?_eq h.1.2]

theorem PathConstraint.conveys {k : PathConstraint} {d : Datum} (h : k.toDatum? = some d) :
    Datum.Conveys ofDatum? d k := by
  cases k <;> cases h <;>
    refine Datum.conveys_ofRule (by simp [typeNames]) (by simp) (by simp) ?_ <;>
    simp [ofFields?, Fields.required, Fields.withDefault, List.lookup_cons]

theorem PathAssertion.conveys {a : PathAssertion} {d : Datum} (h : a.toDatum? = some d) :
    Datum.Conveys (ofDatum? .whole) d a := by
  obtain ⟨constraints, hconstraints, h⟩ := Option.bind_eq_some_iff.1 h
  cases h
  have hwhere := Datum.conveys_list ((Datum.ofListM_eq_some_iff.1 hconstraints).imp
    fun _ _ => PathConstraint.conveys)
  have hpath := Datum.conveys_ofList fun s (_ : s ∈ a.path) => PathStep.conveys .whole s
  refine Datum.conveys_record ?_ fun fields h => ?_
  · simp [hpath.settled, hwhere.settled, -Datum.settled_list]
  · simp only [Fields.holds_cons] at h
    simp [Fields.required, Fields.withDefault, Fields.optional_eq, h, hpath.read_eq,
      hwhere.read_eq]

theorem Filter.conveys {f : Filter} {d : Datum} (h : f.toDatum? = some d) :
    Datum.Conveys ofDatum? d f := by
  cases f with
  | unrecognized typeName => cases h
  | path a =>
    obtain ⟨assertion, ha, h⟩ := Option.bind_eq_some_iff.1 h
    cases h
    have hconveys := PathAssertion.conveys ha
    refine Datum.conveys_ofRule_of_holds (by decide) (by simp) (by simp [hconveys.settled])
      fun fields h => ?_
    simp only [Fields.holds_cons] at h
    simp [ofFields?, Fields.required, h, hconveys.read_eq]
  | _ =>
    cases h
    refine Datum.conveys_ofRule_of_holds (by decide) (by simp) (by simp) fun fields h => ?_
    simp only [Fields.holds_cons] at h
    simp [ofFields?, Fields.required, Fields.withDefault, Fields.optional_eq, h]

/-! ## Tests -/

def Test.floats : Test → List Float
  | pressure _ range => range.floats
  | pressureAnyAbove _ threshold => [threshold]
  | entityCount _ _ overshoot => overshoot.toList
  | _ => []

theorem Test.typeName_mem (t : Test) : t.typeName ∈ Condition.typeNames := by
  cases t <;> simp [typeName, Condition.typeNames]

theorem Test.names_nodup (t : Test) : ("type" :: t.toFields.map (·.1)).Nodup := by
  cases t <;> simp [toFields, Bounds.toFields, Census.toFields, Incidence.toFields,
    Target.toFields]

theorem Test.settled_toFields (t : Test) : ∀ field ∈ t.toFields, field.2.Settled := by
  cases t <;> simp [toFields, Bounds.toFields, Census.toFields, Incidence.toFields,
    Target.toFields]

theorem Test.ofFields?_eq {t : Test} {fields : Fields} (finite : AllFinite t.floats)
    (h : fields.Holds t.toFields) : ofFields? t.typeName fields = some t := by
  cases t with
  | pressure id range =>
    obtain ⟨hid, hrange⟩ := Fields.holds_cons.1 h
    simp [typeName, ofFields?, Fields.required, hid, Bounds.ofFields?_float finite hrange]
  | entityCount census range overshoot =>
    simp only [toFields, Fields.holds_append, Fields.holds_cons] at h
    simp only [AllFinite, floats, Option.mem_toList] at finite
    obtain ⟨⟨hcensus, hrange⟩, hovershoot, -⟩ := h
    simp [typeName, ofFields?, Fields.optional_eq, hovershoot, Census.ofFields?_eq hcensus,
      Bounds.ofFields?_eq (Datum.asOptional_uint64 _) (Datum.asOptional_uint64 _) hrange,
      Datum.asOptional_float finite]
  | relationshipCount edges range =>
    obtain ⟨hedges, hrange⟩ := Fields.holds_append.1 h
    simp [typeName, ofFields?, Incidence.ofFields?_eq hedges,
      Bounds.ofFields?_eq (Datum.asOptional_uint64 _) (Datum.asOptional_uint64 _) hrange]
  | relationshipExists edges => simp [typeName, ofFields?, Incidence.ofFields?_eq h]
  | prominence range =>
    have hread := Datum.asOptional_ofOption Prominence.ofDatum?_toDatum Prominence.toDatum_ne_null
    simp [typeName, ofFields?, Bounds.ofFields?_eq (hread _) (hread _) h]
  | timeElapsed minTicks since =>
    simp only [toFields, Fields.holds_cons] at h
    simp [typeName, ofFields?, Fields.required_eq _ h.1, Fields.withDefault, h.2.1]
  | cooldownElapsed ticks =>
    simp only [toFields, Fields.holds_cons] at h
    simp [typeName, ofFields?, Fields.required_eq _ h.1]
  | creationsPerEpoch max =>
    simp only [toFields, Fields.holds_cons] at h
    simp [typeName, ofFields?, Fields.required_eq _ h.1]
  | _ =>
    simp only [toFields, Fields.holds_cons] at h
    simp only [AllFinite, floats, List.forall_mem_singleton] at finite
    simp [typeName, ofFields?, Fields.required, Fields.withDefault, Fields.optional_eq, h, finite]

/-! ## Metrics -/

def Count.floats : Count → List Float
  | relationships edges => edges.floats
  | constant value => [value]
  | _ => []

theorem Count.conveys {c : Count} (finite : AllFinite c.floats) :
    Datum.Conveys ofNested? c.toDatum c := by
  have hsettled : c.toDatum.Settled := by
    cases c <;> simp [toDatum, Datum.ofRule, Census.toFields, EdgeFilter.toFields]
  refine ⟨hsettled, ?_⟩
  cases c with
  | entities census =>
    have hnames := (Datum.settled_object.1 hsettled).1
    have hcensus := (Fields.holds_cons.1 (Fields.holds_self hnames)).2
    simp [ofNested?, toDatum, Datum.ofRule, Datum.tagChoice?, Datum.tag?, ofTyped?,
      Datum.asRecord_of_nodup _ _ hnames, Census.ofFields?_eq hcensus]
  | relationships edges =>
    have hnames := (Datum.settled_object.1 hsettled).1
    have hedges := (Fields.holds_cons.1 (Fields.holds_self hnames)).2
    simp [ofNested?, toDatum, Datum.ofRule, Datum.tagChoice?, Datum.tag?, ofTyped?,
      Datum.asRecord_of_nodup _ _ hnames, EdgeFilter.ofFields?_eq finite hedges]
  | _ =>
    have hnames := (Datum.settled_object.1 hsettled).1
    simp only [AllFinite, floats, List.forall_mem_singleton] at finite
    simp [ofNested?, toDatum, Datum.ofRule, Datum.tagChoice?, Datum.tag?, ofTyped?,
      Datum.asRecord_of_nodup _ _ hnames, Fields.required, List.lookup_cons, finite]

def Scale.floats (s : Scale) : List Float := s.coefficient.toList ++ s.cap.toList

theorem Scale.names_sublist (s : Scale) :
    (s.toFields.map (·.1)).Sublist ["coefficient", "cap"] := by
  obtain ⟨coefficient, cap⟩ := s
  cases coefficient <;> cases cap <;> simp [toFields]

theorem Scale.settled_toFields (s : Scale) : ∀ field ∈ s.toFields, field.2.Settled := by
  obtain ⟨coefficient, cap⟩ := s
  cases coefficient <;> cases cap <;> simp [toFields]

/-- A scale is read from behind fields that have other names. -/
theorem Scale.ofFields?_append {s : Scale} {fields : Fields} (finite : AllFinite s.floats)
    (hcoefficient : "coefficient" ∉ fields.map (·.1)) (hcap : "cap" ∉ fields.map (·.1)) :
    ofFields? (fields ++ s.toFields) = some s := by
  obtain ⟨coefficient, cap⟩ := s
  simp only [AllFinite, floats, List.mem_append, Option.mem_toList, or_imp, forall_and] at finite
  simp only [ofFields?, Fields.optional_eq, Fields.lookup_append_of_notMem hcoefficient,
    Fields.lookup_append_of_notMem hcap, toFields]
  cases coefficient <;> cases cap <;> simp_all [List.lookup_cons]

def Measure.floats : Measure → List Float
  | constant value => [value]
  | relationshipCount _ edges _ | connectionCount _ edges _ => edges.floats
  | ratio numerator denominator fallback => fallback :: (numerator.floats ++ denominator.floats)
  | sharedRelationship _ _ minStrength _ _ => minStrength.toList
  | falloff _ distance maxDistance => distance :: maxDistance.toList
  | _ => []

theorem Measure.typeName_mem (m : Measure) : m.typeName ∈ Metric.typeNames := by
  cases m <;> simp [typeName, Metric.typeNames]

theorem Measure.names_nodup (m : Measure) :
    (("type" :: m.toFields.map (·.1)) ++ ["coefficient", "cap"]).Nodup := by
  cases m <;> simp [toFields, Census.toFields, EdgeFilter.toFields]

theorem Measure.settled_toFields {m : Measure} (finite : AllFinite m.floats) :
    ∀ field ∈ m.toFields, field.2.Settled := by
  cases m with
  | ratio numerator denominator fallback =>
    simp only [AllFinite, floats, List.forall_mem_cons, List.mem_append, or_imp,
      forall_and] at finite
    simp [toFields, (Count.conveys finite.2.1).settled, (Count.conveys finite.2.2).settled]
  | _ => simp [toFields, Census.toFields, EdgeFilter.toFields]

theorem Measure.ofFields?_eq {m : Measure} {fields : Fields} (finite : AllFinite m.floats)
    (h : fields.Holds m.toFields) : ofFields? m.typeName fields = some m := by
  cases m with
  | entityCount census => simp [typeName, ofFields?, Census.ofFields?_eq h]
  | relationshipCount entity edges direction | connectionCount entity edges direction =>
    simp only [toFields, Fields.holds_append, Fields.holds_cons] at h
    simp [typeName, ofFields?, Fields.optional_eq, Fields.withDefault, h,
      EdgeFilter.ofFields?_eq finite h.2]
  | ratio numerator denominator fallback =>
    simp only [toFields, Fields.holds_cons] at h
    simp only [AllFinite, floats, List.forall_mem_cons, List.mem_append, or_imp,
      forall_and] at finite
    simp [typeName, ofFields?, Fields.required, Fields.withDefault, h, finite.1,
      (Count.conveys finite.2.1).read_eq, (Count.conveys finite.2.2).read_eq]
  | sharedRelationship kind direction minStrength entity partner =>
    simp only [toFields, Fields.holds_cons] at h
    simp only [AllFinite, floats, Option.mem_toList] at finite
    simp [typeName, ofFields?, Fields.required, Fields.withDefault, Fields.optional_eq, h,
      Datum.asOptional_float finite]
  | falloff curve distance maxDistance =>
    simp only [toFields, Fields.holds_cons] at h
    simp only [AllFinite, floats, List.forall_mem_cons, Option.mem_toList] at finite
    simp [typeName, ofFields?, Fields.required, Fields.optional_eq, h, finite.1,
      Datum.asOptional_float finite.2]
  | _ =>
    simp only [toFields, Fields.holds_cons] at h
    simp only [AllFinite, floats, List.forall_mem_singleton] at finite
    simp [typeName, ofFields?, Fields.required, Fields.withDefault, Fields.optional_eq, h, finite]

def Metric.floats : Metric → List Float
  | scaled measure scale => measure.floats ++ scale.floats
  | unrecognized _ => []

theorem Metric.conveys {m : Metric} {d : Datum} (finite : AllFinite m.floats)
    (h : m.toDatum? = some d) : Datum.Conveys ofDatum? d m := by
  cases m with
  | unrecognized typeName => cases h
  | scaled measure scale =>
    cases h
    simp only [AllFinite, floats, List.mem_append, or_imp, forall_and] at finite
    have hnames : ("type" :: (measure.toFields ++ scale.toFields).map (·.1)).Nodup := by
      rw [List.map_append, ← List.cons_append]
      exact measure.names_nodup.sublist (List.Sublist.append_left scale.names_sublist _)
    have hfields : ∀ field ∈ measure.toFields ++ scale.toFields, field.2.Settled :=
      List.forall_mem_append.2 ⟨measure.settled_toFields finite.1, scale.settled_toFields⟩
    have hother := (List.nodup_append.1 measure.names_nodup).2.2
    refine Datum.conveys_ofRule measure.typeName_mem hnames hfields ?_
    have hholds := (Fields.holds_append.1 (Datum.holds_ofRule hnames measure.typeName)).1
    rw [ofFields?, Measure.ofFields?_eq finite.1 hholds, ← List.cons_append,
      Scale.ofFields?_append finite.2]
    · rfl
    · exact fun hmem => hother _ hmem "coefficient" (by simp) rfl
    · exact fun hmem => hother _ hmem "cap" (by simp) rfl

/-! ## Mutations -/

def Mutation.floats : Mutation → List Float
  | createRelationship _ _ _ strength _ _ => strength.toList
  | adjustStrength _ _ _ delta => [delta]
  | modifyPressure _ delta => [delta]
  | _ => []

theorem Mutation.conveys {m : Mutation} {d : Datum} (finite : AllFinite m.floats)
    (h : m.toDatum? = some d) : Datum.Conveys ofDatum? d m := by
  cases m with
  | unrecognized typeName => cases h
  | createRelationship kind src dst strength category bidirectional =>
    cases h
    simp only [AllFinite, floats, Option.mem_toList] at finite
    refine Datum.conveys_ofRule_of_holds (by decide) (by simp) (by simp) fun fields h => ?_
    simp only [Fields.holds_cons] at h
    simp [ofFields?, Fields.required, Fields.withDefault, Fields.optional_eq, h,
      Datum.asOptional_float finite]
  | _ =>
    cases h
    simp only [AllFinite, floats, List.forall_mem_singleton] at finite
    refine Datum.conveys_ofRule_of_holds (by decide) (by simp) (by simp) fun fields h => ?_
    simp only [Fields.holds_cons] at h
    simp [ofFields?, Fields.required, Fields.withDefault, h, finite]

/-! ## Selections -/

theorem SaturationLimit.conveys (setting : Datum.Setting) (l : SaturationLimit) :
    Datum.Conveys (ofDatum? setting) l.toDatum l := by
  refine Datum.conveys_record (by simp) fun fields h => ?_
  simp only [Fields.holds_cons] at h
  simp [Fields.required_eq _ h.1, Fields.required_eq _ h.2.2.2.1, Fields.withDefault,
    Fields.optional_eq, h.2.1, h.2.2.1]

def Strategy.floats : Strategy → List Float
  | byProximity _ maxDistance => maxDistance.toList
  | _ => []

theorem Strategy.settled_toDatum (s : Strategy) : s.toDatum.Settled := by
  cases s <;> simp [toDatum, toFields]

theorem Strategy.ofSpare?_toFields {s : Strategy} (finite : AllFinite s.floats) :
    ofSpare? .json s.toFields = some s := by
  have hwhole : (Datum.object s.toFields).whole? = some s.toDatum := s.settled_toDatum.whole?_eq
  rw [ofSpare?, hwhole]
  cases s with
  | byProximity reference maxDistance =>
    simp only [AllFinite, floats, Option.mem_toList] at finite
    simp [toDatum, toFields, typeName, Datum.tagChoice?, Datum.tag?, ofTyped?,
      Datum.asRecord_of_nodup, Fields.required, Fields.optional_eq, List.lookup_cons,
      Datum.asOptional_float finite]
  | _ =>
    simp [toDatum, toFields, typeName, Datum.tagChoice?, Datum.tag?, ofTyped?,
      Datum.asRecord_of_nodup, Fields.required, Fields.withDefault, Fields.optional_eq,
      List.lookup_cons]

/-- The fields of a strategy are those that a selection rule has no use for, and all of them. -/
theorem Strategy.filter_fields {s : Strategy} {fields : Fields}
    (h : ∀ field ∈ fields, field.1 ∈ SelectionRule.fieldNames) :
    (s.toFields ++ fields).filter (·.1 ∉ SelectionRule.fieldNames) = s.toFields := by
  have hown : s.toFields.filter (·.1 ∉ SelectionRule.fieldNames) = s.toFields := by
    cases s <;> simp [toFields, SelectionRule.fieldNames, Criteria.fieldNames]
  have hother : fields.filter (·.1 ∉ SelectionRule.fieldNames) = [] :=
    List.filter_eq_nil_iff.2 fun field hfield => by simp [h field hfield]
  rw [List.filter_append, hown, hother, List.append_nil]

theorem SelectionRule.conveys {r : SelectionRule} {d : Datum} (finite : AllFinite r.strategy.floats)
    (h : r.toDatum? = some d) : Datum.Conveys (ofDatum? .json) d r := by
  obtain ⟨filters, hfilters, h⟩ := Option.bind_eq_some_iff.1 h
  have hfilters := Datum.conveys_list ((Datum.ofListM_eq_some_iff.1 hfilters).imp
    fun _ _ => Filter.conveys)
  have hlimits := Datum.conveys_ofList fun l (_ : l ∈ r.saturationLimits) =>
    SaturationLimit.conveys .json l
  obtain ⟨fields, hfields, h⟩ : ∃ fields, r.strategy.toFields ++ r.criteria.toFields ++ [
      ("exclude_subtypes", Datum.ofList .text r.excludeSubtypes),
      ("filters", .list filters),
      ("saturation_limits", .ofList SaturationLimit.toDatum r.saturationLimits),
      ("pick_strategy", r.pickStrategy.toDatum),
      ("max_results", .ofOption (.ofNat ·.toNat) r.maxResults)] = fields ∧
        Datum.object fields = d := ⟨_, rfl, Option.some.inj h⟩
  subst h
  have hsettled : (Datum.object fields).Settled := by
    rw [← hfields]
    cases r.strategy <;> simp [Strategy.toFields, Criteria.toFields, hfilters.settled,
      hlimits.settled, -Datum.settled_list]
  have hnames := (Datum.settled_object.1 hsettled).1
  have hspare : fields.filter (·.1 ∉ fieldNames) = r.strategy.toFields := by
    rw [← hfields, List.append_assoc, Strategy.filter_fields]
    simp [Criteria.toFields, fieldNames, Criteria.fieldNames]
  have hholds := Fields.holds_self hnames
  nth_rewrite 2 [← hfields] at hholds
  simp only [Fields.holds_append, Fields.holds_cons] at hholds
  obtain ⟨⟨-, hcriteria⟩, hholds⟩ := hholds
  refine ⟨hsettled, ?_⟩
  rw [ofDatum?, Datum.asNamed_of_nodup _ hnames]
  simp only [Option.bind_eq_bind, Option.bind_some, hspare, Strategy.ofSpare?_toFields finite]
  simp [Criteria.ofFields?_eq hcriteria, Fields.withDefault, Fields.optional_eq, hholds,
    hfilters.read_eq, hlimits.read_eq]

/-! ## Variables -/

theorem VariableSource.conveys (s : VariableSource) : Datum.Conveys ofDatum? s.toDatum s := by
  have hsettled : s.toDatum.Settled := by cases s <;> simp [toDatum]
  refine ⟨hsettled, ?_⟩
  rw [ofDatum?, hsettled.whole?_eq]
  cases s <;> simp [toDatum, Datum.tagText?, Datum.tag?, Datum.asRecord_of_nodup,
    Fields.required, Fields.withDefault, List.lookup_cons]

theorem VariableRule.conveys {r : VariableRule} {d : Datum} (h : r.toDatum? = some d) :
    Datum.Conveys (ofDatum? .json) d r := by
  obtain ⟨filters, hfilters, h⟩ := Option.bind_eq_some_iff.1 h
  obtain ⟨preferFilters, hprefer, h⟩ := Option.bind_eq_some_iff.1 h
  cases h
  have hfilters := Datum.conveys_list ((Datum.ofListM_eq_some_iff.1 hfilters).imp
    fun _ _ => Filter.conveys)
  have hprefer := Datum.conveys_list ((Datum.ofListM_eq_some_iff.1 hprefer).imp
    fun _ _ => Filter.conveys)
  have hsource := r.source.conveys
  refine Datum.conveys_record ?_ fun fields h => ?_
  · simp [Criteria.toFields, hsource.settled, hfilters.settled, hprefer.settled,
      -Datum.settled_list]
  · simp only [Fields.holds_append, Fields.holds_cons] at h
    simp [Fields.withDefault, Fields.optional_eq, h, Criteria.ofFields?_eq h.1.2,
      hsource.read_eq, hfilters.read_eq, hprefer.read_eq]

end StoryWorld

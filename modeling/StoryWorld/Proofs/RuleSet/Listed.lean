import StoryWorld.Proofs.RuleSet.Contained

/-!
# Rules given as lists

The reader of a rule looks at no other fields than those that its type lists
(`Condition.lists_fieldNames?` and its like), and every type lists its fields but for the types of
metrics (`Family.isSome_fieldNames?`). So a rule may be told either way: a list that says of each
field in turn what an object says of it, and leaves out what the object leaves out, is read as the
object is (`Family.read?_list`), whatever else the object says.
-/

namespace StoryWorld

namespace Fields

/-- Whether two records say the same under each of some names. -/
def AgreeOn (names : List String) (fields fields' : Fields) : Prop :=
  ∀ name ∈ names, List.lookup name fields = List.lookup name fields'

namespace AgreeOn

variable {α : Type} {names : List String} {fields fields' : Fields}
  (h : AgreeOn names fields fields') {name : String} (hname : name ∈ names)
  (read : Datum → Option α)

include h hname

theorem required : fields.required name read = fields'.required name read := by
  rw [Fields.required, h name hname, Fields.required]

theorem optional : fields.optional name read = fields'.optional name read := by
  rw [Fields.optional, h name hname, Fields.optional]

theorem withDefault (default : α) :
    fields.withDefault name read default = fields'.withDefault name read default := by
  rw [Fields.withDefault, h name hname, Fields.withDefault]

end AgreeOn

/-- Under the name in a place, a list of values has the value in that place. -/
theorem lookup_zip {name : String} : ∀ {names : List String} {i : Nat}, names.Nodup →
    names[i]? = some name → ∀ items : List Datum, List.lookup name (names.zip items) = items[i]?
  | _ :: _, _, _, _, [] => by simp
  | _ :: names, 0, _, hi, item :: items => by
    cases hi
    exact List.lookup_cons_self
  | name' :: names, i + 1, hnames, hi, item :: items => by
    obtain ⟨hnew, hrest⟩ := List.nodup_cons.1 hnames
    have hi : names[i]? = some name := hi
    have hne : name ≠ name' := by
      rintro rfl
      exact hnew (List.mem_of_getElem? hi)
    rw [List.zip_cons_cons, List.lookup_cons, beq_false_of_ne hne]
    exact lookup_zip hrest hi items

end Fields

/-! ## What readers look at -/

namespace Datum

/-- Whether `names` are the fields of a type: the type is known, no name comes twice, and its reader
looks at nothing else. -/
structure Lists {α : Type} (known : List String) (read : String → Fields → Option α)
    (type : String) (names : List String) : Prop where
  known : type ∈ known
  nodup : names.Nodup
  enough : ∀ fields fields', Fields.AgreeOn names fields fields' →
    read type fields = read type fields'

end Datum

section FieldNames

variable {type : String} {names : List String}

theorem PathConstraint.lists_fieldNames? (h : fieldNames? type = some names) :
    Datum.Lists typeNames ofFields? type names := by
  unfold fieldNames? at h
  split at h <;> cases h <;> refine ⟨by simp [typeNames], by simp, fun fields fields' same => ?_⟩ <;>
    simp [ofFields?, same.required, same.withDefault]

theorem Filter.lists_fieldNames? (h : fieldNames? type = some names) :
    Datum.Lists typeNames ofFields? type names := by
  unfold fieldNames? at h
  split at h <;> cases h <;> refine ⟨by simp [typeNames], by simp, fun fields fields' same => ?_⟩ <;>
    simp [ofFields?, same.required, same.withDefault, same.optional]

theorem Mutation.lists_fieldNames? (h : fieldNames? type = some names) :
    Datum.Lists typeNames ofFields? type names := by
  unfold fieldNames? at h
  split at h <;> cases h <;> refine ⟨by simp [typeNames], by simp, fun fields fields' same => ?_⟩ <;>
    simp [ofFields?, same.required, same.withDefault, same.optional]

theorem Condition.subconditions?_of_agreeOn {fields fields' : Fields}
    (h : Fields.AgreeOn names fields fields') (hname : "conditions" ∈ names) :
    subconditions? fields = subconditions? fields' := by
  rw [subconditions?_eq, subconditions?_eq, h "conditions" hname]

theorem Condition.lists_fieldNames? (h : fieldNames? type = some names) :
    Datum.Lists typeNames (fun type fields => ofFields? (subconditions? fields) type fields) type
      names := by
  unfold fieldNames? at h
  split at h <;> cases h <;> refine ⟨by simp [typeNames], by simp, fun fields fields' same => ?_⟩ <;>
    simp [ofFields?, Test.ofFields?, Census.ofFields?, Incidence.ofFields?, Target.ofFields?,
      Bounds.ofFields?, same.required, same.withDefault, same.optional,
      subconditions?_of_agreeOn same]

end FieldNames

/-! ## Lists in the place of objects -/

namespace Datum

/-- Whether a list of values says of each of some fields what an object says of it. -/
structure Tells (names : List String) (items : List Datum) (fields : Fields) : Prop where
  short : items.length ≤ names.length
  same : ∀ (i : Nat) (name : String), names[i]? = some name → items[i]? = List.lookup name fields

namespace Tells

variable {names : List String} {items : List Datum} {fields : Fields}
  (h : Tells names items fields)

include h

theorem agreeOn (hnames : names.Nodup) : Fields.AgreeOn names (names.zip items) fields := by
  intro name hname
  obtain ⟨i, hi⟩ := List.mem_iff_getElem?.1 hname
  rw [Fields.lookup_zip hnames hi, h.same i name hi]

/-- Each value of the list is a value of the object. -/
theorem settled (hfields : (object fields).Settled) : ∀ d ∈ items, d.Settled := by
  intro d hd
  obtain ⟨i, hi, rfl⟩ := List.mem_iff_getElem.1 hd
  have hplace : i < names.length := Nat.lt_of_lt_of_le hi h.short
  have hlookup := h.same i names[i] (List.getElem?_eq_getElem hplace)
  rw [List.getElem?_eq_getElem hi] at hlookup
  exact (settled_object.1 hfields).2 _ (Fields.mem_of_lookup hlookup.symm)

end Tells

theorem readSettled_list {α : Type} {known : List String} {order : String → Option (List String)}
    {unrecognized : String → α} {read : String → Fields → Option α} {type : String}
    {names : List String} {items : List Datum} {fields : Fields} (horder : order type = some names)
    (hlists : Lists known read type names) (htype : List.lookup "type" fields = some (.text type))
    (h : Tells names items fields) :
    readSettled known order unrecognized read (.list (.text type :: items)) =
      readSettled known order unrecognized read (.object fields) := by
  have hrule : asRule order (.list (.text type :: items)) = some (type, names.zip items) := by
    rw [asRule, horder, Option.bind_eq_bind, Option.bind_some, asRecord_list .whole h.short]
    rfl
  rw [readSettled_object htype, if_pos hlists.known, readSettled, hrule, Option.bind_eq_bind,
    Option.bind_some]
  exact (if_pos hlists.known).trans (hlists.enough _ _ (h.agreeOn hlists.nodup))

end Datum

namespace Family

/-- The fields of each type of a family, in their order. -/
def fieldNames? : Family → String → Option (List String)
  | condition => Condition.fieldNames?
  | metric => fun _ => none
  | filter => Filter.fieldNames?
  | mutation => Mutation.fieldNames?
  | pathConstraint => PathConstraint.fieldNames?

variable {family : Family} {type : String} {names : List String} {items : List Datum}
  {fields : Fields}

/-- Every type has its order, but for the types of metrics. -/
theorem isSome_fieldNames? (hfamily : family ≠ metric) (htype : type ∈ family.typeNames) :
    (family.fieldNames? type).isSome := by
  cases family with
  | metric => exact absurd rfl hfamily
  | condition =>
    have hall : ∀ type ∈ Condition.typeNames, (Condition.fieldNames? type).isSome := by decide
    exact hall type htype
  | filter =>
    have hall : ∀ type ∈ Filter.typeNames, (Filter.fieldNames? type).isSome := by decide
    exact hall type htype
  | mutation =>
    have hall : ∀ type ∈ Mutation.typeNames, (Mutation.fieldNames? type).isSome := by decide
    exact hall type htype
  | pathConstraint =>
    have hall : ∀ type ∈ PathConstraint.typeNames, (PathConstraint.fieldNames? type).isSome := by
      decide
    exact hall type htype

theorem readSettled?_list (horder : family.fieldNames? type = some names)
    (htype : List.lookup "type" fields = some (.text type)) (h : Datum.Tells names items fields) :
    family.readSettled? (.list (.text type :: items)) = family.readSettled? (.object fields) := by
  cases family with
  | condition =>
    have horder : Condition.fieldNames? type = some names := horder
    rw [readSettled?, readSettled?, Condition.ofSettled?_eq, Condition.ofSettled?_eq,
      Datum.readSettled_list horder (Condition.lists_fieldNames? horder) htype h]
  | metric => cases horder
  | filter =>
    have horder : Filter.fieldNames? type = some names := horder
    rw [readSettled?, readSettled?,
      Datum.readSettled_list horder (Filter.lists_fieldNames? horder) htype h]
  | mutation =>
    have horder : Mutation.fieldNames? type = some names := horder
    rw [readSettled?, readSettled?,
      Datum.readSettled_list horder (Mutation.lists_fieldNames? horder) htype h]
  | pathConstraint =>
    have horder : PathConstraint.fieldNames? type = some names := horder
    rw [readSettled?, readSettled?,
      Datum.readSettled_list horder (PathConstraint.lists_fieldNames? horder) htype h]

/-- A rule whose type lists its fields may be given as a list in the place of an object. -/
theorem read?_list (hfields : (Datum.object fields).Settled)
    (horder : family.fieldNames? type = some names)
    (htype : List.lookup "type" fields = some (.text type)) (h : Datum.Tells names items fields) :
    family.read? (.list (.text type :: items)) = family.read? (.object fields) := by
  have hlist : (Datum.list (.text type :: items)).Settled :=
    .list (List.forall_mem_cons.2 ⟨.text type, h.settled hfields⟩)
  rw [read?_eq, read?_eq, hlist.settled?_eq, hfields.settled?_eq, Option.bind_some,
    Option.bind_some, readSettled?_list horder htype h]

end Family

end StoryWorld

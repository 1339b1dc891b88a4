import Mathlib.Data.List.Forall2
import Mathlib.Data.List.Nodup
import StoryWorld.Proofs.Datum.Settled

/-!
# Reading what was written

What a writer puts under a name, the reader of a field finds there, as long as no name is used
twice. A record may be written as part of a larger object and is read from it all the same: its
reader only asks that the object holds its fields (`Fields.Holds`). There is one lemma for each kind
of value that a field may have. What is read apart from anything else is settled data that
conveys a value to its reader (`Datum.Conveys`). Records that are given as lists are never written,
but what is read from one is read from fields with different names all the same
(`Datum.settled_of_asRecord`).
-/

namespace StoryWorld

namespace Fields

/-- Whether an object has some fields, and nothing else under their names. -/
def Holds (fields part : Fields) : Prop := ∀ field ∈ part, List.lookup field.1 fields = some field.2

section Holds

variable {fields part part' : Fields} {name : String} {d : Datum}

@[simp]
theorem holds_nil : fields.Holds [] := by simp [Holds]

@[simp]
theorem holds_cons :
    fields.Holds ((name, d) :: part) ↔ List.lookup name fields = some d ∧ fields.Holds part := by
  simp [Holds]

@[simp]
theorem holds_append :
    fields.Holds (part ++ part') ↔ fields.Holds part ∧ fields.Holds part' := by
  simp [Holds, or_imp, forall_and]

theorem lookup_eq_none (h : name ∉ fields.map (·.1)) : List.lookup name fields = none := by
  rw [List.lookup_eq_none_iff]
  intro field hfield
  rw [bne_iff_ne]
  rintro rfl
  exact h (List.mem_map_of_mem hfield)

theorem mem_of_lookup (h : List.lookup name fields = some d) : (name, d) ∈ fields := by
  obtain ⟨before, after, rfl, -⟩ := List.lookup_eq_some_iff.1 h
  exact List.mem_append_right _ List.mem_cons_self

theorem lookup_append_of_notMem (h : name ∉ fields.map (·.1)) :
    List.lookup name (fields ++ part) = List.lookup name part := by
  rw [List.lookup_append, lookup_eq_none h, Option.none_or]

/-- An object that repeats no name holds its own fields. -/
theorem holds_self : ∀ {fields : Fields}, (fields.map (·.1)).Nodup → fields.Holds fields
  | [], _ => holds_nil
  | (name, d) :: fields, h => by
    obtain ⟨hname, hnames⟩ := List.nodup_cons.1 h
    refine holds_cons.2 ⟨List.lookup_cons_self, fun field hfield => ?_⟩
    have hne : field.1 ≠ name := fun heq =>
      hname (List.mem_map.2 ⟨field, hfield, heq⟩)
    rw [List.lookup_cons, beq_false_of_ne hne]
    exact holds_self hnames field hfield

end Holds

end Fields

namespace Datum

/-! ## Records -/

section Records

variable {known : List String} {setting : Setting} {d : Datum} {fields : Fields}

/-- An object that repeats no name has fields whatever names are known. -/
theorem asNamed_of_nodup (known : List String) (h : (fields.map (·.1)).Nodup) :
    asNamed known (.object fields) = some fields := by
  refine if_pos (List.all_eq_true.2 fun name _ => decide_eq_true ?_)
  have hcount := List.nodup_iff_count_le_one.1 h name
  rwa [List.count, List.countP_map] at hcount

theorem asRecord_of_nodup (setting : Setting) (known : List String)
    (h : (fields.map (·.1)).Nodup) : asRecord setting known (.object fields) = some fields :=
  asNamed_of_nodup known h

theorem asRecord_list {items : List Datum} (setting : Setting)
    (h : items.length ≤ known.length) :
    asRecord setting known (.list items) = some (known.zip items) := if_pos (.inr h)

/-- The fields of a record are those of an object or the values of a list. -/
theorem eq_of_asRecord (h : asRecord setting known d = some fields) :
    d = .object fields ∨ ∃ items, d = .list items ∧ fields = known.zip items := by
  cases d with
  | object fields' =>
    obtain ⟨-, h⟩ := Option.ite_none_right_eq_some.1 h
    cases h
    exact .inl rfl
  | list items =>
    obtain ⟨-, h⟩ := Option.ite_none_right_eq_some.1 h
    cases h
    exact .inr ⟨items, rfl, rfl⟩
  | _ => cases h

theorem map_fst_zip_sublist : ∀ (known : List String) (items : List Datum),
    ((known.zip items).map (·.1)).Sublist known
  | [], _ => .slnil
  | _ :: _, [] => List.nil_sublist _
  | name :: known, _ :: items => (map_fst_zip_sublist known items).cons_cons name

/-- From settled data, a record has settled fields with different names. -/
theorem settled_of_asRecord (hknown : known.Nodup) (hsettled : d.Settled)
    (h : asRecord setting known d = some fields) : (object fields).Settled := by
  rcases eq_of_asRecord h with rfl | ⟨items, rfl, rfl⟩
  · exact hsettled
  · refine .object (hknown.sublist (map_fst_zip_sublist known items)) fun field hfield => ?_
    exact settled_list.1 hsettled field.2 (List.of_mem_zip hfield).2

end Records

/-! ## Scalars -/

@[simp]
theorem asText_text (s : String) : asText (.text s) = some s := rfl

@[simp]
theorem asBool_bool (b : Bool) : asBool (.bool b) = some b := rfl

@[simp]
theorem asFloat_ofFloat {x : Float} (finite : x.isFinite = true) :
    asFloat (ofFloat x) = some x := by
  rw [ofFloat, if_pos finite]
  rfl

theorem asNatBelow_ofNat {n bound : Nat} (h : n < bound) : asNatBelow bound (ofNat n) = some n := by
  rw [ofNat, asNatBelow, if_pos ⟨Int.natCast_nonneg n, Int.ofNat_lt.2 h⟩, Int.toNat_natCast]

@[simp]
theorem asUInt64_ofNat (n : UInt64) : asUInt64 (ofNat n.toNat) = some n := by
  rw [asUInt64, asNatBelow_ofNat n.toNat_lt, Option.map_some, UInt64.ofNat_toNat]

@[simp]
theorem asUInt32_ofNat (n : UInt32) : asUInt32 (ofNat n.toNat) = some n := by
  rw [asUInt32, asNatBelow_ofNat n.toNat_lt, Option.map_some, UInt32.ofNat_toNat]

@[simp]
theorem asInt32_int (n : Int32) : asInt32 (.int n.toInt) = some n := by
  rw [asInt32, if_pos ⟨n.minValue_le_toInt, n.toInt_le⟩, Int32.ofInt_toInt]

/-! ## Choices -/

section Choices

variable {α : Type} (name : α → String) (a : α)

@[simp]
theorem settled_ofChoice : (ofChoice name a).Settled := .text _

@[simp]
theorem asChoice_ofChoice (setting : Setting) (choose : String → Option α) :
    asChoice setting choose (ofChoice name a) = choose (name a) := rfl

end Choices

/-! ## Optional fields -/

/-- What is under a name, as an optional field reads it. -/
def asOptional {α : Type} (read : Datum → Option α) : Option Datum → Option (Option α)
  | none | some .null => some none
  | some d => (read d).map some

section Optional

variable {α : Type} {write : α → Datum} {read : Datum → Option α}

@[simp]
theorem asOptional_none : asOptional read none = some none := rfl

@[simp]
theorem asOptional_ofOption (hread : ∀ a, read (write a) = some a) (hnull : ∀ a, write a ≠ .null)
    (o : Option α) : asOptional read (some (ofOption write o)) = some o := by
  cases o with
  | none => rfl
  | some a =>
    have hread := hread a
    have hnull := hnull a
    simp only [ofOption]
    unfold asOptional
    split
    · rename_i heq
      cases heq
    · rename_i heq
      exact absurd (Option.some.inj heq) hnull
    · rename_i heq
      rw [← Option.some.inj heq, hread]
      rfl

@[simp]
theorem asOptional_text (o : Option String) :
    asOptional asText (some (ofOption .text o)) = some o :=
  asOptional_ofOption asText_text (fun _ => nofun) o

@[simp]
theorem asOptional_uint64 (o : Option UInt64) :
    asOptional asUInt64 (some (ofOption (ofNat ·.toNat) o)) = some o :=
  asOptional_ofOption asUInt64_ofNat (fun _ => nofun) o

@[simp]
theorem asOptional_ofFloat {x : Float} (finite : x.isFinite = true) :
    asOptional asFloat (some (ofFloat x)) = some (some x) := by
  rw [ofFloat, if_pos finite]
  rfl

@[simp]
theorem asOptional_float {o : Option Float} (finite : ∀ x, o = some x → x.isFinite = true) :
    asOptional asFloat (some (ofOption ofFloat o)) = some o := by
  cases o with
  | none => rfl
  | some x => exact asOptional_ofFloat (finite x rfl)

end Optional

/-! ## Lists -/

section Lists

variable {α : Type} {read : Datum → Option α}

theorem readItems_of_forall₂ {l : List α} {items : List Datum}
    (h : List.Forall₂ (fun a d => read d = some a) l items) : readItems read items = some l := by
  induction h with
  | nil => rfl
  | cons ha _ ih =>
    rw [readItems, ha, ih]
    rfl

theorem readItems_map {write : α → Datum} {l : List α} (h : ∀ a ∈ l, read (write a) = some a) :
    readItems read (l.map write) = some l :=
  readItems_of_forall₂ (List.forall₂_map_right_iff.2 (List.forall₂_same.2 h))

@[simp]
theorem asList_texts (l : List String) : asList asText (ofList .text l) = some l :=
  readItems_map fun _ _ => rfl

theorem ofListM_eq_some_iff {write : α → Option Datum} : ∀ {l : List α} {items : List Datum},
    ofListM write l = some items ↔ List.Forall₂ (fun a d => write a = some d) l items
  | [], items => by cases items <;> simp [ofListM]
  | a :: l, items => by
    cases items <;> simp [ofListM, Option.bind_eq_some_iff, ofListM_eq_some_iff]

/-- What an item is written as stands at its place. -/
theorem getElem?_of_forall₂ {write : α → Option Datum} {l : List α} {items : List Datum}
    (h : List.Forall₂ (fun a d => write a = some d) l items) (i : Nat) :
    items[i]? = l[i]?.bind write := by
  induction h generalizing i with
  | nil => rfl
  | cons ha _ ih =>
    cases i with
    | zero => exact ha.symm
    | succ i => exact ih i

theorem isSome_ofListM {write : α → Option Datum} : ∀ {l : List α},
    (ofListM write l).isSome ↔ ∀ a ∈ l, (write a).isSome
  | [] => by simp [ofListM]
  | a :: l => by
    rw [List.forall_mem_cons, ← isSome_ofListM]
    cases hd : write a <;> cases hl : ofListM write l <;> simp [ofListM, hd, hl]

end Lists

/-! ## Data that stands by itself -/

/-- Whether data is settled and conveys a value to a reader. -/
structure Conveys {α : Type} (read : Datum → Option α) (d : Datum) (a : α) : Prop where
  settled : d.Settled
  read_eq : read d = some a

section Conveys

variable {α : Type} {read : Datum → Option α}

theorem conveys_list {l : List α} {items : List Datum}
    (h : List.Forall₂ (fun a d => Conveys read d a) l items) :
    Conveys (asList read) (.list items) l where
  settled := .list fun d hd => by
    obtain ⟨i, hi, rfl⟩ := List.getElem_of_mem hd
    exact (h.get (h.length_eq ▸ hi) hi).settled
  read_eq := readItems_of_forall₂ (h.imp fun _ _ hconveys => hconveys.read_eq)

theorem conveys_ofList {write : α → Datum} {l : List α} (h : ∀ a ∈ l, Conveys read (write a) a) :
    Conveys (asList read) (ofList write l) l :=
  conveys_list (List.forall₂_map_right_iff.2 (List.forall₂_same.2 h))

/-- A record conveys what its reader gets from any object that holds its fields. -/
theorem conveys_record {setting : Setting} {known : List String} {read : Fields → Option α}
    {fields : Fields} {a : α} (hsettled : (object fields).Settled)
    (hread : ∀ fields', Fields.Holds fields' fields → read fields' = some a) :
    Conveys (fun d => asRecord setting known d >>= read) (.object fields) a where
  settled := hsettled
  read_eq := by
    have hnames := (settled_object.1 hsettled).1
    simp only [asRecord_of_nodup setting known hnames]
    exact hread fields (Fields.holds_self hnames)

end Conveys

/-! ## Rules -/

section Rules

variable {α : Type} {known : List String} {order : String → Option (List String)}
  {unrecognized : String → α} {read : String → Fields → Option α} {type : String}
  {fields : Fields} {a : α}

theorem asRule_object (order : String → Option (List String))
    (h : List.lookup "type" fields = some (.text type)) :
    asRule order (.object fields) = some (type, fields) := by
  rw [asRule, h]

/-- A rule is an object that names its type, or a list that starts with it. -/
theorem asRule_eq_some {d : Datum} (h : asRule order d = some (type, fields)) :
    (d = .object fields ∧ List.lookup "type" fields = some (.text type)) ∨
      ∃ items names, d = .list (.text type :: items) ∧ order type = some names
        ∧ asRecord .whole names (.list items) = some fields := by
  unfold asRule at h
  split at h
  · split at h
    · rename_i htype
      cases h
      exact .inl ⟨rfl, htype⟩
    · cases h
  · obtain ⟨names, hnames, h⟩ := Option.bind_eq_some_iff.1 h
    obtain ⟨fields', hfields, h⟩ := Option.bind_eq_some_iff.1 h
    cases h
    exact .inr ⟨_, names, rfl, hnames, hfields⟩
  · cases h

theorem readSettled_object (h : List.lookup "type" fields = some (.text type)) :
    readSettled known order unrecognized read (.object fields) =
      if type ∈ known then read type fields else some (unrecognized type) := by
  rw [readSettled, asRule_object order h, Option.bind_eq_bind, Option.bind_some]

theorem readSettled_ofRule (hknown : type ∈ known) :
    readSettled known order unrecognized read (ofRule type fields) =
      read type (("type", .text type) :: fields) := by
  rw [ofRule, readSettled_object List.lookup_cons_self, if_pos hknown]

theorem settled_ofRule (hnames : ("type" :: fields.map (·.1)).Nodup)
    (hfields : ∀ field ∈ fields, field.2.Settled) : (ofRule type fields).Settled :=
  .object hnames (List.forall_mem_cons.2 ⟨.text type, hfields⟩)

/-- The object of a rule holds the fields of the rule. -/
theorem holds_ofRule (hnames : ("type" :: fields.map (·.1)).Nodup) (type : String) :
    Fields.Holds (("type", .text type) :: fields) fields := by
  have hself : Fields.Holds (("type", .text type) :: fields) (("type", .text type) :: fields) :=
    Fields.holds_self hnames
  exact (Fields.holds_cons.1 hself).2

theorem conveys_ofRule (hknown : type ∈ known) (hnames : ("type" :: fields.map (·.1)).Nodup)
    (hfields : ∀ field ∈ fields, field.2.Settled)
    (hread : read type (("type", .text type) :: fields) = some a) :
    Conveys (readRule known order unrecognized read) (ofRule type fields) a := by
  have hsettled : (ofRule type fields).Settled := settled_ofRule hnames hfields
  refine ⟨hsettled, ?_⟩
  rw [readRule, hsettled.settled?_eq, Option.bind_eq_bind, Option.bind_some,
    readSettled_ofRule hknown, hread]

/-- A rule conveys what its reader gets from any object that holds its fields. -/
theorem conveys_ofRule_of_holds (hknown : type ∈ known)
    (hnames : ("type" :: fields.map (·.1)).Nodup) (hfields : ∀ field ∈ fields, field.2.Settled)
    (hread : ∀ fields', Fields.Holds fields' fields → read type fields' = some a) :
    Conveys (readRule known order unrecognized read) (ofRule type fields) a :=
  conveys_ofRule hknown hnames hfields (hread _ (holds_ofRule hnames type))

end Rules

end Datum

namespace Fields

variable {α : Type} (fields : Fields) (name : String) (read : Datum → Option α)

theorem optional_eq :
    fields.optional name read = Datum.asOptional read (List.lookup name fields) := by
  unfold Fields.optional Datum.asOptional
  rfl

variable {fields name}

theorem required_eq {d : Datum} (h : List.lookup name fields = some d) :
    fields.required name read = read d := by
  rw [Fields.required, h, Option.bind_some]

end Fields

end StoryWorld

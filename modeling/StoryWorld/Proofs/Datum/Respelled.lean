import StoryWorld.Proofs.Datum.Fields
import StoryWorld.Proofs.Decimal.Whole

/-!
# Data spelled in other words

The same record can be spelled in more than one way: a value that has a default may be left out,
some values have other names, and all values may be listed without their names. Where a missing
value reads as its default would, a record reads as what it says under each name (`Fields.said`), so
two spellings that say the same read the same.

What a JSON value can hold is settled data whose integers have 64 bits. A float that is read from it
is finite.
-/

namespace StoryWorld

namespace Datum

theorem asList_ofList {α : Type} {write : α → Datum} {read : Datum → Option α} {l : List α}
    (h : ∀ a ∈ l, read (write a) = some a) : asList read (ofList write l) = some l :=
  readItems_map h

/-! ## JSON values -/

/-- Data that is a JSON value. -/
inductive JsonValue : Datum → Prop
  | null : JsonValue .null
  | bool (b : Bool) : JsonValue (.bool b)
  | int {n : Int} (low : Int64.minValue.toInt ≤ n) (high : n < UInt64.size) : JsonValue (.int n)
  | float {x : Float} (finite : x.isFinite = true) : JsonValue (.float x)
  | text (s : String) : JsonValue (.text s)
  | list {items : List Datum} (values : ∀ d ∈ items, JsonValue d) : JsonValue (.list items)
  | object {fields : Fields} (names : (fields.map (·.1)).Nodup)
      (values : ∀ field ∈ fields, JsonValue field.2) : JsonValue (.object fields)

attribute [simp] JsonValue.null JsonValue.bool JsonValue.text

section JsonValue

variable {α : Type} {write : α → Datum}

@[simp]
theorem jsonValue_list {items : List Datum} :
    (list items).JsonValue ↔ ∀ d ∈ items, d.JsonValue :=
  ⟨fun h => by cases h with | list values => exact values, .list⟩

@[simp]
theorem jsonValue_object {fields : Fields} : (object fields).JsonValue ↔
    (fields.map (·.1)).Nodup ∧ ∀ field ∈ fields, field.2.JsonValue :=
  ⟨fun h => by cases h with | object names values => exact ⟨names, values⟩,
    fun h => .object h.1 h.2⟩

theorem JsonValue.settled {d : Datum} (h : d.JsonValue) : d.Settled := by
  induction h with
  | null => exact .null
  | bool b => exact .bool b
  | int => exact .int _
  | float finite => exact .float finite
  | text s => exact .text s
  | list _ ih => exact .list ih
  | object names _ ih => exact .object names ih

@[simp]
theorem jsonValue_ofChoice (name : α → String) (a : α) : (ofChoice name a).JsonValue := .text _

@[simp]
theorem jsonValue_ofFloat (x : Float) : (ofFloat x).JsonValue := by
  unfold ofFloat
  split
  · exact .float ‹_›
  · exact .null

@[simp]
theorem jsonValue_ofUInt64 (n : UInt64) : (ofNat n.toNat).JsonValue := by
  have hlow : Int64.minValue.toInt = -9223372036854775808 := rfl
  exact .int (by omega) (Int.ofNat_lt.2 n.toNat_lt)

@[simp]
theorem jsonValue_ofInt32 (n : Int32) : (int n.toInt).JsonValue := by
  have hlow : Int64.minValue.toInt ≤ Int32.minValue.toInt := by decide
  have hhigh : Int32.maxValue.toInt < UInt64.size := by decide
  exact .int (Int.le_trans hlow n.minValue_le_toInt) (Int.lt_of_le_of_lt n.toInt_le hhigh)

@[simp]
theorem jsonValue_ofOption (h : ∀ a, (write a).JsonValue) (o : Option α) :
    (ofOption write o).JsonValue := by
  cases o with
  | none => exact .null
  | some a => exact h a

@[simp]
theorem jsonValue_ofList (h : ∀ a, (write a).JsonValue) (l : List α) :
    (ofList write l).JsonValue :=
  .list fun d hd => by
    obtain ⟨a, -, rfl⟩ := List.mem_map.1 hd
    exact h a

@[simp]
theorem jsonValue_ofTable (h : ∀ a, (write a).JsonValue) (t : Table String α) :
    (ofTable write t).JsonValue := by
  have hsorted := (t.map write).sorted
  refine .object ?_ fun field hfield => ?_
  · refine List.pairwise_map.2 (hsorted.imp fun {e f} (hlt : e.1 < f.1) (heq : e.1 = f.1) => ?_)
    rw [heq] at hlt
    exact Std.lt_irrefl hlt
  · obtain ⟨entry, -, rfl⟩ := List.mem_map.1 hfield
    exact h entry.2

end JsonValue

/-! ## What is read from JSON values -/

/-- Whether whatever is read from a JSON value has some property. -/
def Yields {α : Type} (read : Datum → Option α) (P : α → Prop) : Prop :=
  ∀ d, d.JsonValue → ∀ a, read d = some a → P a

theorem yields_asFloat : Yields asFloat fun x => x.isFinite = true := by
  intro d hd x hx
  cases hd with
  | float finite =>
    cases hx
    exact finite
  | int low high =>
    cases hx
    have hlow : Int64.minValue.toInt = -9223372036854775808 := rfl
    have hhigh : UInt64.size = 18446744073709551616 := rfl
    exact Decimal.isFinite_ofInt (by omega)
  | _ => cases hx

section Yields

variable {α : Type} {read : Datum → Option α} {P : α → Prop} {fields : Fields} {name : String}

theorem yields_asList (h : Yields read P) : Yields (asList read) fun l => ∀ a ∈ l, P a := by
  intro d hd l hl
  cases hd with
  | @list items values =>
    change readItems read items = some l at hl
    induction items generalizing l with
    | nil =>
      cases hl
      exact fun a ha => absurd ha List.not_mem_nil
    | cons d items ih =>
      obtain ⟨hd, hitems⟩ := List.forall_mem_cons.1 values
      obtain ⟨a, ha, hrest⟩ := Option.bind_eq_some_iff.1 hl
      obtain ⟨as, has, hcons⟩ := Option.bind_eq_some_iff.1 hrest
      cases hcons
      exact List.forall_mem_cons.2 ⟨h d hd a ha, ih as hitems has⟩
  | _ => cases hl

theorem Yields.required (h : Yields read P) (hfields : ∀ field ∈ fields, field.2.JsonValue) {a : α}
    (ha : fields.required name read = some a) : P a := by
  obtain ⟨d, hd, hread⟩ := Option.bind_eq_some_iff.1 ha
  exact h d (hfields _ (Fields.mem_of_lookup hd)) a hread

theorem Yields.withDefault (h : Yields read P) (hfields : ∀ field ∈ fields, field.2.JsonValue)
    {default a : α} (hdefault : P default) (ha : fields.withDefault name read default = some a) :
    P a := by
  unfold Fields.withDefault at ha
  split at ha
  · cases ha
    exact hdefault
  · rename_i d hd
    exact h d (hfields _ (Fields.mem_of_lookup hd)) a ha

theorem Yields.optional (h : Yields read P) (hfields : ∀ field ∈ fields, field.2.JsonValue)
    {o : Option α} (ho : fields.optional name read = some o) : ∀ a ∈ o, P a := by
  unfold Fields.optional at ho
  split at ho
  · cases ho
    exact fun a ha => by cases ha
  · cases ho
    exact fun a ha => by cases ha
  · rename_i d _ hd
    obtain ⟨a, ha, rfl⟩ := Option.map_eq_some_iff.1 ho
    rintro _ ⟨⟩
    exact h d (hfields _ (Fields.mem_of_lookup hd)) a ha

theorem yields_record {setting : Setting} {known : List String} {read : Fields → Option α}
    (h : ∀ {fields : Fields}, (∀ field ∈ fields, field.2.JsonValue) →
      ∀ {a : α}, read fields = some a → P a) :
    Yields (fun d => d.asRecord setting known >>= read) P := by
  intro d hd a ha
  obtain ⟨fields, hfields, hread⟩ := Option.bind_eq_some_iff.1 ha
  rcases eq_of_asRecord hfields with rfl | ⟨items, rfl, rfl⟩
  · exact h (jsonValue_object.1 hd).2 hread
  · have hitems := jsonValue_list.1 hd
    exact h (fun field hfield => hitems field.2 (List.of_mem_zip hfield).2) hread

end Yields

/-! ## Other words -/

/-- Whether data that is respelled is read as it was before. -/
def Respects {α : Type} (read : Datum → Option α) (respelled : Datum → Datum → Prop) : Prop :=
  ∀ d d', respelled d d' → read d' = read d

inductive RespelledList (respelled : Datum → Datum → Prop) : Datum → Datum → Prop
  | list {items items' : List Datum} (each : List.Forall₂ respelled items items') :
      RespelledList respelled (.list items) (.list items')

inductive RespelledOption (respelled : Datum → Datum → Prop) : Datum → Datum → Prop
  | none : RespelledOption respelled .null .null
  | some {d d' : Datum} (value : d ≠ .null) (value' : d' ≠ .null) (told : respelled d d') :
      RespelledOption respelled d d'

section Respects

variable {α : Type} {read : Datum → Option α} {respelled : Datum → Datum → Prop}

theorem respects_eq (read : Datum → Option α) : Respects read Eq := by
  rintro d _ rfl
  rfl

theorem Respects.list (h : Respects read respelled) :
    Respects (asList read) (RespelledList respelled) := by
  rintro _ _ ⟨each⟩
  show readItems read _ = readItems read _
  induction each with
  | nil => rfl
  | cons htold _ ih => rw [readItems, readItems, h _ _ htold, ih]

theorem Respects.option (h : Respects read respelled) :
    Respects (fun d => asOptional read (some d)) (RespelledOption respelled) := by
  rintro d d' (_ | ⟨value, value', told⟩)
  · rfl
  · have hvalue : ∀ {d : Datum}, d ≠ .null → asOptional read (some d) = (read d).map some := by
      intro d hd
      cases d with
      | null => exact absurd rfl hd
      | _ => rfl
    show asOptional read (some d') = asOptional read (some d)
    rw [hvalue value, hvalue value', h d d' told]

end Respects

/-- Whether data spells the fields of a record out, as an object that repeats no name or as a list
that is not too long. -/
inductive Spells (known : List String) : Datum → Fields → Prop
  | object {fields : Fields} (names : (fields.map (·.1)).Nodup) :
      Spells known (.object fields) fields
  | list {items : List Datum} (short : items.length ≤ known.length) :
      Spells known (.list items) (known.zip items)

theorem Spells.asRecord_eq {known : List String} {d : Datum} {fields : Fields}
    (h : Spells known d fields) (setting : Setting) : d.asRecord setting known = some fields := by
  cases h with
  | object names => exact asRecord_of_nodup setting known names
  | list short => exact asRecord_list setting short

end Datum

namespace Fields

/-- What a record says under a name: what stands there, or else what a missing value stands for. -/
def said (spare : String → Option Datum) (fields : Fields) (name : String) : Option Datum :=
  (List.lookup name fields).or (spare name)

end Fields

/-- How the records of a kind are spelled: what a missing value stands for, and how the value under
a name may be told in other words. -/
structure Spelling where
  known : List String
  spare : String → Option Datum := fun _ => none
  told : String → Datum → Datum → Prop := fun _ => Eq

namespace Spelling

def SaysSame (s : Spelling) (fields fields' : Fields) : Prop :=
  ∀ name ∈ s.known, Option.Rel (s.told name) (fields.said s.spare name) (fields'.said s.spare name)

/-- Whether two spellings of a record say the same under every name. -/
inductive Respelled (s : Spelling) (d d' : Datum) : Prop
  | intro {fields fields' : Fields} (spells : d.Spells s.known fields)
      (spells' : d'.Spells s.known fields') (same : s.SaysSame fields fields')

namespace SaysSame

open Datum

variable {s : Spelling} {fields fields' : Fields} {α : Type} {read : Datum → Option α}
  (h : s.SaysSame fields fields') (name : String) (known : name ∈ s.known)

include h known

theorem bind_said (respects : Respects read (s.told name)) :
    (fields'.said s.spare name).bind read = (fields.said s.spare name).bind read := by
  have hsame := h name known
  revert hsame
  generalize fields.said s.spare name = d, fields'.said s.spare name = d'
  rintro (htold | _)
  · exact respects _ _ htold
  · rfl

theorem required (spare : s.spare name = none) (respects : Respects read (s.told name)) :
    fields'.required name read = fields.required name read := by
  have hbind := h.bind_said name known respects
  rwa [Fields.said, Fields.said, spare, Option.or_none, Option.or_none] at hbind

theorem withDefault {d : Datum} (default : α) (spare : s.spare name = some d)
    (respects : Respects read (s.told name)) (hdefault : read d = some default) :
    fields'.withDefault name read default = fields.withDefault name read default := by
  have hsaid : ∀ fields : Fields,
      fields.withDefault name read default = (fields.said s.spare name).bind read := by
    intro fields
    rw [Fields.said, spare, Fields.withDefault]
    cases List.lookup name fields with
    | none => exact hdefault.symm
    | some d => rfl
  rw [hsaid, hsaid, h.bind_said name known respects]

theorem optional (spare : s.spare name = some .null)
    (respects : Respects (fun d => asOptional read (some d)) (s.told name)) :
    fields'.optional name read = fields.optional name read := by
  have hsaid : ∀ fields : Fields, fields.optional name read =
      (fields.said s.spare name).bind fun d => asOptional read (some d) := by
    intro fields
    rw [Fields.said, spare, Fields.optional_eq]
    cases List.lookup name fields <;> rfl
  rw [hsaid, hsaid, h.bind_said name known respects]

end SaysSame

/-- A record whose fields are read alike from fields that say the same is read alike. -/
theorem respects {s : Spelling} {setting : Datum.Setting} {α : Type} {read : Fields → Option α}
    (h : ∀ {fields fields' : Fields}, s.SaysSame fields fields' → read fields' = read fields) :
    Datum.Respects (fun d => d.asRecord setting s.known >>= read) s.Respelled := by
  rintro d d' ⟨spells, spells', same⟩
  simp only [spells.asRecord_eq, spells'.asRecord_eq, Option.bind_eq_bind, Option.bind_some]
  exact h same

end Spelling

end StoryWorld

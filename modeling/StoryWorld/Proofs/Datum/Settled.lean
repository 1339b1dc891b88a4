import StoryWorld.Datum.Rule

/-!
# Settled data

Data is settled when no object in it repeats a name, every float is finite and everything is
readable. Settling data that is readable makes it settled (`settled_settle`) and leaves settled data
alone (`Settled.settle_eq`), so reading a rule from settled data reads it as it is. All that is
written is settled.
-/

namespace StoryWorld

namespace Datum

inductive Settled : Datum → Prop
  | null : Settled .null
  | bool (b : Bool) : Settled (.bool b)
  | int (n : Int) : Settled (.int n)
  | float {x : Float} (finite : x.isFinite = true) : Settled (.float x)
  | text (s : String) : Settled (.text s)
  | list {items : List Datum} (settled : ∀ d ∈ items, Settled d) : Settled (.list items)
  | object {fields : Fields} (names : (fields.map (·.1)).Nodup)
      (settled : ∀ field ∈ fields, Settled field.2) : Settled (.object fields)

attribute [simp] Settled.null Settled.bool Settled.int Settled.text

@[simp]
theorem settled_list {items : List Datum} : (list items).Settled ↔ ∀ d ∈ items, d.Settled :=
  ⟨fun h => by cases h with | list settled => exact settled, .list⟩

@[simp]
theorem settled_object {fields : Fields} : (object fields).Settled ↔
    (fields.map (·.1)).Nodup ∧ ∀ field ∈ fields, field.2.Settled :=
  ⟨fun h => by cases h with | object names settled => exact ⟨names, settled⟩,
    fun h => .object h.1 h.2⟩

/-! ## Settling -/

theorem settleItems_eq_map : ∀ items : List Datum, settleItems items = items.map settle
  | [] => rfl
  | d :: items => congrArg (settle d :: ·) (settleItems_eq_map items)

theorem areReadable_iff : ∀ {items : List Datum},
    areReadable items = true ↔ ∀ d ∈ items, d.isReadable = true
  | [] => by simp [areReadable]
  | d :: items => by
    rw [areReadable, Bool.and_eq_true, areReadable_iff, List.forall_mem_cons]

theorem haveReadable_iff : ∀ {fields : Fields},
    haveReadable fields = true ↔ ∀ field ∈ fields, field.2.isReadable = true
  | [] => by simp [haveReadable]
  | (name, d) :: fields => by
    rw [haveReadable, Bool.and_eq_true, haveReadable_iff, List.forall_mem_cons]

/-- Nothing is dropped from an object that repeats no name. -/
theorem settleFields_of_nodup : ∀ {fields : Fields}, (fields.map (·.1)).Nodup →
    (∀ field ∈ fields, field.2.settle = field.2) → settleFields fields = fields
  | [], _, _ => rfl
  | (name, d) :: fields, hnames, hfields => by
    obtain ⟨hname, hnames⟩ := List.nodup_cons.1 hnames
    obtain ⟨hd, hfields⟩ := List.forall_mem_cons.1 hfields
    have hlater : (fields.any fun field => decide (field.1 = name)) = false := by
      rw [List.any_eq_false]
      intro field hfield heq
      exact hname (List.mem_map.2 ⟨field, hfield, of_decide_eq_true heq⟩)
    simp only [settleFields, settleFields_of_nodup hnames hfields, hlater, hd, Bool.false_eq_true,
      ↓reduceIte]

namespace Settled

variable {d : Datum}

theorem settle_eq (h : d.Settled) : d.settle = d := by
  induction h with
  | float finite => rw [settle, if_pos finite]
  | list _ ih =>
    rw [settle, settleItems_eq_map]
    exact congrArg Datum.list ((List.map_congr_left ih).trans (List.map_id _))
  | object names _ ih => rw [settle, settleFields_of_nodup names ih]
  | _ => rfl

theorem isReadable (h : d.Settled) : d.isReadable = true := by
  induction h with
  | list _ ih => exact areReadable_iff.2 ih
  | object _ _ ih => exact haveReadable_iff.2 ih
  | _ => rfl

theorem whole?_eq (h : d.Settled) : d.whole? = some d := if_pos h.isReadable

theorem settled?_eq (h : d.Settled) : d.settled? = some d := by
  rw [settled?, h.whole?_eq, Option.map_some, h.settle_eq]

end Settled

mutual

theorem settled_settle : ∀ d : Datum, d.isReadable = true → d.settle.Settled
  | .null, _ => .null
  | .bool b, _ => .bool b
  | .int n, _ => .int n
  | .text s, _ => .text s
  | .float x, _ => by
    rw [settle]
    split
    · exact .float ‹_›
    · exact .null
  | .list items, h => .list (settled_settleItems items h)
  | .object fields, h =>
    have hfields := settled_settleFields fields h
    .object hfields.1 hfields.2

theorem settled_settleItems : ∀ items : List Datum, areReadable items = true →
    ∀ d ∈ settleItems items, d.Settled
  | [], _ => by simp [settleItems]
  | d :: items, h => by
    obtain ⟨hd, hitems⟩ := Bool.and_eq_true_iff.1 h
    exact List.forall_mem_cons.2 ⟨settled_settle d hd, settled_settleItems items hitems⟩

theorem settled_settleFields : ∀ fields : Fields, haveReadable fields = true →
    ((settleFields fields).map (·.1)).Nodup ∧ ∀ field ∈ settleFields fields, field.2.Settled
  | [], _ => by simp [settleFields]
  | (name, d) :: fields, h => by
    obtain ⟨hd, hfields⟩ := Bool.and_eq_true_iff.1 h
    obtain ⟨hnames, hsettled⟩ := settled_settleFields fields hfields
    simp only [settleFields]
    split
    · exact ⟨hnames, hsettled⟩
    · rename_i hlater
      refine ⟨List.nodup_cons.2 ⟨fun hname => hlater ?_, hnames⟩,
        List.forall_mem_cons.2 ⟨settled_settle d hd, hsettled⟩⟩
      obtain ⟨field, hfield, heq⟩ := List.mem_map.1 hname
      exact List.any_eq_true.2 ⟨field, hfield, decide_eq_true heq⟩

end

theorem settled_of_settled? {d e : Datum} (h : d.settled? = some e) : e.Settled := by
  rw [settled?, whole?] at h
  split at h
  · cases h
    exact settled_settle d ‹_›
  · cases h

/-! ## Writing -/

section Writing

variable {α : Type} {write : α → Datum}

@[simp]
theorem settled_ofFloat (x : Float) : (ofFloat x).Settled := by
  unfold ofFloat
  split
  · exact .float ‹_›
  · exact .null

@[simp]
theorem settled_ofNat (n : Nat) : (ofNat n).Settled := .int n

@[simp]
theorem settled_ofOption (h : ∀ a, (write a).Settled) (o : Option α) :
    (ofOption write o).Settled := by
  cases o with
  | none => exact .null
  | some a => exact h a

@[simp]
theorem settled_ofList (h : ∀ a, (write a).Settled) (l : List α) : (ofList write l).Settled :=
  .list fun d hd => by
    obtain ⟨a, -, rfl⟩ := List.mem_map.1 hd
    exact h a

end Writing

end Datum

end StoryWorld

import StoryWorld.Proofs.Datum.Fields

/-!
# Data rewritten in place

A value deep inside data is rewritten along fields and positions. Where an object repeats a name
only the last value under it counts, so that is the one to be rewritten. Then it makes no difference
whether data is settled before or after, and all that is not under the name is read as before. A
record that is given as a list has a field at a place, and rewriting the value there is rewriting
the field (`zip_modify`).
-/

namespace StoryWorld

namespace Fields

/-- The fields with the last value under a name rewritten. -/
def update (name : String) (f : Datum → Datum) : Fields → Fields
  | [] => []
  | (name', d) :: rest =>
    if name' = name ∧ name ∉ rest.map (·.1) then (name', f d) :: rest
    else (name', d) :: update name f rest

section Update

variable {name : String} {f g : Datum → Datum}

theorem map_fst_update : ∀ fields : Fields, (update name f fields).map (·.1) = fields.map (·.1)
  | [] => rfl
  | (name', d) :: rest => by
    rw [update]
    split
    · rfl
    · rw [List.map_cons, List.map_cons, map_fst_update rest]

theorem mem_update {field : String × Datum} : ∀ {fields : Fields},
    field ∈ update name f fields → field ∈ fields ∨ ∃ d, (name, d) ∈ fields ∧ field.2 = f d
  | (name', d) :: rest, h => by
    rw [update] at h
    split at h
    · rename_i hlast
      rcases List.mem_cons.1 h with rfl | h
      · exact .inr ⟨d, by simp [hlast.1], rfl⟩
      · exact .inl (List.mem_cons_of_mem _ h)
    · rcases List.mem_cons.1 h with rfl | h
      · exact .inl List.mem_cons_self
      · exact (mem_update h).imp (List.mem_cons_of_mem _)
          fun ⟨e, he, hfield⟩ => ⟨e, List.mem_cons_of_mem _ he, hfield⟩

theorem lookup_update_of_ne {name' : String} (hne : name' ≠ name) : ∀ fields : Fields,
    List.lookup name' (update name f fields) = List.lookup name' fields
  | [] => rfl
  | (other, d) :: rest => by
    rw [update]
    split
    · rename_i hlast
      rw [List.lookup_cons, List.lookup_cons, hlast.1, beq_false_of_ne hne]
    · rw [List.lookup_cons, List.lookup_cons, lookup_update_of_ne hne rest]

/-- In an object that repeats no name, the value under the name is rewritten. -/
theorem lookup_update_self : ∀ {fields : Fields}, (fields.map (·.1)).Nodup →
    List.lookup name (update name f fields) = (List.lookup name fields).map f
  | [], _ => rfl
  | (name', d) :: rest, h => by
    obtain ⟨hname, hrest⟩ := List.nodup_cons.1 h
    rw [update, List.lookup_cons]
    by_cases hself : name' = name
    · subst hself
      rw [if_pos ⟨rfl, hname⟩, List.lookup_cons]
      simp
    · rw [if_neg (fun hlast => hself hlast.1), List.lookup_cons, lookup_update_self hrest,
        beq_false_of_ne (Ne.symm hself)]

/-- Where values are given to different names, rewriting a value rewrites a field. -/
theorem zip_modify : ∀ {known : List String} {place : Nat}, known.Nodup →
    known[place]? = some name → ∀ items : List Datum,
      known.zip (items.modify place f) = update name f (known.zip items)
  | _ :: _, _, _, _, [] => by simp [update]
  | name' :: known, 0, hknown, hplace, d :: items => by
    obtain ⟨hname, -⟩ := List.nodup_cons.1 hknown
    obtain rfl : name' = name := Option.some.inj hplace
    have hlater : name' ∉ (known.zip items).map (·.1) :=
      fun hmem => hname ((Datum.map_fst_zip_sublist known items).subset hmem)
    rw [List.modify_zero_cons, List.zip_cons_cons, List.zip_cons_cons, update,
      if_pos ⟨rfl, hlater⟩]
  | name' :: known, place + 1, hknown, hplace, d :: items => by
    obtain ⟨hname, hrest⟩ := List.nodup_cons.1 hknown
    have hplace : known[place]? = some name := hplace
    have hne : name' ≠ name := by
      rintro rfl
      exact hname (List.mem_of_getElem? hplace)
    rw [List.modify_succ_cons, List.zip_cons_cons, List.zip_cons_cons, update,
      if_neg fun hlast => hne hlast.1, zip_modify hrest hplace items]

section Fields

variable {α : Type} {name' : String} (hne : name' ≠ name) (fields : Fields)
  (read : Datum → Option α)

include hne

theorem required_update_of_ne :
    (update name f fields).required name' read = fields.required name' read := by
  rw [required, lookup_update_of_ne hne, required]

theorem optional_update_of_ne :
    (update name f fields).optional name' read = fields.optional name' read := by
  rw [optional_eq, lookup_update_of_ne hne, optional_eq]

end Fields

end Update

end Fields

namespace Datum

/-- The names of an object stay when it is settled, each once. -/
theorem mem_settleFields_iff {name : String} : ∀ {fields : Fields},
    name ∈ (settleFields fields).map (·.1) ↔ name ∈ fields.map (·.1)
  | [] => Iff.rfl
  | (name', d) :: rest => by
    have ih : name ∈ (settleFields rest).map (·.1) ↔ name ∈ rest.map (·.1) := mem_settleFields_iff
    rw [settleFields, List.map_cons, List.mem_cons, ← ih]
    dsimp only
    split
    · rename_i hlater
      refine ⟨.inr, fun h => h.elim (fun heq => ?_) id⟩
      obtain ⟨field, hfield, hname⟩ := List.any_eq_true.1 hlater
      exact List.mem_map.2 ⟨field, hfield, (of_decide_eq_true hname).trans heq.symm⟩
    · rw [List.map_cons, List.mem_cons]

theorem settleFields_cons (name : String) (d : Datum) (rest : Fields) :
    settleFields ((name, d) :: rest) =
      if name ∈ rest.map (·.1) then settleFields rest
      else (name, d.settle) :: settleFields rest := by
  have hlater : ((settleFields rest).any fun field => decide (field.1 = name)) = true ↔
      name ∈ rest.map (·.1) := by
    rw [← mem_settleFields_iff]
    simp
  rw [settleFields]
  simp only [hlater]

/-- An object may be settled before its last value under a name is rewritten, or after. -/
theorem settleFields_update {name : String} {f g : Datum → Datum}
    (hfg : ∀ d, (f d).settle = g d.settle) : ∀ fields : Fields,
    settleFields (Fields.update name f fields) = Fields.update name g (settleFields fields)
  | [] => rfl
  | (name', d) :: rest => by
    have ih : settleFields (Fields.update name f rest) = Fields.update name g (settleFields rest) :=
      settleFields_update hfg rest
    rw [Fields.update, settleFields_cons]
    by_cases hlater : name' ∈ rest.map (·.1)
    · rw [if_neg fun hlast => hlast.2 (hlast.1 ▸ hlater), settleFields_cons,
        Fields.map_fst_update, if_pos hlater, if_pos hlater, ih]
    · rw [if_neg hlater, Fields.update]
      simp only [mem_settleFields_iff]
      by_cases hlast : name' = name ∧ name ∉ rest.map (·.1)
      · rw [if_pos hlast, if_pos hlast, settleFields_cons, if_neg hlater, hfg]
      · rw [if_neg hlast, if_neg hlast, settleFields_cons, Fields.map_fst_update, if_neg hlater, ih]

/-- The data with one item rewritten, if it is a list. -/
def updateItem (index : Nat) (f : Datum → Datum) : Datum → Datum
  | .list items => .list (items.modify index f)
  | d => d

/-- The data with one field rewritten, which has a place in case the data is a list. -/
def updateField (name : String) (place : Nat) (f : Datum → Datum) : Datum → Datum
  | .object fields => .object (Fields.update name f fields)
  | d => d.updateItem place f

section Settle

variable {f g : Datum → Datum}

theorem settle_updateItem (hfg : ∀ d, (f d).settle = g d.settle) (index : Nat) (d : Datum) :
    (d.updateItem index f).settle = d.settle.updateItem index g := by
  cases d with
  | list items =>
    rw [updateItem, settle, settle, updateItem, settleItems_eq_map, settleItems_eq_map]
    refine congrArg list (List.ext_getElem? fun i => ?_)
    rw [List.getElem?_map, List.getElem?_modify, List.getElem?_modify, List.getElem?_map]
    cases items[i]? with
    | none => rfl
    | some d => by_cases hi : index = i <;> simp [hi, hfg]
  | float x =>
    change (float x).settle = (float x).settle.updateItem index g
    rw [settle]
    split <;> rfl
  | _ => rfl

theorem settle_updateField (hfg : ∀ d, (f d).settle = g d.settle) (name : String) (place : Nat)
    (d : Datum) : (d.updateField name place f).settle = d.settle.updateField name place g := by
  cases d with
  | object fields => rw [updateField, settle, settle, updateField, settleFields_update hfg]
  | list items => exact settle_updateItem hfg place (.list items)
  | float x =>
    change (float x).settle = (float x).settle.updateField name place g
    rw [settle]
    split <;> rfl
  | _ => rfl

end Settle

section Readable

variable {f : Datum → Datum}

theorem isReadable_updateItem (hf : ∀ d, d.isReadable = true → (f d).isReadable = true)
    (index : Nat) (d : Datum) (h : d.isReadable = true) :
    (d.updateItem index f).isReadable = true := by
  cases d with
  | list items =>
    have hitems : ∀ d ∈ items, d.isReadable = true := areReadable_iff.1 h
    refine areReadable_iff.2 fun e he => ?_
    obtain ⟨i, hi⟩ := List.mem_iff_getElem?.1 he
    rw [List.getElem?_modify, Option.map_eq_map, Option.map_eq_some_iff] at hi
    obtain ⟨d, hd, rfl⟩ := hi
    have hread := hitems d (List.mem_of_getElem? hd)
    split
    · exact hf d hread
    · exact hread
  | _ => exact h

theorem isReadable_updateField (hf : ∀ d, d.isReadable = true → (f d).isReadable = true)
    (name : String) (place : Nat) (d : Datum) (h : d.isReadable = true) :
    (d.updateField name place f).isReadable = true := by
  cases d with
  | object fields =>
    have hfields : ∀ field ∈ fields, field.2.isReadable = true := haveReadable_iff.1 h
    refine haveReadable_iff.2 fun field hfield => ?_
    rcases Fields.mem_update hfield with hold | ⟨d, hd, hnew⟩
    · exact hfields field hold
    · rw [hnew]
      exact hf d (hfields (name, d) hd)
  | list items => exact isReadable_updateItem hf place (.list items) h
  | _ => exact h

end Readable

section Records

variable {f : Datum → Datum} {d : Datum} {fields : Fields} {name : String} {place : Nat}

/-- Rewriting a field of a record rewrites that field and nothing else. -/
theorem asRecord_updateField {setting : Setting} {known : List String} (hknown : known.Nodup)
    (hplace : known[place]? = some name) (h : asRecord setting known d = some fields) :
    asRecord setting known (d.updateField name place f) = some (Fields.update name f fields) := by
  cases d with
  | object fields' =>
    obtain ⟨hcount, h⟩ := Option.ite_none_right_eq_some.1 h
    cases h
    have hsame : ∀ name', (Fields.update name f fields).countP (·.1 = name') =
        fields.countP (·.1 = name') := by
      intro name'
      have hnames : (Fields.update name f fields).map (·.1) = fields.map (·.1) :=
        Fields.map_fst_update fields
      have hcount := congrArg (List.countP (· = name')) hnames
      rwa [List.countP_map, List.countP_map] at hcount
    refine if_pos ?_
    simpa only [hsame] using hcount
  | list items =>
    obtain ⟨hlength, h⟩ := Option.ite_none_right_eq_some.1 h
    cases h
    have hzip := Fields.zip_modify (f := f) hknown hplace items
    show (if setting = .toml ∨ (items.modify place f).length ≤ known.length then
      some (known.zip (items.modify place f)) else none) = _
    rw [List.length_modify, if_pos hlength, hzip]
  | _ => cases h

/-- A list of a rule says the type first, so a field is one place further on. -/
theorem asRule_updateField {order : String → Option (List String)} {type : String}
    {known : List String} (htype : order type = some known) (hname : name ≠ "type")
    (hknown : known.Nodup) (hplace : known[place]? = some name)
    (h : asRule order d = some (type, fields)) :
    asRule order (d.updateField name (place + 1) f) = some (type, Fields.update name f fields) := by
  rcases asRule_eq_some h with ⟨rfl, hlookup⟩ | ⟨items, names, rfl, hnames, hfields⟩
  · refine asRule_object order ?_
    rwa [Fields.lookup_update_of_ne (Ne.symm hname)]
  · cases htype.symm.trans hnames
    have hrecord : asRecord .whole known (.list (items.modify place f)) =
        some (Fields.update name f fields) := asRecord_updateField hknown hplace hfields
    show asRule order (.list (.text type :: items.modify place f)) = _
    rw [asRule, htype, Option.bind_eq_bind, Option.bind_some, hrecord]
    rfl

end Records

section Items

variable {α : Type} {read : Datum → Option α} {f : Datum → Datum} {g : α → α}

/-- Rewriting an item changes what is read at its place and nothing else. -/
theorem readItems_modify {index : Nat} {items : List Datum} {l : List α}
    (hread : readItems read items = some l)
    (h : ∀ d a, items[index]? = some d → l[index]? = some a → read d = some a →
      read (f d) = some (g a)) :
    readItems read (items.modify index f) = some (l.modify index g) := by
  induction items generalizing index l with
  | nil =>
    cases hread
    simp [readItems]
  | cons d items ih =>
    obtain ⟨a, ha, hrest⟩ := Option.bind_eq_some_iff.1 hread
    obtain ⟨as, has, hl⟩ := Option.bind_eq_some_iff.1 hrest
    cases hl
    cases index with
    | zero =>
      have hfd : read (f d) = some (g a) := h d a rfl rfl ha
      simp [readItems, hfd, has]
    | succ index =>
      have hitems := ih has h
      simp [readItems, ha, hitems]

end Items

end Datum

end StoryWorld

/-!
# Tables

Tags, pressures, variables, captured sets and named rules are all kept in tables: at most one
value for a key, and nothing that depends on the order in which the keys came. A table holds its
entries in ascending order of their keys, so two tables with the same bindings are equal, and
listing a table lists it by key.
-/

namespace StoryWorld

/-- Values filed under keys, in ascending order of the keys. -/
structure Table (κ α : Type) [LT κ] where
  entries : List (κ × α)
  sorted : entries.Pairwise (·.1 < ·.1)

namespace Table

variable {κ α β : Type} [LT κ]

theorem ext {s t : Table κ α} (h : s.entries = t.entries) : s = t := by
  cases s; cases t; simp_all

instance [DecidableEq κ] [DecidableEq α] : DecidableEq (Table κ α) := fun s t =>
  if h : s.entries = t.entries then .isTrue (ext h) else .isFalse fun e => h (e ▸ rfl)

def empty : Table κ α := ⟨[], .nil⟩

instance : EmptyCollection (Table κ α) := ⟨empty⟩
instance : Inhabited (Table κ α) := ⟨empty⟩

def size (t : Table κ α) : Nat := t.entries.length

def keys (t : Table κ α) : List κ := t.entries.map (·.1)

section Read

variable [DecidableEq κ]

/-- The value under `k` in a list of entries; the first one, should there be several. -/
def findIn (k : κ) : List (κ × α) → Option α
  | [] => none
  | (j, a) :: rest => if j = k then some a else findIn k rest

def find? (t : Table κ α) (k : κ) : Option α := findIn k t.entries

def contains (t : Table κ α) (k : κ) : Bool := (t.find? k).isSome

@[simp]
theorem find?_empty (k : κ) : (∅ : Table κ α).find? k = none := rfl

end Read

section Sorted

variable [DecidableEq κ] [LE κ] [Std.LawfulOrderLT κ]

theorem findIn_eq_some_iff {k : κ} {a : α} :
    ∀ {l : List (κ × α)}, l.Pairwise (·.1 < ·.1) → (findIn k l = some a ↔ (k, a) ∈ l)
  | [], _ => by simp [findIn]
  | (j, b) :: rest, h => by
    have ⟨hj, hrest⟩ := List.pairwise_cons.1 h
    rw [findIn, List.mem_cons, Prod.mk.injEq]
    split
    · rename_i heq
      subst heq
      have hnot : (j, a) ∉ rest := fun hmem => Std.lt_irrefl (hj (j, a) hmem)
      simp [hnot, eq_comm]
    · rename_i hne
      rw [findIn_eq_some_iff hrest]
      simp [Ne.symm hne]

/-- What is filed under a key is the one entry that has it. -/
theorem find?_eq_some_iff {t : Table κ α} {k : κ} {a : α} :
    t.find? k = some a ↔ (k, a) ∈ t.entries := findIn_eq_some_iff t.sorted

end Sorted

section Erase

variable [DecidableEq κ]

def erase (t : Table κ α) (k : κ) : Table κ α :=
  ⟨t.entries.filter (·.1 ≠ k), t.sorted.filter _⟩

omit [LT κ] in
theorem findIn_filter (k j : κ) :
    ∀ l : List (κ × α), findIn j (l.filter (·.1 ≠ k)) = if k = j then none else findIn j l
  | [] => (ite_self none).symm
  | (i, b) :: rest => by
    have ih := findIn_filter k j rest
    by_cases hi : i = k
    · subst hi
      rw [List.filter_cons_of_neg (by simp), ih]
      by_cases hj : i = j <;> simp [findIn, hj]
    · rw [List.filter_cons_of_pos (by simpa using hi), findIn, findIn, ih]
      by_cases hj : i = j
      · subst hj
        rw [if_pos rfl, if_pos rfl, if_neg (Ne.symm hi)]
      · rw [if_neg hj, if_neg hj]

@[simp]
theorem find?_erase (t : Table κ α) (k j : κ) :
    (t.erase k).find? j = if k = j then none else t.find? j :=
  findIn_filter k j t.entries

@[simp]
theorem contains_erase (t : Table κ α) (k j : κ) :
    (t.erase k).contains j = (decide (k ≠ j) && t.contains j) := by
  unfold contains
  rw [find?_erase]
  by_cases h : k = j <;> simp [h]

theorem size_erase_le (t : Table κ α) (k : κ) : (t.erase k).size ≤ t.size :=
  List.length_filter_le ..

end Erase

section Insert

variable [DecidableEq κ] [DecidableLT κ]

/-- Puts `a` under `k`, before the first greater key and in place of an equal one. -/
def insertIn (k : κ) (a : α) : List (κ × α) → List (κ × α)
  | [] => [(k, a)]
  | (j, b) :: rest =>
    if k < j then (k, a) :: (j, b) :: rest
    else if j = k then (k, a) :: rest
    else (j, b) :: insertIn k a rest

theorem mem_insertIn {k : κ} {a : α} {e : κ × α} :
    ∀ {l : List (κ × α)}, e ∈ insertIn k a l → e = (k, a) ∨ e ∈ l
  | [], h => by simpa [insertIn] using h
  | (j, b) :: rest, h => by
    simp only [insertIn] at h
    split at h
    · simpa using h
    · split at h
      · simp only [List.mem_cons] at h ⊢
        exact h.imp_right .inr
      · simp only [List.mem_cons] at h ⊢
        rcases h with h | h
        · exact .inr (.inl h)
        · exact (mem_insertIn h).imp_right .inr

theorem findIn_insertIn (k j : κ) (a : α) :
    ∀ l : List (κ × α), findIn j (insertIn k a l) = if k = j then some a else findIn j l
  | [] => rfl
  | (i, b) :: rest => by
    simp only [insertIn]
    split
    · rfl
    · split
      · rename_i heq
        subst heq
        simp only [findIn]
        split <;> rfl
      · rename_i hne
        simp only [findIn, findIn_insertIn k j a rest]
        by_cases hi : i = j
        · rw [if_pos hi, if_neg (fun hk => hne (hi.trans hk.symm)), if_pos hi]
        · rw [if_neg hi, if_neg hi]

variable [LE κ] [Std.IsLinearOrder κ] [Std.LawfulOrderLT κ]

theorem insertIn_sorted (k : κ) (a : α) :
    ∀ {l : List (κ × α)}, l.Pairwise (·.1 < ·.1) → (insertIn k a l).Pairwise (·.1 < ·.1)
  | [], _ => by simp [insertIn]
  | (j, b) :: rest, h => by
    have ⟨hj, hr⟩ := List.pairwise_cons.1 h
    simp only [insertIn]
    split
    · rename_i hlt
      refine List.pairwise_cons.2 ⟨fun e he => ?_, h⟩
      rcases List.mem_cons.1 he with rfl | he
      · exact hlt
      · exact Std.lt_trans hlt (hj e he)
    · split
      · rename_i heq
        subst heq
        exact List.pairwise_cons.2 ⟨hj, hr⟩
      · rename_i hnlt hne
        refine List.pairwise_cons.2 ⟨fun e he => ?_, insertIn_sorted k a hr⟩
        rcases mem_insertIn he with rfl | he
        · exact Std.lt_of_le_of_ne (Std.not_lt.1 hnlt) hne
        · exact hj e he

def insert (t : Table κ α) (k : κ) (a : α) : Table κ α :=
  ⟨insertIn k a t.entries, insertIn_sorted k a t.sorted⟩

@[simp]
theorem find?_insert (t : Table κ α) (k j : κ) (a : α) :
    (t.insert k a).find? j = if k = j then some a else t.find? j :=
  findIn_insertIn k j a t.entries

@[simp]
theorem contains_insert (t : Table κ α) (k j : κ) (a : α) :
    (t.insert k a).contains j = (decide (k = j) || t.contains j) := by
  unfold contains
  rw [find?_insert]
  by_cases h : k = j <;> simp [h]

theorem length_insertIn (k : κ) (a : α) :
    ∀ {l : List (κ × α)}, l.Pairwise (·.1 < ·.1) →
      (insertIn k a l).length = if (findIn k l).isSome then l.length else l.length + 1
  | [], _ => rfl
  | (j, b) :: rest, h => by
    have ⟨hj, hrest⟩ := List.pairwise_cons.1 h
    simp only [insertIn]
    split
    · rename_i hlt
      have hnone : findIn k ((j, b) :: rest) = none := by
        rw [Option.eq_none_iff_forall_ne_some]
        intro c hc
        rcases List.mem_cons.1 ((findIn_eq_some_iff h).1 hc) with heq | hmem
        · cases heq
          exact Std.lt_irrefl hlt
        · exact Std.lt_irrefl (Std.lt_trans hlt (hj _ hmem))
      rw [hnone]
      rfl
    · split
      · rename_i heq
        simp [findIn, heq]
      · rename_i hne
        rw [List.length_cons, length_insertIn k a hrest, findIn, if_neg hne, List.length_cons]
        split <;> rfl

/-- A value takes a place of its own only under a new key. -/
theorem size_insert (t : Table κ α) (k : κ) (a : α) :
    (t.insert k a).size = if t.contains k then t.size else t.size + 1 :=
  length_insertIn k a t.sorted

/-- The table of a list of entries; a later entry takes the place of an earlier one. -/
def ofList (l : List (κ × α)) : Table κ α :=
  l.foldl (fun t e => t.insert e.1 e.2) empty

theorem insertIn_last {k : κ} {a : α} :
    ∀ {l : List (κ × α)}, (∀ e ∈ l, e.1 < k) → insertIn k a l = l ++ [(k, a)]
  | [], _ => rfl
  | (j, b) :: rest, h => by
    have hj : j < k := h (j, b) List.mem_cons_self
    have hne : j ≠ k := fun heq => Std.lt_irrefl (heq ▸ hj)
    rw [insertIn, if_neg (fun hlt => Std.lt_irrefl (Std.lt_trans hj hlt)), if_neg hne,
      insertIn_last fun e he => h e (List.mem_cons_of_mem _ he), List.cons_append]

theorem entries_foldl_insert : ∀ (l : List (κ × α)) (t : Table κ α),
    (t.entries ++ l).Pairwise (·.1 < ·.1) →
      (l.foldl (fun t e => t.insert e.1 e.2) t).entries = t.entries ++ l
  | [], t, _ => (List.append_nil _).symm
  | (k, a) :: rest, t, h => by
    have hlast : (t.insert k a).entries = t.entries ++ [(k, a)] :=
      insertIn_last fun e he => (List.pairwise_append.1 h).2.2 e he (k, a) List.mem_cons_self
    rw [List.foldl_cons, entries_foldl_insert rest, hlast, List.append_assoc, List.singleton_append]
    rw [hlast, List.append_assoc, List.singleton_append]
    exact h

/-- A table is the table of its entries. -/
theorem ofList_entries (t : Table κ α) : ofList t.entries = t :=
  ext (entries_foldl_insert t.entries empty t.sorted)

end Insert

/-- The table with every value rewritten. -/
def map (f : α → β) (t : Table κ α) : Table κ β :=
  ⟨t.entries.map fun e => (e.1, f e.2), List.pairwise_map.2 t.sorted⟩

end Table

end StoryWorld

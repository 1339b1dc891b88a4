import StoryWorld.RuleSet.Problem

/-!
# The nodes of a rule set

The rules of all kinds are read here as one sort of tree. A node is a rule or a part of a rule that
stands in a list, and its members are the nodes it lists: the conditions of a combination, the
constraints of a path, the filters and limits of a selection. An address leads from a node to a node
below it, and a spot in a rule set is a shelf, a name on it and an address from there. So what is
meant by "anywhere in a rule set" is said once, and what holds of a node as soon as it holds of its
members holds of every node (`Node.Ascends.holds`).
-/

namespace StoryWorld

/-! ## Types of rules -/

def Filter.typeName : Filter → String
  | exclude .. => "exclude"
  | hasRelationship .. => "has_relationship"
  | lacksRelationship .. => "lacks_relationship"
  | hasTag .. => "has_tag"
  | lacksTag .. => "lacks_tag"
  | hasTags .. => "has_tags"
  | hasAnyTag .. => "has_any_tag"
  | lacksAnyTag .. => "lacks_any_tag"
  | hasCulture .. => "has_culture"
  | matchesCulture .. => "matches_culture"
  | notMatchesCulture .. => "not_matches_culture"
  | hasStatus .. => "has_status"
  | hasProminence .. => "has_prominence"
  | sharesRelated .. => "shares_related"
  | path .. => "graph_path"
  | unrecognized typeName => typeName

def PathConstraint.typeName : PathConstraint → String
  | notIn .. => "not_in"
  | isIn .. => "in"
  | notSelf => "not_self"
  | hasRelationship .. => "has_relationship"
  | lacksRelationship .. => "lacks_relationship"
  | kindEquals .. => "kind_equals"
  | subtypeEquals .. => "subtype_equals"
  | unrecognized typeName => typeName

/-! ## Addresses -/

/-- The lists that rules have their members in. -/
inductive Slot where
  /-- The parts of a combination. -/
  | conditions
  /-- The constraints on the end of a path. -/
  | constraints
  | filters
  | saturationLimits
  | preferFilters
  /-- The members of a rule that is nothing but a list. -/
  | members
  deriving DecidableEq

namespace Slot

/-- All of them, in reading order. -/
def inOrder : List Slot :=
  [conditions, constraints, filters, saturationLimits, preferFilters, members]

/-- The place in the reading order. -/
def rank : Slot → Nat
  | conditions => 0
  | constraints => 1
  | filters => 2
  | saturationLimits => 3
  | preferFilters => 4
  | members => 5

/-- The names, one inside the other, under which a rule has the list of a slot in its data. -/
def path : Slot → List String
  | conditions => ["conditions"]
  | constraints => ["assert", "where"]
  | filters => ["filters"]
  | saturationLimits => ["saturation_limits"]
  | preferFilters => ["prefer_filters"]
  | members => []

end Slot

/-- The way from a node to one of its members. -/
structure Part where
  slot : Slot
  index : Nat
  deriving DecidableEq

/-- Whether a member is read before another one. -/
def Part.Before (p q : Part) : Prop :=
  p.slot.rank < q.slot.rank ∨ p.slot = q.slot ∧ p.index < q.index

/-- The way from a node to a node below it. -/
abbrev Address := List Part

/-- Whether an address is read before another one, a node before its members. -/
abbrev Address.Before : Address → Address → Prop := List.Lex Part.Before

theorem Part.Before.asymm {p q : Part} (h : p.Before q) : ¬ q.Before p := by
  unfold Part.Before at h ⊢
  rcases h with h | ⟨hslot, h⟩
  · rintro (h' | ⟨hslot, -⟩)
    · omega
    · rw [hslot] at h
      omega
  · rintro (h' | ⟨-, h'⟩)
    · rw [hslot] at h'
      omega
    · omega

/-! ## Nodes -/

/-- A rule, or a part of a rule that stands in a list. -/
inductive Node where
  | condition (c : Condition)
  | metric (m : Metric)
  | filter (f : Filter)
  | mutation (m : Mutation)
  | constraint (k : PathConstraint)
  | limit (l : SaturationLimit)
  | selection (r : SelectionRule)
  | variableRule (r : VariableRule)
  | mutations (l : List Mutation)

namespace Node

/-- The members of a node in a slot. -/
def listed : Node → Slot → List Node
  | condition (.all l), .conditions => l.map condition
  | condition (.any l), .conditions => l.map condition
  | condition (.path a), .constraints => a.constraints.map constraint
  | filter (.path a), .constraints => a.constraints.map constraint
  | selection r, .filters => r.filters.map filter
  | selection r, .saturationLimits => r.saturationLimits.map limit
  | variableRule r, .filters => r.filters.map filter
  | variableRule r, .preferFilters => r.preferFilters.map filter
  | mutations l, .members => l.map mutation
  | _, _ => []

def member? (n : Node) (p : Part) : Option Node := (n.listed p.slot)[p.index]?

/-- The node at an address. -/
def at? (n : Node) : Address → Option Node
  | [] => some n
  | p :: address => (n.member? p).bind fun m => m.at? address

/-- Whether something holds of a node and of all nodes below it. -/
def Everywhere (P : Node → Prop) (n : Node) : Prop :=
  ∀ (address : Address) (m : Node), n.at? address = some m → P m

/-- The family of a node that is a rule of some family. -/
def family? : Node → Option Family
  | condition _ => some .condition
  | metric _ => some .metric
  | filter _ => some .filter
  | mutation _ => some .mutation
  | constraint _ => some .pathConstraint
  | _ => none

/-- The type of a node that is a rule of some family. -/
def typeName? : Node → Option String
  | condition c => some c.typeName
  | metric m => some m.typeName
  | filter f => some f.typeName
  | mutation m => some m.typeName
  | constraint k => some k.typeName
  | _ => none

end Node

namespace Family

/-- The types a family has. -/
def typeNames : Family → List String
  | condition => Condition.typeNames
  | metric => Metric.typeNames
  | filter => Filter.typeNames
  | mutation => Mutation.typeNames
  | pathConstraint => PathConstraint.typeNames

/-- The rule of a family that is kept under an unknown type. -/
def unrecognized : Family → String → Node
  | condition, typeName => .condition (.unrecognized typeName)
  | metric, typeName => .metric (.unrecognized typeName)
  | filter, typeName => .filter (.unrecognized typeName)
  | mutation, typeName => .mutation (.unrecognized typeName)
  | pathConstraint, typeName => .constraint (.unrecognized typeName)

end Family

/-- Whether a node is a rule of an unknown type. -/
def Node.Unrecognized (n : Node) : Prop :=
  ∃ (family : Family) (typeName : String), n = family.unrecognized typeName

namespace Node

section Unrecognized

variable {family : Family} {typeName : String}

theorem condition_eq_unrecognized {c : Condition} :
    condition c = family.unrecognized typeName ↔
      family = .condition ∧ c = .unrecognized typeName := by
  cases family <;> simp [Family.unrecognized]

theorem metric_eq_unrecognized {m : Metric} :
    metric m = family.unrecognized typeName ↔ family = .metric ∧ m = .unrecognized typeName := by
  cases family <;> simp [Family.unrecognized]

theorem filter_eq_unrecognized {f : Filter} :
    filter f = family.unrecognized typeName ↔ family = .filter ∧ f = .unrecognized typeName := by
  cases family <;> simp [Family.unrecognized]

theorem mutation_eq_unrecognized {m : Mutation} :
    mutation m = family.unrecognized typeName ↔
      family = .mutation ∧ m = .unrecognized typeName := by
  cases family <;> simp [Family.unrecognized]

theorem constraint_eq_unrecognized {k : PathConstraint} :
    constraint k = family.unrecognized typeName ↔
      family = .pathConstraint ∧ k = .unrecognized typeName := by
  cases family <;> simp [Family.unrecognized]

theorem unrecognized_eq_unrecognized {family' : Family} {typeName' : String} :
    family.unrecognized typeName = family'.unrecognized typeName' ↔
      family = family' ∧ typeName = typeName' := by
  cases family <;> cases family' <;> simp [Family.unrecognized]

/-- Only rules of a family can be unrecognized. -/
theorem family?_of_eq_unrecognized {n : Node} (h : n = family.unrecognized typeName) :
    n.family? = some family := by
  subst h
  cases family <;> rfl

end Unrecognized

theorem at?_cons_eq_some_iff {n m : Node} {p : Part} {address : Address} :
    n.at? (p :: address) = some m ↔
      ∃ k, (n.listed p.slot)[p.index]? = some k ∧ k.at? address = some m := by
  rw [at?, Option.bind_eq_some_iff]
  rfl

/-! ## Induction over nodes -/

/-- Whether something holds of a node as soon as it holds of its members. -/
def Ascends (P : Node → Prop) : Prop := ∀ n : Node, (∀ slot, ∀ m ∈ n.listed slot, P m) → P n

section Induction

variable {P : Node → Prop}

theorem Ascends.of_no_members (h : Ascends P) {n : Node} (hn : ∀ slot, n.listed slot = []) :
    P n := by
  refine h n fun slot m hm => ?_
  rw [hn slot] at hm
  cases hm

theorem Ascends.constraint (h : Ascends P) (k : PathConstraint) : P (.constraint k) :=
  h.of_no_members fun _ => rfl

mutual

theorem Ascends.condition (h : Ascends P) : ∀ c : Condition, P (.condition c)
  | .all l => h _ fun slot => by
    cases slot <;> simp only [listed, List.forall_mem_map, List.not_mem_nil, false_imp_iff,
      implies_true]
    exact Ascends.conditions h l
  | .any l => h _ fun slot => by
    cases slot <;> simp only [listed, List.forall_mem_map, List.not_mem_nil, false_imp_iff,
      implies_true]
    exact Ascends.conditions h l
  | .path a => h _ fun slot => by
    cases slot <;> simp only [listed, List.forall_mem_map, List.not_mem_nil, false_imp_iff,
      implies_true]
    exact fun k _ => h.constraint k
  | .test _ => h.of_no_members fun _ => rfl
  | .randomChance _ => h.of_no_members fun _ => rfl
  | .unrecognized _ => h.of_no_members fun _ => rfl

theorem Ascends.conditions (h : Ascends P) : ∀ l : List Condition, ∀ c ∈ l, P (.condition c)
  | c :: _, _, .head _ => Ascends.condition h c
  | _ :: l, c, .tail _ hc => Ascends.conditions h l c hc

end

theorem Ascends.filter (h : Ascends P) (f : Filter) : P (.filter f) := by
  refine h _ fun slot => ?_
  cases f <;> cases slot <;> simp only [listed, List.forall_mem_map, List.not_mem_nil,
    false_imp_iff, implies_true]
  exact fun k _ => h.constraint k

/-- What every node has from its members, every node has. -/
theorem Ascends.holds (h : Ascends P) : ∀ n, P n
  | .condition c => h.condition c
  | .filter f => h.filter f
  | .constraint k => h.constraint k
  | .metric _ => h.of_no_members fun _ => rfl
  | .mutation _ => h.of_no_members fun _ => rfl
  | .limit _ => h.of_no_members fun _ => rfl
  | .selection r => h _ fun slot => by
    cases slot <;> simp only [listed, List.forall_mem_map, List.not_mem_nil, false_imp_iff,
      implies_true]
    · exact fun f _ => h.filter f
    · exact fun l _ => h.of_no_members fun _ => rfl
  | .variableRule r => h _ fun slot => by
    cases slot <;> simp only [listed, List.forall_mem_map, List.not_mem_nil, false_imp_iff,
      implies_true]
    · exact fun f _ => h.filter f
    · exact fun f _ => h.filter f
  | .mutations l => h _ fun slot => by
    cases slot <;> simp only [listed, List.forall_mem_map, List.not_mem_nil, false_imp_iff,
      implies_true]
    exact fun m _ => h.of_no_members fun _ => rfl

end Induction

section Everywhere

variable {P : Node → Prop} {n m : Node}

theorem Everywhere.here (h : n.Everywhere P) : P n := h [] n rfl

theorem Everywhere.below (h : n.Everywhere P) {slot : Slot} (hm : m ∈ n.listed slot) :
    m.Everywhere P := by
  intro address k hk
  obtain ⟨i, hi⟩ := List.mem_iff_getElem?.1 hm
  exact h (⟨slot, i⟩ :: address) k (at?_cons_eq_some_iff.2 ⟨m, hi, hk⟩)

/-- Everywhere is at the node itself and everywhere in its members. -/
theorem everywhere_iff :
    n.Everywhere P ↔ P n ∧ ∀ slot, ∀ m ∈ n.listed slot, m.Everywhere P := by
  refine ⟨fun h => ⟨h.here, fun slot m hm => h.below hm⟩, fun ⟨hn, hmembers⟩ address m hm => ?_⟩
  cases address with
  | nil =>
    cases hm
    exact hn
  | cons p address =>
    obtain ⟨k, hk, hm⟩ := at?_cons_eq_some_iff.1 hm
    exact hmembers p.slot k (List.mem_of_getElem? hk) address m hm

theorem everywhere_of_no_members (hn : ∀ slot, n.listed slot = []) (h : P n) :
    n.Everywhere P :=
  everywhere_iff.2 ⟨h, fun slot m hm => by simp [hn slot] at hm⟩

end Everywhere

end Node

/-! ## Spots -/

/-- The families of named rules that a rule set is made of. -/
inductive Shelf where
  | conditions
  | metrics
  | selections
  | variableRules
  | mutations
  deriving DecidableEq

namespace Shelf

def inOrder : List Shelf := [conditions, metrics, selections, variableRules, mutations]

/-- The place in the reading order. -/
def rank : Shelf → Nat
  | conditions => 0
  | metrics => 1
  | selections => 2
  | variableRules => 3
  | mutations => 4

/-- The name the rules are written under. -/
def name : Shelf → String
  | conditions => "conditions"
  | metrics => "metrics"
  | selections => "selections"
  | variableRules => "variables"
  | mutations => "mutations"

end Shelf

/-- Where a node is in a rule set. -/
structure Spot where
  shelf : Shelf
  /-- The name of the rule on the shelf. -/
  name : String
  address : Address

/-- Whether a spot is read before another one: by shelf, on a shelf by name, and in a rule as it
reads. -/
def Spot.Before (s t : Spot) : Prop :=
  s.shelf.rank < t.shelf.rank ∨ s.shelf = t.shelf ∧
    (s.name < t.name ∨ s.name = t.name ∧ s.address.Before t.address)

theorem Spot.Before.asymm {s t : Spot} (h : s.Before t) : ¬ t.Before s := by
  unfold Spot.Before at h ⊢
  rintro (h' | ⟨hshelf, h'⟩)
  · rcases h with h | ⟨hshelf, -⟩
    · omega
    · rw [hshelf] at h'
      omega
  · rcases h with h | ⟨-, h⟩
    · rw [hshelf] at h
      omega
    · rcases h with h | ⟨hname, h⟩
      · rcases h' with h' | ⟨hname, -⟩
        · exact Std.lt_irrefl (Std.lt_trans h h')
        · rw [hname] at h
          exact Std.lt_irrefl h
      · rcases h' with h' | ⟨-, h'⟩
        · rw [hname] at h'
          exact Std.lt_irrefl h'
        · exact List.lex_asymm (fun hpq => hpq.asymm) h h'

namespace RuleSet

/-- The rules on a shelf. -/
def shelved (r : RuleSet) : Shelf → Table String Node
  | .conditions => r.conditions.map .condition
  | .metrics => r.metrics.map .metric
  | .selections => r.selections.map .selection
  | .variableRules => r.variableRules.map .variableRule
  | .mutations => r.mutations.map .mutations

/-- The node at a spot. -/
def at? (r : RuleSet) (s : Spot) : Option Node :=
  ((r.shelved s.shelf).find? s.name).bind fun n => n.at? s.address

/-- Whether something holds of all nodes of a rule set. -/
def Everywhere (P : Node → Prop) (r : RuleSet) : Prop :=
  ∀ (s : Spot) (n : Node), r.at? s = some n → P n

theorem at?_eq_some_iff {r : RuleSet} {s : Spot} {m : Node} :
    r.at? s = some m ↔
      ∃ n, (s.name, n) ∈ (r.shelved s.shelf).entries ∧ n.at? s.address = some m := by
  rw [at?, Option.bind_eq_some_iff]
  simp only [Table.find?_eq_some_iff]

theorem everywhere_iff {r : RuleSet} {P : Node → Prop} :
    r.Everywhere P ↔ ∀ shelf, ∀ entry ∈ (r.shelved shelf).entries, entry.2.Everywhere P := by
  constructor
  · intro h shelf entry hentry address m hm
    exact h ⟨shelf, entry.1, address⟩ m (at?_eq_some_iff.2 ⟨entry.2, hentry, hm⟩)
  · intro h s m hm
    obtain ⟨n, hn, hm⟩ := at?_eq_some_iff.1 hm
    exact h s.shelf (s.name, n) hn s.address m hm

end RuleSet

end StoryWorld

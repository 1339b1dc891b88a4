import Mathlib.Data.List.Basic
import StoryWorld.Proofs.RuleSet.Nodes

/-!
# Flaws and problems

What is wrong with a rule is said here of its nodes one by one, without any walk: a node is of an
unknown type, or its own values are such that it can never behave sensibly. The problems of a rule
set are one for each flaw of each of its nodes and no others, in the order in which the rule set
reads (`RuleSet.problems_one_per_flaw`).

Lists of problems are put together from lists over parts. One notion serves for all of them: a list
of problems enumerates some flaws when it has one problem for each, in the order of their places
(`Enumerates`). Enumerations of what lies apart are appended, and those of the members of a node are
enumerations of what lies below the node.
-/

namespace StoryWorld

/-- What can be wrong with a node. -/
inductive Flaw where
  | unrecognized (family : Family) (typeName : String)
  | invalid (reason : String)

/-- A flaw with its location. -/
def Flaw.problem (location : String) : Flaw → Problem
  | unrecognized family typeName => .unrecognized family typeName location
  | invalid reason => .invalid location reason

/-- Whether no value lies between two bounds, and what is said about it. -/
def Bounds.Excluding {α : Type} [LT α] (write : α → String) (b : Bounds α) (reason : String) :
    Prop :=
  ∃ low high, b.min = some low ∧ b.max = some high ∧ high < low
    ∧ reason = s!"min {write low} exceeds max {write high}"

namespace Node

/-- Whether a node can never behave sensibly, and what is said about it. -/
def Senseless : Node → String → Prop
  | condition (.test (.pressure _ range)), reason => range.Excluding Decimal.bound.write reason
  | condition (.test (.entityCount _ range _)), reason => range.Excluding toString reason
  | condition (.test (.relationshipCount _ range)), reason => range.Excluding toString reason
  | condition (.test (.prominence range)), reason => range.Excluding Prominence.label reason
  | condition (.randomChance chance), reason =>
    ¬ (0 ≤ chance ∧ chance ≤ 1)
      ∧ reason = s!"chance {Decimal.diagnostic.write chance} outside [0, 1]"
  | condition (.path a), reason => a.path = [] ∧ reason = "graph path has no steps"
  | filter (.path a), reason => a.path = [] ∧ reason = "graph path has no steps"
  | limit l, reason => l.maxCount = 0 ∧ reason = "saturation limit max_count must be positive"
  | _, _ => False

def Flawed (n : Node) : Flaw → Prop
  | .unrecognized family typeName => n = family.unrecognized typeName
  | .invalid reason => n.Senseless reason

/-- Whether the node at an address has a flaw. -/
def FlawedAt (n : Node) (address : Address) (flaw : Flaw) : Prop :=
  ∃ m, n.at? address = some m ∧ m.Flawed flaw

end Node

/-! ## Locations -/

/-- How a slot is named in a location. -/
def Slot.label : Slot → String
  | conditions => ".conditions"
  | constraints => ".where"
  | filters => ".filters"
  | saturationLimits => ".saturation_limits"
  | preferFilters => ".prefer_filters"
  | members => ""

def Part.text (p : Part) : String := s!"{p.slot.label}[{p.index}]"

def Address.text : Address → String
  | [] => ""
  | p :: address => p.text ++ text address

/-- The location of the node at a spot. -/
def Spot.location (s : Spot) : String := s!"{s.shelf.name}.{s.name}" ++ s.address.text

/-! ## Enumerations -/

/-- Whether there is one problem for each flaw `S` has at each place, in the order of the places. -/
def Enumerates {α : Type} (before : α → α → Prop) (location : α → String) (S : α → Flaw → Prop)
    (problems : List Problem) : Prop :=
  ∃ flaws : List (α × Flaw), flaws.Pairwise (fun a b => before a.1 b.1)
    ∧ (∀ place flaw, (place, flaw) ∈ flaws ↔ S place flaw)
    ∧ problems = flaws.map fun entry => entry.2.problem (location entry.1)

namespace Enumerates

section

variable {α β ι : Type} {before : α → α → Prop} {location : α → String} {S T : α → Flaw → Prop}
  {problems problems' : List Problem}

theorem none (h : ∀ place flaw, ¬ S place flaw) : Enumerates before location S [] :=
  ⟨[], .nil, fun place flaw => by simp [h place flaw], rfl⟩

theorem congr (h : Enumerates before location S problems)
    (hST : ∀ place flaw, S place flaw ↔ T place flaw) :
    Enumerates before location T problems := by
  obtain ⟨flaws, hpairwise, hmem, hproblems⟩ := h
  exact ⟨flaws, hpairwise, fun place flaw => (hmem place flaw).trans (hST place flaw), hproblems⟩

/-- Flaws that all come before others are listed before them. -/
theorem append (h : Enumerates before location S problems)
    (h' : Enumerates before location T problems')
    (hbefore : ∀ a f b g, S a f → T b g → before a b) :
    Enumerates before location (fun place flaw => S place flaw ∨ T place flaw)
      (problems ++ problems') := by
  obtain ⟨flaws, hpairwise, hmem, rfl⟩ := h
  obtain ⟨flaws', hpairwise', hmem', rfl⟩ := h'
  refine ⟨flaws ++ flaws', ?_, fun place flaw => ?_, (List.map_append ..).symm⟩
  · refine List.pairwise_append.2 ⟨hpairwise, hpairwise', ?_⟩
    rintro ⟨a, f⟩ ha ⟨b, g⟩ hb
    exact hbefore a f b g ((hmem a f).1 ha) ((hmem' b g).1 hb)
  · rw [List.mem_append, hmem, hmem']

/-- The same flaws seen from elsewhere. -/
theorem seen {before' : β → β → Prop} {location' : β → String} (see : α → β)
    (hbefore : ∀ a b, before a b → before' (see a) (see b))
    (hlocation : ∀ a, location' (see a) = location a)
    (h : Enumerates before location S problems) :
    Enumerates before' location' (fun place flaw => ∃ a, place = see a ∧ S a flaw) problems := by
  obtain ⟨flaws, hpairwise, hmem, rfl⟩ := h
  refine ⟨flaws.map fun entry => (see entry.1, entry.2), ?_, fun place flaw => ?_, ?_⟩
  · exact List.pairwise_map.2 (hpairwise.imp fun hab => hbefore _ _ hab)
  · rw [List.mem_map]
    constructor
    · rintro ⟨⟨a, f⟩, ha, heq⟩
      cases heq
      exact ⟨a, rfl, (hmem a f).1 ha⟩
    · rintro ⟨a, rfl, ha⟩
      exact ⟨(a, flaw), (hmem a flaw).2 ha, rfl⟩
  · rw [List.map_map]
    exact List.map_congr_left fun entry _ => by simp only [Function.comp_apply, hlocation]

/-- Parts one after the other, when what is below an earlier part comes before what is below a later
one. -/
theorem flatMap {precedes : ι → ι → Prop} {part : ι → α → Flaw → Prop}
    {report : ι → List Problem}
    (hbefore : ∀ i j a f b g, precedes i j → part i a f → part j b g → before a b) :
    ∀ {l : List ι}, l.Pairwise precedes →
      (∀ i ∈ l, Enumerates before location (part i) (report i)) →
      Enumerates before location (fun place flaw => ∃ i ∈ l, part i place flaw) (l.flatMap report)
  | [], _, _ => none (by simp)
  | i :: l, hl, h => by
    obtain ⟨hi, hl⟩ := List.pairwise_cons.1 hl
    obtain ⟨hfirst, hrest⟩ := List.forall_mem_cons.1 h
    rw [List.flatMap_cons]
    refine (hfirst.append (flatMap hbefore hl hrest) ?_).congr fun place flaw => ?_
    · rintro a f b g ha ⟨j, hj, hb⟩
      exact hbefore i j a f b g (hi j hj) ha hb
    · rw [List.exists_mem_cons_iff]

end

end Enumerates

/-! ## The problems of a node -/

namespace Node

/-- The problems of a node, as a rule set lists them. -/
def problems (location : String) : Node → List Problem
  | condition c => c.problems location
  | metric m => m.problems location
  | filter f => f.problems location
  | mutation m => m.problems location
  | constraint (.unrecognized typeName) => [.unrecognized .pathConstraint typeName location]
  | constraint _ => []
  | limit l =>
    if l.maxCount = 0 then [.invalid location "saturation limit max_count must be positive"]
    else []
  | selection r => r.problems location
  | variableRule r => r.problems location
  | mutations l => Mutation.listProblems location 0 l

/-- The problems of nodes in a slot, counted from `i`. -/
def slotProblems (location : String) (slot : Slot) (i : Nat) (l : List Node) : List Problem :=
  (l.zipIdx i).flatMap fun member => member.1.problems (location ++ Part.text ⟨slot, member.2⟩)

section Slots

variable (location : String) (i : Nat)

theorem slotProblems_cons (slot : Slot) (n : Node) (l : List Node) :
    slotProblems location slot i (n :: l) =
      n.problems (location ++ Part.text ⟨slot, i⟩) ++ slotProblems location slot (i + 1) l := by
  rw [slotProblems, List.zipIdx_cons, List.flatMap_cons]
  rfl

/-- Locations are extended by parts. -/
theorem located_eq (slot : Slot) (field : String) (h : slot.label = "." ++ field) :
    located location field i = location ++ Part.text ⟨slot, i⟩ := by
  simp [located, Part.text, h, String.append_assoc, toString]

theorem located_member : s!"{location}[{i}]" = location ++ Part.text ⟨.members, i⟩ := by
  simp [Part.text, Slot.label, String.append_assoc, toString]

theorem conditionProblems_eq : ∀ (l : List Condition) (i : Nat),
    Condition.listProblems location i l = slotProblems location .conditions i (l.map condition)
  | [], _ => rfl
  | c :: l, i => by
    rw [Condition.listProblems, List.map_cons, slotProblems_cons, conditionProblems_eq l (i + 1),
      located_eq location i .conditions _ rfl]
    rfl

theorem constraintProblems_eq : ∀ (l : List PathConstraint) (i : Nat),
    PathAssertion.constraintProblems location i l =
      slotProblems location .constraints i (l.map constraint)
  | [], _ => rfl
  | k :: l, i => by
    rw [List.map_cons, slotProblems_cons, ← constraintProblems_eq l (i + 1),
      ← located_eq location i .constraints "where" rfl]
    cases k <;> rfl

theorem filterProblems_eq {slot : Slot} {field : String} (h : slot.label = "." ++ field) :
    ∀ (l : List Filter) (i : Nat), Filter.listProblems location field i l =
      slotProblems location slot i (l.map filter)
  | [], _ => rfl
  | f :: l, i => by
    rw [Filter.listProblems, List.map_cons, slotProblems_cons, filterProblems_eq h l (i + 1),
      located_eq location i slot field h]
    rfl

theorem limitProblems_eq : ∀ (l : List SaturationLimit) (i : Nat),
    SelectionRule.limitProblems location i l =
      slotProblems location .saturationLimits i (l.map limit)
  | [], _ => rfl
  | k :: l, i => by
    rw [SelectionRule.limitProblems, List.map_cons, slotProblems_cons, limitProblems_eq l (i + 1),
      located_eq location i .saturationLimits _ rfl]
    rfl

theorem mutationProblems_eq : ∀ (l : List Mutation) (i : Nat),
    Mutation.listProblems location i l = slotProblems location .members i (l.map mutation)
  | [], _ => rfl
  | m :: l, i => by
    rw [Mutation.listProblems, List.map_cons, slotProblems_cons, mutationProblems_eq l (i + 1),
      located_member]
    rfl

end Slots

/-! ### Flaws of a node itself -/

section Own

variable {n : Node} {location : String}

/-- Whether some problems are those of the node itself. -/
def OwnProblems (n : Node) (location : String) (problems : List Problem) : Prop :=
  Enumerates Address.Before (location ++ ·.text)
    (fun address flaw => address = [] ∧ n.Flawed flaw) problems

theorem OwnProblems.none (h : ∀ flaw, ¬ n.Flawed flaw) : n.OwnProblems location [] :=
  Enumerates.none fun _ flaw hflaw => h flaw hflaw.2

theorem OwnProblems.one (flaw : Flaw) (h : ∀ flaw', n.Flawed flaw' ↔ flaw' = flaw) :
    n.OwnProblems location [flaw.problem location] := by
  refine ⟨[([], flaw)], List.pairwise_singleton _ _, fun address flaw' => ?_, ?_⟩
  · simp only [List.mem_singleton, Prod.mk.injEq, h]
  · simp [Address.text]

/-- One problem if there is a flaw, and none otherwise. -/
theorem OwnProblems.ite {p : Prop} [Decidable p] (flaw : Flaw)
    (h : ∀ flaw', n.Flawed flaw' ↔ p ∧ flaw' = flaw) :
    n.OwnProblems location (if p then [flaw.problem location] else []) := by
  split
  · rename_i hp
    exact one flaw fun flaw' => by rw [h flaw', and_iff_right hp]
  · rename_i hp
    exact none fun flaw' hflaw => hp ((h flaw').1 hflaw).1

theorem OwnProblems.bounds {α : Type} [LT α] [DecidableLT α] {write : α → String} {b : Bounds α}
    (h : ∀ flaw, n.Flawed flaw ↔ ∃ reason, flaw = .invalid reason ∧ b.Excluding write reason) :
    n.OwnProblems location (b.problems write location) := by
  obtain ⟨min, max⟩ := b
  unfold Bounds.problems
  cases min with
  | none => exact none fun flaw hflaw => by simp [h, Bounds.Excluding] at hflaw
  | some low =>
    cases max with
    | none => exact none fun flaw hflaw => by simp [h, Bounds.Excluding] at hflaw
    | some high =>
      exact ite (.invalid s!"min {write low} exceeds max {write high}") fun flaw => by
        simp [h, Bounds.Excluding, and_comm]

end Own

/-- The problems of a node without those of its members. -/
def ownProblems (location : String) : Node → List Problem
  | condition (.path a) | filter (.path a) =>
    if a.path.isEmpty then [.invalid location "graph path has no steps"] else []
  | condition (.all _) | condition (.any _) => []
  | selection _ | variableRule _ | mutations _ => []
  | n => n.problems location

theorem problems_eq (n : Node) (location : String) : n.problems location =
    n.ownProblems location
      ++ Slot.inOrder.flatMap fun slot => slotProblems location slot 0 (n.listed slot) := by
  have hempty : ∀ slot, slotProblems location slot 0 [] = [] := fun _ => rfl
  have hfilters : Slot.filters.label = "." ++ "filters" := rfl
  have hprefer : Slot.preferFilters.label = "." ++ "prefer_filters" := rfl
  cases n with
  | condition c =>
    cases c <;> simp [problems, ownProblems, Slot.inOrder, listed, hempty, Condition.problems,
      PathAssertion.problems, conditionProblems_eq, constraintProblems_eq]
  | filter f =>
    cases f <;> simp [problems, ownProblems, Slot.inOrder, listed, hempty, Filter.problems,
      PathAssertion.problems, constraintProblems_eq]
  | selection r =>
    simp [problems, ownProblems, Slot.inOrder, listed, hempty, SelectionRule.problems,
      filterProblems_eq location hfilters, limitProblems_eq]
  | variableRule r =>
    simp [problems, ownProblems, Slot.inOrder, listed, hempty, VariableRule.problems,
      filterProblems_eq location hfilters, filterProblems_eq location hprefer]
  | mutations l =>
    simp [problems, ownProblems, Slot.inOrder, listed, hempty, mutationProblems_eq]
  | constraint k => cases k <;> simp [problems, ownProblems, Slot.inOrder, listed, hempty]
  | _ => simp [problems, ownProblems, Slot.inOrder, listed, hempty]

theorem own_unrecognized (location : String) (family : Family) (typeName : String) :
    (family.unrecognized typeName).OwnProblems location
      [.unrecognized family typeName location] := by
  refine .one (.unrecognized family typeName) fun flaw => ?_
  cases flaw with
  | unrecognized family' typeName' =>
    simp [Flawed, unrecognized_eq_unrecognized, eq_comm]
  | invalid reason => cases family <;> simp [Flawed, Senseless, Family.unrecognized]

theorem own_test (location : String) (t : Test) :
    (condition (.test t)).OwnProblems location (t.problems location) := by
  cases t with
  | pressure id range =>
    exact .bounds fun flaw => by cases flaw <;> simp [Flawed, Senseless, condition_eq_unrecognized]
  | entityCount census range overshoot =>
    exact .bounds fun flaw => by cases flaw <;> simp [Flawed, Senseless, condition_eq_unrecognized]
  | relationshipCount edges range =>
    exact .bounds fun flaw => by cases flaw <;> simp [Flawed, Senseless, condition_eq_unrecognized]
  | prominence range =>
    exact .bounds fun flaw => by cases flaw <;> simp [Flawed, Senseless, condition_eq_unrecognized]
  | _ =>
    exact .none fun flaw => by cases flaw <;> simp [Flawed, Senseless, condition_eq_unrecognized]

theorem own_chance (location : String) (chance : Float) :
    (condition (.randomChance chance)).OwnProblems location
      ((Condition.randomChance chance).problems location) := by
  have hite : (Condition.randomChance chance).problems location =
      if ¬ (0 ≤ chance ∧ chance ≤ 1) then
        [.invalid location s!"chance {Decimal.diagnostic.write chance} outside [0, 1]"]
      else [] := (ite_not ..).symm
  rw [hite]
  refine .ite (.invalid s!"chance {Decimal.diagnostic.write chance} outside [0, 1]")
    fun flaw => ?_
  cases flaw <;> simp [Flawed, Senseless, condition_eq_unrecognized]

theorem ownProblems_own (location : String) (n : Node) :
    n.OwnProblems location (n.ownProblems location) := by
  cases n with
  | condition c =>
    cases c with
    | test t => exact own_test location t
    | randomChance chance => exact own_chance location chance
    | path a =>
      refine .ite (.invalid "graph path has no steps") fun flaw => ?_
      cases flaw <;> simp [Flawed, Senseless, condition_eq_unrecognized]
    | unrecognized typeName => exact own_unrecognized location .condition typeName
    | _ =>
      refine .none fun flaw => ?_
      cases flaw <;> simp [Flawed, Senseless, condition_eq_unrecognized]
  | filter f =>
    cases f with
    | path a =>
      refine .ite (.invalid "graph path has no steps") fun flaw => ?_
      cases flaw <;> simp [Flawed, Senseless, filter_eq_unrecognized]
    | unrecognized typeName => exact own_unrecognized location .filter typeName
    | _ =>
      refine .none fun flaw => ?_
      cases flaw <;> simp [Flawed, Senseless, filter_eq_unrecognized]
  | metric m =>
    cases m with
    | scaled measure scale =>
      refine .none fun flaw => ?_
      cases flaw <;> simp [Flawed, Senseless, metric_eq_unrecognized]
    | unrecognized typeName => exact own_unrecognized location .metric typeName
  | mutation m =>
    cases m with
    | unrecognized typeName => exact own_unrecognized location .mutation typeName
    | _ =>
      refine .none fun flaw => ?_
      cases flaw <;> simp [Flawed, Senseless, mutation_eq_unrecognized]
  | constraint k =>
    cases k with
    | unrecognized typeName => exact own_unrecognized location .pathConstraint typeName
    | _ =>
      refine .none fun flaw => ?_
      cases flaw <;> simp [Flawed, Senseless, constraint_eq_unrecognized]
  | limit l =>
    refine .ite (.invalid "saturation limit max_count must be positive") fun flaw => ?_
    cases flaw with
    | unrecognized family typeName => cases family <;> simp [Flawed, Family.unrecognized]
    | invalid reason => simp [Flawed, Senseless]
  | _ =>
    refine .none fun flaw => ?_
    cases flaw with
    | unrecognized family typeName => cases family <;> simp [Flawed, Family.unrecognized]
    | invalid reason => simp [Flawed, Senseless]

/-! ### The whole enumeration -/

/-- Whether some problems are those of a node and of everything below it. -/
def AllProblems (n : Node) (location : String) (problems : List Problem) : Prop :=
  Enumerates Address.Before (location ++ ·.text) n.FlawedAt problems

theorem flawedAt_iff {n : Node} {address : Address} {flaw : Flaw} :
    n.FlawedAt address flaw ↔ (address = [] ∧ n.Flawed flaw) ∨
      ∃ slot ∈ Slot.inOrder, ∃ member ∈ (n.listed slot).zipIdx, ∃ rest,
        address = ⟨slot, member.2⟩ :: rest ∧ member.1.FlawedAt rest flaw := by
  cases address with
  | nil => simp [FlawedAt, at?]
  | cons p address =>
    simp only [FlawedAt, at?_cons_eq_some_iff, reduceCtorEq, false_and, false_or,
      List.cons.injEq]
    constructor
    · rintro ⟨m, ⟨k, hk, hm⟩, hflaw⟩
      have hslot : p.slot ∈ Slot.inOrder := by cases p.slot <;> decide
      exact ⟨p.slot, hslot, (k, p.index), List.mk_mem_zipIdx_iff_getElem?.2 hk, address,
        ⟨rfl, rfl⟩, m, hm, hflaw⟩
    · rintro ⟨slot, -, ⟨k, i⟩, hk, rest, ⟨rfl, rfl⟩, m, hm, hflaw⟩
      exact ⟨m, ⟨k, List.mk_mem_zipIdx_iff_getElem?.1 hk, hm⟩, hflaw⟩

/-- Members that have their problems listed have them listed one after the other. -/
theorem allProblems_slot (location : String) (slot : Slot) {l : List Node}
    (h : ∀ m ∈ l, ∀ location, m.AllProblems location (m.problems location)) :
    Enumerates Address.Before (location ++ ·.text)
      (fun address flaw => ∃ member ∈ l.zipIdx, ∃ rest,
        address = ⟨slot, member.2⟩ :: rest ∧ member.1.FlawedAt rest flaw)
      (slotProblems location slot 0 l) := by
  have hpairwise : l.zipIdx.Pairwise (fun a b => a.2 < b.2) := by
    rw [← List.pairwise_map, List.zipIdx_map_snd]
    exact List.pairwise_lt_range'
  refine Enumerates.flatMap ?_ hpairwise fun member hmember => ?_
  · rintro i j a f b g hij ⟨rest, rfl, -⟩ ⟨rest', rfl, -⟩
    exact .rel (.inr ⟨rfl, hij⟩)
  · refine Enumerates.seen _ (fun a b hab => .cons hab) (fun a => ?_) (h member.1 ?_ _)
    · rw [Address.text, String.append_assoc]
    · exact List.fst_mem_of_mem_zipIdx hmember

theorem ascends_allProblems :
    Ascends fun n => ∀ location, n.AllProblems location (n.problems location) := by
  intro n hmembers location
  have hslots : Slot.inOrder.Pairwise (fun a b => a.rank < b.rank) := by decide
  have hbelow := Enumerates.flatMap (fun i j a f b g hij hi hj => ?_) hslots fun slot _ =>
    allProblems_slot location slot (hmembers slot)
  · rw [problems_eq]
    refine ((ownProblems_own location n).append hbelow ?_).congr fun _ _ => flawedAt_iff.symm
    rintro a f b g ⟨rfl, -⟩ ⟨slot, -, member, -, rest, rfl, -⟩
    exact .nil
  · obtain ⟨member, -, rest, rfl, -⟩ := hi
    obtain ⟨member', -, rest', rfl, -⟩ := hj
    exact .rel (.inl hij)

/-- The problems of a node are listed one for each flaw at or below it. -/
theorem allProblems_problems (n : Node) (location : String) :
    n.AllProblems location (n.problems location) := ascends_allProblems.holds n location

end Node

/-! ## The problems of a rule set -/

namespace RuleSet

/-- Whether the node at a spot has a flaw. -/
def FlawedAt (r : RuleSet) (s : Spot) (flaw : Flaw) : Prop :=
  ∃ n, r.at? s = some n ∧ n.Flawed flaw

variable (r : RuleSet)

theorem problems_eq : r.problems = Shelf.inOrder.flatMap fun shelf =>
    (r.shelved shelf).entries.flatMap fun rule =>
      rule.2.problems s!"{shelf.name}.{rule.1}" := by
  simp [problems, familyProblems, Shelf.inOrder, Shelf.name, shelved, Table.map,
    List.flatMap_map, Node.problems]

theorem flawedAt_iff {s : Spot} {flaw : Flaw} :
    r.FlawedAt s flaw ↔ ∃ shelf ∈ Shelf.inOrder, ∃ rule ∈ (r.shelved shelf).entries,
      ∃ address, s = ⟨shelf, rule.1, address⟩ ∧ rule.2.FlawedAt address flaw := by
  simp only [FlawedAt, at?_eq_some_iff]
  constructor
  · rintro ⟨m, ⟨n, hn, hm⟩, hflaw⟩
    have hshelf : s.shelf ∈ Shelf.inOrder := by cases s.shelf <;> decide
    exact ⟨s.shelf, hshelf, (s.name, n), hn, s.address, rfl, m, hm, hflaw⟩
  · rintro ⟨shelf, -, ⟨name, n⟩, hn, address, rfl, m, hm, hflaw⟩
    exact ⟨m, ⟨n, hn, hm⟩, hflaw⟩

theorem enumerates_shelf (shelf : Shelf) :
    Enumerates Spot.Before Spot.location
      (fun s flaw => ∃ rule ∈ (r.shelved shelf).entries,
        ∃ address, s = ⟨shelf, rule.1, address⟩ ∧ rule.2.FlawedAt address flaw)
      ((r.shelved shelf).entries.flatMap fun rule =>
        rule.2.problems s!"{shelf.name}.{rule.1}") := by
  refine Enumerates.flatMap ?_ (r.shelved shelf).sorted fun rule _ => ?_
  · rintro i j a f b g hij ⟨address, rfl, -⟩ ⟨address', rfl, -⟩
    exact .inr ⟨rfl, .inl hij⟩
  · refine Enumerates.seen _ (fun a b hab => ?_) (fun a => ?_) (rule.2.allProblems_problems _)
    · exact .inr ⟨rfl, .inr ⟨rfl, hab⟩⟩
    · rfl

theorem enumerates_problems : Enumerates Spot.Before Spot.location r.FlawedAt r.problems := by
  have hshelves : Shelf.inOrder.Pairwise (fun a b => a.rank < b.rank) := by decide
  rw [problems_eq]
  refine (Enumerates.flatMap ?_ hshelves fun shelf _ => r.enumerates_shelf shelf).congr
    fun _ _ => r.flawedAt_iff.symm
  rintro i j a f b g hij ⟨rule, -, address, rfl, -⟩ ⟨rule', -, address', rfl, -⟩
  exact .inl hij

/-- There is one problem for each flaw in a rule set and no other, in reading order, and a rule set
passes exactly when it has no flaw. -/
theorem problems_one_per_flaw :
    (∃ flaws : List (Spot × Flaw), (flaws.map (·.1)).Nodup
        ∧ flaws.Pairwise (fun a b => a.1.Before b.1)
        ∧ (∀ s flaw, (s, flaw) ∈ flaws ↔ r.FlawedAt s flaw)
        ∧ r.problems = flaws.map fun entry => entry.2.problem entry.1.location)
      ∧ (r.validate = .ok () ↔ ∀ s flaw, ¬ r.FlawedAt s flaw)
      ∧ ∀ problems, r.validate = .error problems ↔ problems = r.problems ∧ r.problems ≠ [] := by
  obtain ⟨flaws, hpairwise, hmem, hproblems⟩ := r.enumerates_problems
  refine ⟨⟨flaws, ?_, hpairwise, hmem, hproblems⟩, ?_, fun problems => ?_⟩
  · refine List.pairwise_map.2 (hpairwise.imp fun hab heq => ?_)
    rw [heq] at hab
    exact hab.asymm hab
  · have hempty : r.validate = .ok () ↔ flaws = [] := by
      unfold validate
      rw [hproblems, List.isEmpty_map]
      cases flaws <;> simp
    rw [hempty, List.eq_nil_iff_forall_not_mem]
    simp only [Prod.forall, hmem]
  · unfold validate
    cases hr : r.problems <;> simp [eq_comm]

end RuleSet

end StoryWorld

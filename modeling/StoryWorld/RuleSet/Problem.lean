import StoryWorld.Decimal.Layout
import StoryWorld.RuleSet.Basic

/-!
# Problems of a rule set

A rule set is checked before it is used. A problem is a rule of an unknown type or a rule that can
never behave sensibly: a range that excludes everything, a chance outside the unit interval, a
path without steps, a limit that lets nobody through. Problems are listed in the order of the
rules: by family, in a family by name, and in a rule as it reads.
-/

namespace StoryWorld

/-- The families of rules that can be unrecognized. -/
inductive Family where
  | condition
  | metric
  | filter
  | mutation
  | pathConstraint
  deriving DecidableEq, Repr

def Family.name : Family → String
  | condition => "condition"
  | metric => "metric"
  | filter => "filter"
  | mutation => "mutation"
  | pathConstraint => "path constraint"

inductive Problem where
  | unrecognized (family : Family) (typeName location : String)
  | invalid (location reason : String)
  deriving DecidableEq

namespace Problem

def message : Problem → String
  | unrecognized family typeName location =>
    s!"Unrecognized {family.name} type '{typeName}' at {location}"
  | invalid location reason => s!"Invalid rule at {location}: {reason}"

/-- The message for a list of problems. -/
def summary (problems : List Problem) : String :=
  s!"Rule set failed validation with {problems.length} problem(s)"

end Problem

/-- The location of a member of a list. -/
def located (location field : String) (i : Nat) : String := s!"{location}.{field}[{i}]"

/-- The problem of bounds that no value lies between. -/
def Bounds.problems {α : Type} [LT α] [DecidableLT α] (write : α → String) (location : String)
    (b : Bounds α) : List Problem :=
  match b.min, b.max with
  | some low, some high =>
    if high < low then
      let lowText := write low
      let highText := write high
      [.invalid location s!"min {lowText} exceeds max {highText}"]
    else []
  | _, _ => []

namespace PathAssertion

def constraintProblems (location : String) (i : Nat) : List PathConstraint → List Problem
  | [] => []
  | .unrecognized typeName :: rest =>
    .unrecognized .pathConstraint typeName (located location "where" i)
      :: constraintProblems location (i + 1) rest
  | _ :: rest => constraintProblems location (i + 1) rest

def problems (location : String) (a : PathAssertion) : List Problem :=
  (if a.path.isEmpty then [.invalid location "graph path has no steps"] else [])
    ++ constraintProblems location 0 a.constraints

end PathAssertion

namespace Filter

def problems (location : String) : Filter → List Problem
  | path assertion => assertion.problems location
  | unrecognized typeName => [.unrecognized .filter typeName location]
  | _ => []

/-- The problems of the filters listed in a field, counted from `i`. -/
def listProblems (location field : String) (i : Nat) : List Filter → List Problem
  | [] => []
  | f :: rest =>
    f.problems (located location field i) ++ listProblems location field (i + 1) rest

end Filter

namespace Test

def problems (location : String) : Test → List Problem
  | pressure _ range => range.problems Decimal.bound.write location
  | entityCount _ range _ | relationshipCount _ range => range.problems toString location
  | prominence range => range.problems Prominence.label location
  | _ => []

end Test

namespace Condition

mutual

def problems (location : String) : Condition → List Problem
  | test t => t.problems location
  | randomChance chance =>
    if 0 ≤ chance ∧ chance ≤ 1 then []
    else
      let chanceText := Decimal.diagnostic.write chance
      [.invalid location s!"chance {chanceText} outside [0, 1]"]
  | path assertion => assertion.problems location
  | all conditions | any conditions => listProblems location 0 conditions
  | unrecognized typeName => [.unrecognized .condition typeName location]

/-- The problems of sub-conditions, counted from `i`. -/
def listProblems (location : String) (i : Nat) : List Condition → List Problem
  | [] => []
  | c :: rest =>
    problems (located location "conditions" i) c ++ listProblems location (i + 1) rest

end

end Condition

def Metric.problems (location : String) : Metric → List Problem
  | unrecognized typeName => [.unrecognized .metric typeName location]
  | scaled .. => []

namespace SelectionRule

def limitProblems (location : String) (i : Nat) : List SaturationLimit → List Problem
  | [] => []
  | l :: rest =>
    (if l.maxCount = 0 then
      [.invalid (located location "saturation_limits" i)
        "saturation limit max_count must be positive"]
    else []) ++ limitProblems location (i + 1) rest

def problems (location : String) (r : SelectionRule) : List Problem :=
  Filter.listProblems location "filters" 0 r.filters
    ++ limitProblems location 0 r.saturationLimits

end SelectionRule

def VariableRule.problems (location : String) (r : VariableRule) : List Problem :=
  Filter.listProblems location "filters" 0 r.filters
    ++ Filter.listProblems location "prefer_filters" 0 r.preferFilters

namespace Mutation

def problems (location : String) : Mutation → List Problem
  | unrecognized typeName => [.unrecognized .mutation typeName location]
  | _ => []

/-- The problems of mutations, counted from `i`. -/
def listProblems (location : String) (i : Nat) : List Mutation → List Problem
  | [] => []
  | m :: rest => m.problems s!"{location}[{i}]" ++ listProblems location (i + 1) rest

end Mutation

namespace RuleSet

/-- The problems of the rules of one family, by name. -/
def familyProblems {α : Type} (family : String) (problems : String → α → List Problem)
    (rules : Table String α) : List Problem :=
  rules.entries.flatMap fun rule => problems s!"{family}.{rule.1}" rule.2

def problems (r : RuleSet) : List Problem :=
  familyProblems "conditions" Condition.problems r.conditions
    ++ familyProblems "metrics" Metric.problems r.metrics
    ++ familyProblems "selections" SelectionRule.problems r.selections
    ++ familyProblems "variables" VariableRule.problems r.variableRules
    ++ familyProblems "mutations" (Mutation.listProblems · 0) r.mutations

/-- A rule set passes when it has no problems. -/
def validate (r : RuleSet) : Except (List Problem) Unit :=
  if r.problems.isEmpty then .ok () else .error r.problems

end RuleSet

end StoryWorld

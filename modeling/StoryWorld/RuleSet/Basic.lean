import StoryWorld.Condition.Basic
import StoryWorld.Filter.Basic
import StoryWorld.Metric.Basic
import StoryWorld.Mutation.Basic
import StoryWorld.Selection.Basic

/-!
# Rule sets

A rule set is a named bundle of rules of every kind, each filed under a name of its own. It can be
written as data exactly when every rule in it is recognized.
-/

namespace StoryWorld

structure RuleSet where
  name : String
  conditions : Table String Condition := {}
  metrics : Table String Metric := {}
  selections : Table String SelectionRule := {}
  variableRules : Table String VariableRule := {}
  mutations : Table String (List Mutation) := {}

/-- The entries of a table written one by one, when every one can be. -/
def Datum.ofEntriesM {α : Type} (write : α → Option Datum) :
    List (String × α) → Option (List (String × Datum))
  | [] => some []
  | (name, a) :: rest => do
    let d ← write a
    let ds ← ofEntriesM write rest
    return (name, d) :: ds

namespace RuleSet

def ofDatum? (setting : Datum.Setting) (d : Datum) : Option RuleSet := do
  let fields ← d.asRecord setting
    ["name", "conditions", "metrics", "selections", "variables", "mutations"]
  let table {α : Type} (name : String) (read : Datum → Option α) :=
    fields.withDefault name (Datum.asTable read) {}
  return {
    name := ← fields.required "name" Datum.asText
    conditions := ← table "conditions" Condition.ofDatum?
    metrics := ← table "metrics" Metric.ofDatum?
    selections := ← table "selections" (SelectionRule.ofDatum? setting)
    variableRules := ← table "variables" (VariableRule.ofDatum? setting)
    mutations := ← table "mutations" (Datum.asList Mutation.ofDatum?) }

def mutationsToDatum? (mutations : List Mutation) : Option Datum := do
  return .list (← Datum.ofListM Mutation.toDatum? mutations)

def toDatum? (r : RuleSet) : Option Datum := do
  let conditions ← Datum.ofEntriesM Condition.toDatum? r.conditions.entries
  let metrics ← Datum.ofEntriesM Metric.toDatum? r.metrics.entries
  let selections ← Datum.ofEntriesM SelectionRule.toDatum? r.selections.entries
  let variableRules ← Datum.ofEntriesM VariableRule.toDatum? r.variableRules.entries
  let mutations ← Datum.ofEntriesM mutationsToDatum? r.mutations.entries
  return .object [
    ("name", .text r.name),
    ("conditions", .object conditions),
    ("metrics", .object metrics),
    ("selections", .object selections),
    ("variables", .object variableRules),
    ("mutations", .object mutations)]

end RuleSet

end StoryWorld

import StoryWorld.Datum.Basic

/-!
# Outcomes

The outcome of a condition says whether it was met and why, with the numbers behind it as data.
The outcome of a combination holds those of its parts.
-/

namespace StoryWorld

structure Outcome where
  passed : Bool
  diagnostic : String
  details : Datum := .null
  children : List Outcome := []

namespace Outcome

mutual

/-- The children are written only when there are some. -/
def toDatum : Outcome → Datum
  | ⟨passed, diagnostic, details, children⟩ =>
    .object ([("passed", .bool passed), ("diagnostic", .text diagnostic), ("details", details)]
      ++ match children with
        | [] => []
        | c :: rest => [("children", .list (toDatum c :: toItems rest))])

def toItems : List Outcome → List Datum
  | [] => []
  | o :: rest => toDatum o :: toItems rest

end

/-- An outcome with given children. -/
def ofFields? (children : Option (List Outcome)) (d : Datum) : Option Outcome := do
  let fields ← d.asRecord .json ["passed", "diagnostic", "details", "children"]
  return {
    passed := ← fields.required "passed" Datum.asBool
    diagnostic := ← fields.required "diagnostic" Datum.asText
    details := ← fields.withDefault "details" Datum.settled? .null
    children := ← children }

mutual

def ofDatum? : Datum → Option Outcome
  | .object fields => ofFields? (children? fields) (.object fields)
  | .list items => ofFields? (lastChildren? items) (.list items)
  | _ => none

/-- The outcomes under `children`, none when there is no such field. -/
def children? : List (String × Datum) → Option (List Outcome)
  | [] => some []
  | (name, d) :: rest => if name = "children" then listed? d else children? rest

/-- The outcomes in the last place of a list of all values. -/
def lastChildren? : List Datum → Option (List Outcome)
  | [_, _, _, d] => listed? d
  | _ => some []

def listed? : Datum → Option (List Outcome)
  | .list items => ofItems? items
  | _ => none

def ofItems? : List Datum → Option (List Outcome)
  | [] => some []
  | d :: rest => do
    let o ← ofDatum? d
    let os ← ofItems? rest
    return o :: os

end

end Outcome

end StoryWorld

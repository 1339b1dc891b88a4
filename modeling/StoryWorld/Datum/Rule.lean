import StoryWorld.Datum.Basic

/-!
# Reading rules

Rules come in families, and the field `type` says which rule of its family an object is. A family
can grow, so an object of a type the family does not have is not refused: it is kept under that
type, as a rule nobody recognizes. An object of a known type that lacks what its type needs is
refused all the same. A rule may also be given as a list of its type and its values in the order of
its fields, but then its type has to be known. Rules are read from settled data, so nothing in them
may be unreadable, not even in a field that their type does not have.
-/

namespace StoryWorld

/-- The type of a rule and its fields. A list says the type first, and `order` says which fields
follow; it has none for a type whose rules cannot be given as lists. -/
def Datum.asRule (order : String → Option (List String)) : Datum → Option (String × Fields)
  | .object fields =>
    match fields.lookup "type" with
    | some (.text type) => some (type, fields)
    | _ => none
  | .list (.text type :: items) => do
    return (type, ← (Datum.list items).asRecord .whole (← order type))
  | _ => none

/-- Reads settled data as a rule of a family with the types `known`. -/
def Datum.readSettled {α : Type} (known : List String) (order : String → Option (List String))
    (unrecognized : String → α) (read : String → Fields → Option α) (d : Datum) : Option α := do
  let (type, fields) ← d.asRule order
  if type ∈ known then read type fields else some (unrecognized type)

/-- Reads data as a rule of a family with the types `known`. -/
def Datum.readRule {α : Type} (known : List String) (order : String → Option (List String))
    (unrecognized : String → α) (read : String → Fields → Option α) (d : Datum) : Option α := do
  (← d.settled?).readSettled known order unrecognized read

/-- The object of a rule. -/
def Datum.ofRule (type : String) (fields : Fields) : Datum :=
  .object (("type", .text type) :: fields)

end StoryWorld

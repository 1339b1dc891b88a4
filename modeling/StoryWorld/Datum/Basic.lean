import StoryWorld.Table

/-!
# Data

World data and rules are exchanged as trees of data: what a text in either notation says, before
it is read as an entity, a rule or anything else. A tree keeps what the text said, so an object
may repeat a name and a float need not be finite. A value that no tree can hold leaves a mark,
because it does no harm in a field that nobody asks for. Rules are read from the settled tree, in
which the last of a repeated name stands and a float that is not finite has become null. A record
is written as an object and may also be given as a list of its values in the order of its fields.
-/

namespace StoryWorld

/-- A tree of data. -/
inductive Datum where
  | null
  | bool (b : Bool)
  | int (n : Int)
  | float (x : Float)
  | text (s : String)
  | list (items : List Datum)
  | object (fields : List (String × Datum))
  /-- A value that is well spelled and still says nothing: a number past the greatest double, a
  text with half a character, a list or an object too deep inside others. -/
  | unreadable
  deriving Inhabited

namespace Datum

mutual

/-- The tree with each object's repeated names and all floats that are not finite settled. -/
def settle : Datum → Datum
  | .float x => if x.isFinite then .float x else .null
  | .list items => .list (settleItems items)
  | .object fields => .object (settleFields fields)
  | d => d

def settleItems : List Datum → List Datum
  | [] => []
  | d :: rest => settle d :: settleItems rest

def settleFields : List (String × Datum) → List (String × Datum)
  | [] => []
  | (name, d) :: rest =>
    let later := settleFields rest
    if later.any (·.1 = name) then later else (name, settle d) :: later

end

mutual

/-- Whether every value in the tree says something. -/
def isReadable : Datum → Bool
  | .unreadable => false
  | .list items => areReadable items
  | .object fields => haveReadable fields
  | _ => true

def areReadable : List Datum → Bool
  | [] => true
  | d :: rest => isReadable d && areReadable rest

def haveReadable : List (String × Datum) → Bool
  | [] => true
  | (_, d) :: rest => isReadable d && haveReadable rest

end

/-- The tree taken whole: it has to be readable all through. -/
def whole? (d : Datum) : Option Datum := if d.isReadable then some d else none

/-- The settled tree, taken whole. -/
def settled? (d : Datum) : Option Datum := d.whole?.map settle

/-- The value under `name` in an object. -/
def get? (name : String) : Datum → Option Datum
  | .object fields => fields.lookup name
  | _ => none

/-- The text under `name` in an object. -/
def getText? (name : String) (d : Datum) : Option String :=
  match d.get? name with
  | some (.text s) => some s
  | _ => none

/-- What says which of several shapes data has: the value under `name` in an object, or the first
item of a list. -/
def tag? (name : String) : Datum → Option Datum
  | .object fields => fields.lookup name
  | .list items => items.head?
  | _ => none

/-- The shape that a text says. -/
def tagText? (name : String) (d : Datum) : Option String :=
  match d.tag? name with
  | some (.text s) => some s
  | _ => none

/-- The shape that a text says, or a number, which is its place among `names`. -/
def tagChoice? (name : String) (names : List String) (d : Datum) : Option String :=
  match d.tag? name with
  | some (.text s) => some s
  | some (.int n) => if 0 ≤ n then names[n.toNat]? else none
  | _ => none

/-! ## Writing -/

/-- A float, or null in place of one that is not finite. -/
def ofFloat (x : Float) : Datum := if x.isFinite then .float x else .null

def ofNat (n : Nat) : Datum := .int n

/-- One of several named choices, as its name. -/
def ofChoice {α : Type} (name : α → String) (a : α) : Datum := .text (name a)

def ofOption {α : Type} (write : α → Datum) : Option α → Datum
  | none => .null
  | some a => write a

def ofList {α : Type} (write : α → Datum) (as : List α) : Datum := .list (as.map write)

def ofTable {α : Type} (write : α → Datum) (t : Table String α) : Datum :=
  .object (t.map write).entries

/-- The items written one by one, when every one can be. -/
def ofListM {α : Type} (write : α → Option Datum) : List α → Option (List Datum)
  | [] => some []
  | a :: rest => do
    let d ← write a
    let ds ← ofListM write rest
    return d :: ds

/-! ## Reading scalars -/

def asBool : Datum → Option Bool
  | .bool b => some b
  | _ => none

def asText : Datum → Option String
  | .text s => some s
  | _ => none

/-- An integer is read as the nearest double. -/
def asFloat : Datum → Option Float
  | .float x => some x
  | .int n => some (Float.ofInt n)
  | _ => none

/-- A whole number below `bound`. A float is none, whole or not. -/
def asNatBelow (bound : Nat) : Datum → Option Nat
  | .int n => if 0 ≤ n ∧ n < bound then some n.toNat else none
  | _ => none

def asUInt64 (d : Datum) : Option UInt64 := (d.asNatBelow UInt64.size).map UInt64.ofNat

def asUInt32 (d : Datum) : Option UInt32 := (d.asNatBelow UInt32.size).map UInt32.ofNat

def asInt32 : Datum → Option Int32
  | .int n =>
    if Int32.minValue.toInt ≤ n ∧ n ≤ Int32.maxValue.toInt then some (Int32.ofInt n) else none
  | _ => none

/-! ## Reading lists and objects -/

def readItems {α : Type} (read : Datum → Option α) : List Datum → Option (List α)
  | [] => some []
  | d :: rest => do
    let a ← read d
    let as ← readItems read rest
    return a :: as

def asList {α : Type} (read : Datum → Option α) : Datum → Option (List α)
  | .list items => readItems read items
  | _ => none

def readEntries {α : Type} (read : Datum → Option α) :
    List (String × Datum) → Option (List (String × α))
  | [] => some []
  | (name, d) :: rest => do
    let a ← read d
    let as ← readEntries read rest
    return (name, a) :: as

/-- A table; an entry whose name comes again later gives way to the later one. -/
def asTable {α : Type} (read : Datum → Option α) : Datum → Option (Table String α)
  | .object fields => (readEntries read fields).map Table.ofList
  | _ => none

/-- Where data is read: straight from a text in JSON or in TOML, or inside an object that is taken
whole before it is read. -/
inductive Setting where
  | json
  | toml
  | whole
  deriving DecidableEq, Repr

/-- What stands for nothing. TOML has no null; an object that is taken whole may be empty where
null is meant. -/
def Setting.isBlank : Setting → Datum → Bool
  | .json, .null => true
  | .toml, .object [] => true
  | .toml, .list [] => true
  | .whole, .null => true
  | .whole, .object [] => true
  | _, _ => false

/-- A choice, from its name or from an object that files nothing under it. -/
def asChoice {α : Type} (setting : Setting) (choose : String → Option α) : Datum → Option α
  | .text s => choose s
  | .object [(s, d)] => if setting.isBlank d then choose s else none
  | _ => none

end Datum

/-- The fields of a record. -/
abbrev Fields := List (String × Datum)

/-- The fields of an object that names none of `known` twice. Other names are not looked at. -/
def Datum.asNamed (known : List String) : Datum → Option Fields
  | .object fields =>
    if known.all fun name => fields.countP (·.1 = name) ≤ 1 then some fields else none
  | _ => none

/-- The fields of a record: those of an object, or the values of a list under `known`, in their
order. A list may end early. Only in TOML may it be too long, and what is left is not looked at. -/
def Datum.asRecord (setting : Setting) (known : List String) : Datum → Option Fields
  | .list items =>
    if setting = .toml ∨ items.length ≤ known.length then some (known.zip items) else none
  | d => d.asNamed known

namespace Fields

variable {α : Type} (fields : Fields) (name : String) (read : Datum → Option α)

/-- A field that has to be there. -/
def required : Option α := (fields.lookup name).bind read

/-- A field that may be missing or null. -/
def optional : Option (Option α) :=
  match fields.lookup name with
  | none | some .null => some none
  | some d => (read d).map some

/-- A field that may be missing, in which case it is `default`. -/
def withDefault (default : α) : Option α :=
  match fields.lookup name with
  | none => some default
  | some d => read d

end Fields

end StoryWorld

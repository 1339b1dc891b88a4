import StoryWorld.Datum.Basic
import StoryWorld.Decimal.Nearest
import StoryWorld.Text.Basic
import StoryWorld.Text.Hex

/-!
# Reading JSON

`Json.read?` reads a whole text as one tree of data. A number without a fraction and an exponent
is an integer as long as it fits a signed or an unsigned word; any other number is a float, and it
has to be finite. A `\u` escape in a string is a code unit, so a character beyond the basic plane
is written as two of them. A text that breaks these bounds in a value, with a number too great, a
lone half of a character or nesting too deep, is still read; only that value is unreadable.
-/

namespace StoryWorld.Json

/-- How many lists and objects may be open around a value that can be read, itself included. -/
def maxDepth : Nat := 127

def isSpace (c : Char) : Bool := c == ' ' || c == '\t' || c == '\n' || c == '\r'

def skip (cs : List Char) : List Char := cs.dropWhile isSpace

/-! ## Numbers -/

/-- The leading digits and what follows them. -/
def digitRun (cs : List Char) : List Char × List Char :=
  (cs.takeWhile Char.isDigit, cs.dropWhile Char.isDigit)

/-- The digits after a point, which has to be followed by one. -/
def fraction : List Char → Option (List Char × List Char)
  | '.' :: cs =>
    match digitRun cs with
    | ([], _) => none
    | run => some run
  | cs => some ([], cs)

/-- The exponent after an `e`, if there is an `e`. -/
def exponent : List Char → Option (Option Int × List Char)
  | c :: cs =>
    if c = 'e' ∨ c = 'E' then
      let (negative, cs) := match cs with
        | '-' :: cs => (true, cs)
        | '+' :: cs => (false, cs)
        | cs => (false, cs)
      match digitRun cs with
      | ([], _) => none
      | (digits, cs) =>
        let n : Int := Decimal.ofDigits digits
        some (some (if negative then -n else n), cs)
    else some (none, c :: cs)
  | [] => some (none, [])

/-- The number of a sign, the digits around the point and an exponent. -/
def numberOf (negative : Bool) (whole fraction : List Char) (exponent : Option Int) : Datum :=
  let n : Int := Decimal.ofDigits whole
  let signed := if negative then -n else n
  if fraction.isEmpty && exponent.isNone
      && (Int64.minValue.toInt ≤ signed ∧ signed < UInt64.size) then .int signed
  else
    let digits := Decimal.ofDigits (whole ++ fraction)
    match Decimal.Digits.nearest? ⟨digits, exponent.getD 0 - fraction.length⟩ with
    | none => .unreadable
    | some x => .float (if negative then -x else x)

/-- A number; its whole part has no leading zero. -/
def number (cs : List Char) : Option (Datum × List Char) := do
  let (negative, cs) := match cs with
    | '-' :: cs => (true, cs)
    | cs => (false, cs)
  let (whole, cs) := digitRun cs
  match whole with
  | [] => none
  | ['0'] => pure ()
  | '0' :: _ => none
  | _ => pure ()
  let (fraction, cs) ← fraction cs
  let (exponent, cs) ← exponent cs
  return (numberOf negative whole fraction exponent, cs)

/-! ## Strings -/

def unescape : Char → Option Char
  | '"' => some '"'
  | '\\' => some '\\'
  | '/' => some '/'
  | 'b' => some '\x08'
  | 'f' => some '\x0c'
  | 'n' => some '\n'
  | 'r' => some '\r'
  | 't' => some '\t'
  | _ => none

/-- A part of a string: a character, or a code unit given by its number. -/
inductive Piece where
  | char (c : Char)
  | unit (n : Nat)

/-- The parts up to the closing quote. -/
def pieces : List Char → Option (List Piece × List Char)
  | [] => none
  | '"' :: rest => some ([], rest)
  | '\\' :: 'u' :: a :: b :: c :: d :: rest => do
    let n ← Text.ofHex? [a, b, c, d]
    (pieces rest).map fun r => (.unit n :: r.1, r.2)
  | '\\' :: c :: rest => do
    let c ← unescape c
    (pieces rest).map fun r => (.char c :: r.1, r.2)
  | c :: rest =>
    if c.toNat < 0x20 then none else (pieces rest).map fun r => (.char c :: r.1, r.2)

/-- Whether a code unit is the first half of a pair. -/
def isFirstHalf (n : Nat) : Bool := 0xD800 ≤ n && n ≤ 0xDBFF

/-- Whether a code unit is the second half of a pair. -/
def isSecondHalf (n : Nat) : Bool := 0xDC00 ≤ n && n ≤ 0xDFFF

/-- The characters of a string. The halves of a pair come together or not at all. -/
def characters? : List Piece → Option (List Char)
  | [] => some []
  | .char c :: rest => (characters? rest).map (c :: ·)
  | .unit m :: .unit n :: rest =>
    if isFirstHalf m then
      if isSecondHalf n then
        let c := Char.ofNat (0x10000 + 0x400 * (m - 0xD800) + (n - 0xDC00))
        (characters? rest).map (c :: ·)
      else none
    else if isSecondHalf m then none
    else (characters? (.unit n :: rest)).map (Char.ofNat m :: ·)
  | .unit m :: rest =>
    if isFirstHalf m || isSecondHalf m then none
    else (characters? rest).map (Char.ofNat m :: ·)

/-- A string, which is none when it holds half a character. -/
def string (cs : List Char) : Option (Option String × List Char) :=
  (pieces cs).map fun r => ((characters? r.1).map String.ofList, r.2)

/-! ## Values -/

/-- A list or an object read where `depth` of them may still be opened. -/
def enclose : Nat → Datum → Datum
  | 0, _ => .unreadable
  | _ + 1, d => d

/-- An object, which is unreadable as soon as one of its names is. -/
def objectOf (fields : List (Option String × Datum)) : Datum :=
  match fields.mapM fun f => f.1.map (·, f.2) with
  | none => .unreadable
  | some fields => .object fields

mutual

def value (depth : Nat) : Nat → List Char → Option (Datum × List Char)
  | 0, _ => none
  | fuel + 1, cs =>
    match skip cs with
    | [] => none
    | '"' :: cs => (string cs).map fun r => (r.1.elim .unreadable .text, r.2)
    | '[' :: cs =>
      match skip cs with
      | ']' :: cs => some (enclose depth (.list []), cs)
      | cs => (items (depth - 1) fuel cs).map fun r => (enclose depth (.list r.1), r.2)
    | '\x7b' :: cs =>
      match skip cs with
      | '\x7d' :: cs => some (enclose depth (.object []), cs)
      | cs => (members (depth - 1) fuel cs).map fun r => (enclose depth (objectOf r.1), r.2)
    | 't' :: cs => (Text.after? ['r', 'u', 'e'] cs).map fun cs => (.bool true, cs)
    | 'f' :: cs => (Text.after? ['a', 'l', 's', 'e'] cs).map fun cs => (.bool false, cs)
    | 'n' :: cs => (Text.after? ['u', 'l', 'l'] cs).map fun cs => (.null, cs)
    | cs => number cs

/-- The items up to the closing bracket. -/
def items (depth : Nat) : Nat → List Char → Option (List Datum × List Char)
  | 0, _ => none
  | fuel + 1, cs => do
    let (d, cs) ← value depth fuel cs
    match skip cs with
    | ',' :: cs => (items depth fuel cs).map fun r => (d :: r.1, r.2)
    | ']' :: cs => some ([d], cs)
    | _ => none

/-- The fields up to the closing brace. -/
def members (depth : Nat) :
    Nat → List Char → Option (List (Option String × Datum) × List Char)
  | 0, _ => none
  | fuel + 1, cs =>
    match skip cs with
    | '"' :: cs => do
      let (name, cs) ← string cs
      match skip cs with
      | ':' :: cs => do
        let (d, cs) ← value depth fuel cs
        match skip cs with
        | ',' :: cs => (members depth fuel cs).map fun r => ((name, d) :: r.1, r.2)
        | '\x7d' :: cs => some ([(name, d)], cs)
        | _ => none
      | _ => none
    | _ => none

end

/-- The tree a text says. Every step that spends fuel leaves it to a shorter rest or to the value
right there, so twice the length is enough. -/
def read? (s : String) : Option Datum :=
  let cs := s.toList
  match value maxDepth (2 * cs.length + 2) cs with
  | some (d, rest) => if (skip rest).isEmpty then some d else none
  | none => none

end StoryWorld.Json

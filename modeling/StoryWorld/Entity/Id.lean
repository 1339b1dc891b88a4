import StoryWorld.Datum.Basic
import StoryWorld.Text.Basic
import StoryWorld.Text.Hex

/-!
# Entity ids

An id is a 128-bit word. It is always written as 32 lower-case hexadecimal digits in the groups
8-4-4-4-12, and it is read from that form, from the digits without hyphens, and from the
hyphenated form in braces or behind `urn:uuid:`. Letter case makes no difference to the digits or
to what stands before them. Ids are ordered as words, which is also the order of their written
forms.
-/

namespace StoryWorld

structure EntityId where
  bits : BitVec 128
  deriving DecidableEq

namespace EntityId

instance : Inhabited EntityId := ⟨⟨0⟩⟩
instance : LE EntityId := ⟨fun a b => a.bits ≤ b.bits⟩
instance : LT EntityId := ⟨fun a b => a.bits < b.bits⟩
instance : DecidableLE EntityId := fun a b => inferInstanceAs (Decidable (a.bits ≤ b.bits))
instance : DecidableLT EntityId := fun a b => inferInstanceAs (Decidable (a.bits < b.bits))

instance : Std.IsLinearOrder EntityId where
  le_refl _ := BitVec.le_refl _
  le_trans _ _ _ := BitVec.le_trans
  le_antisymm a b h h' := by
    cases a; cases b; congr; exact BitVec.le_antisymm h h'
  le_total a b := BitVec.le_total a.bits b.bits

instance : Std.LawfulOrderLT EntityId where
  lt_iff a b := by
    change a.bits < b.bits ↔ a.bits ≤ b.bits ∧ ¬ b.bits ≤ a.bits
    simp only [BitVec.le_def, BitVec.lt_def]
    omega

/-- The id that stands for no particular entity. -/
def nil : EntityId := ⟨0⟩

/-! ## The written form -/

/-- The lengths of the groups of digits. -/
def groups : List Nat := [8, 4, 4, 4, 12]

def hyphenate : List Nat → List Char → List Char
  | [], cs => cs
  | [_], cs => cs
  | n :: ns, cs => cs.take n ++ '-' :: hyphenate ns (cs.drop n)

protected def toString (id : EntityId) : String :=
  String.ofList (hyphenate groups (Text.hexDigits 32 id.bits.toNat))

instance : ToString EntityId := ⟨EntityId.toString⟩

/-! ## Reading -/

/-- The digits without the hyphens between the groups. -/
def unhyphenate : List Nat → List Char → Option (List Char)
  | [], cs => if cs.isEmpty then some [] else none
  | [n], cs => if cs.length = n then some cs else none
  | n :: ns, cs =>
    match cs.drop n with
    | '-' :: rest => (unhyphenate ns rest).map (cs.take n ++ ·)
    | _ => none

/-- The text inside braces or behind `urn:uuid:`. -/
def unwrap (cs : List Char) : List Char :=
  match cs with
  | '\x7b' :: rest => if rest.getLast? = some '\x7d' then rest.dropLast else cs
  | _ => (Text.after? "urn:uuid:".toList cs).getD cs

/-- The id a text spells, with nothing around it. The prefix too may be in any letter case. -/
def ofText? (s : String) : Option EntityId := do
  let cs := (Text.lower s).toList
  let digits ← if cs.length = 32 then some cs else unhyphenate groups (unwrap cs)
  let n ← Text.ofHex? digits
  return ⟨BitVec.ofNat 128 n⟩

/-- The id a reference in a rule spells; blanks around it are ignored. -/
def ofReference? (s : String) : Option EntityId := ofText? (Text.trim s)

def toDatum (id : EntityId) : Datum := .text id.toString

def ofDatum? : Datum → Option EntityId
  | .text s => ofText? s
  | _ => none

end EntityId

end StoryWorld

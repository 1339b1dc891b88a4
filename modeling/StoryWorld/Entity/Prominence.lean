import StoryWorld.Datum.Basic
import StoryWorld.Text.Basic

/-!
# Prominence

How important an entity is in the story, on a scale of five levels. A level that is read from
text is never refused: a name nobody knows counts as the middle of the scale. Moving along the
scale stops at its ends. Two curves turn a level into a multiplier.
-/

namespace StoryWorld

inductive Prominence where
  | forgotten
  | marginal
  | recognized
  | renowned
  | mythic
  deriving DecidableEq, Repr, Inhabited

namespace Prominence

/-- The place on the scale, from 0 to 4. -/
def rank : Prominence → Nat
  | forgotten => 0
  | marginal => 1
  | recognized => 2
  | renowned => 3
  | mythic => 4

instance : LE Prominence := ⟨fun a b => a.rank ≤ b.rank⟩
instance : LT Prominence := ⟨fun a b => a.rank < b.rank⟩
instance : DecidableLE Prominence := fun a b => inferInstanceAs (Decidable (a.rank ≤ b.rank))
instance : DecidableLT Prominence := fun a b => inferInstanceAs (Decidable (a.rank < b.rank))

/-- The level at a place, the nearest end of the scale for a place off it. -/
def ofRank (n : Int) : Prominence :=
  if n ≤ 0 then forgotten
  else if n = 1 then marginal
  else if n = 2 then recognized
  else if n = 3 then renowned
  else mythic

/-- The level some steps up, or down when `steps` is negative. -/
def shift (p : Prominence) (steps : Int) : Prominence := ofRank (p.rank + steps)

def name : Prominence → String
  | forgotten => "forgotten"
  | marginal => "marginal"
  | recognized => "recognized"
  | renowned => "renowned"
  | mythic => "mythic"

/-- The name with a capital, as a range problem shows it. -/
def label : Prominence → String
  | forgotten => "Forgotten"
  | marginal => "Marginal"
  | recognized => "Recognized"
  | renowned => "Renowned"
  | mythic => "Mythic"

instance : ToString Prominence := ⟨name⟩

/-- The level a text names, whatever its letter case and the blanks around it. -/
def ofName (s : String) : Prominence :=
  match Text.lower (Text.trim s) with
  | "forgotten" => forgotten
  | "marginal" => marginal
  | "renowned" => renowned
  | "mythic" => mythic
  | _ => recognized

def toDatum (p : Prominence) : Datum := .text p.name

def ofDatum? (d : Datum) : Option Prominence := d.asText.map ofName

/-- Off the scale there is only its nearest end. -/
theorem ofRank_clamp (n : Int) : ofRank (max 0 (min 4 n)) = ofRank n := by
  by_cases hlow : n ≤ 0
  · have hend : max 0 (min 4 n) = 0 := by omega
    rw [hend, ofRank, ofRank, if_pos (Int.le_refl 0), if_pos hlow]
  · by_cases hhigh : 4 ≤ n
    · have hend : max 0 (min 4 n) = 4 := by omega
      have h1 : n ≠ 1 := by omega
      have h2 : n ≠ 2 := by omega
      have h3 : n ≠ 3 := by omega
      rw [hend, ofRank, ofRank, if_neg hlow, if_neg h1, if_neg h2, if_neg h3]
      rfl
    · have hsame : max 0 (min 4 n) = n := by omega
      rw [hsame]

end Prominence

/-- A curve of multipliers over the levels. -/
inductive ProminenceCurve where
  | successChance
  | actionRate
  deriving DecidableEq, Repr, Inhabited

namespace ProminenceCurve

def multiplier : ProminenceCurve → Prominence → Float
  | successChance, .forgotten => 0.6
  | successChance, .marginal => 0.8
  | successChance, .recognized => 1.0
  | successChance, .renowned => 1.2
  | successChance, .mythic => 1.5
  | actionRate, .forgotten => 0.3
  | actionRate, .marginal => 0.6
  | actionRate, .recognized => 1.0
  | actionRate, .renowned => 1.5
  | actionRate, .mythic => 2.0

def name : ProminenceCurve → String
  | successChance => "success_chance"
  | actionRate => "action_rate"

def label : ProminenceCurve → String
  | successChance => "SuccessChance"
  | actionRate => "ActionRate"

def ofName? : String → Option ProminenceCurve
  | "success_chance" => some successChance
  | "action_rate" => some actionRate
  | _ => none

abbrev toDatum (c : ProminenceCurve) : Datum := .ofChoice name c

abbrev ofDatum? (setting : Datum.Setting) : Datum → Option ProminenceCurve :=
  Datum.asChoice setting ofName?

end ProminenceCurve

end StoryWorld

import StoryWorld.Draws
import StoryWorld.Entity.Basic

/-!
# Picking

Picking reduces a list of candidates to the result of a selection. The first few and all of them
need no chance. A random pick of one is a single draw; a random pick of another number shuffles
the whole list and takes its front. A weighted pick draws one candidate after the other, each time
from those that are left and in proportion to their weights.
-/

namespace StoryWorld

inductive PickStrategy where
  | random
  | weighted
  | first
  | all
  deriving DecidableEq, Repr

namespace PickStrategy

def name : PickStrategy → String
  | random => "random"
  | weighted => "weighted"
  | first => "first"
  | all => "all"

def label : PickStrategy → String
  | random => "Random"
  | weighted => "Weighted"
  | first => "First"
  | all => "All"

def ofName? : String → Option PickStrategy
  | "random" => some random
  | "weighted" => some weighted
  | "first" => some first
  | "all" => some all
  | _ => none

abbrev toDatum (p : PickStrategy) : Datum := .ofChoice name p

abbrev ofDatum? (setting : Datum.Setting) : Datum → Option PickStrategy :=
  Datum.asChoice setting ofName?

end PickStrategy

namespace Pick

section Shuffle

variable {α : Type}

/-- The list with the members at two positions exchanged. -/
def swap (l : List α) (i j : Nat) : List α :=
  match l[i]?, l[j]? with
  | some a, some b => (l.set i b).set j a
  | _, _ => l

/-- Exchanges the members at the positions `js.length, …, 1` with those at the positions `js`. -/
def shuffleBy : List Nat → List α → List α
  | [], l => l
  | j :: js, l => shuffleBy js (swap l (js.length + 1) j)

end Shuffle

section Draw

variable {σ : Type} [DrawSource σ]

/-- Indices for shuffling `n + 1` candidates: one up to `n`, then one up to `n - 1`, down to 1. -/
def shuffleDraws : Nat → σ → List Nat × σ
  | 0, s => ([], s)
  | n + 1, s =>
    let (j, s) := DrawSource.index (n + 2) s
    let (js, s) := shuffleDraws n s
    (j :: js, s)

def shuffle {α : Type} (l : List α) (s : σ) : List α × σ :=
  let (js, s) := shuffleDraws (l.length - 1) s
  (shuffleBy js l, s)

end Draw

/-! ## Weights -/

def weight (e : Entity) : Float := .ofNat (e.prominence.rank + 1)

/-- The first index at which the weights up to there exceed `roll`, or the last index. -/
def roulette {ν : Type} [Sub ν] [OfNat ν 0] [LT ν] [DecidableLT ν] : List ν → ν → Nat
  | [], _ => 0
  | [_], _ => 0
  | w :: rest, roll => if roll - w < 0 then 0 else roulette rest (roll - w) + 1

def total (weights : List Float) : Float := weights.foldl (· + ·) 0

section Weighted

variable {σ : Type} [DrawSource σ]

/-- Picks `n` candidates, or all of them should there be fewer. -/
def weighted : Nat → List Entity → σ → List Entity × σ
  | 0, _, s => ([], s)
  | n + 1, pool, s =>
    if pool.isEmpty then ([], s)
    else
      let (draw, s) := DrawSource.next s
      let weights := pool.map weight
      let i := roulette weights (draw * total weights)
      let (picked, s) := weighted n (pool.eraseIdx i) s
      (pool[i]?.toList ++ picked, s)

end Weighted

end Pick

section Pick

variable {σ : Type} [DrawSource σ]

/-- Reduces candidates by a strategy to at most `max` of them; without `max` to one, except that
all of them are then all. -/
def PickStrategy.pick (p : PickStrategy) (max : Option UInt64) (candidates : List Entity) (s : σ) :
    List Entity × σ :=
  if candidates.isEmpty then ([], s)
  else
    let wanted := (max.getD 1).toNat
    match p with
    | .all =>
      match max with
      | none => (candidates, s)
      | some n => (candidates.take n.toNat, s)
    | .first => (candidates.take wanted, s)
    | .random =>
      if wanted = 1 then
        let (i, s) := DrawSource.index candidates.length s
        (candidates[i]?.toList, s)
      else
        let (shuffled, s) := Pick.shuffle candidates s
        (shuffled.take wanted, s)
    | .weighted => Pick.weighted wanted candidates s

end Pick

end StoryWorld

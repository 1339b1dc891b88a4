/-!
# Draws

Rules that leave something to chance take draws from a source, one after the other. A source is
any type with a next draw; two are given here, a list that is repeated for ever, for replaying a
run, and a seeded generator. Draws are meant to lie in `[0, 1)`, and nothing breaks when one does
not.
-/

namespace StoryWorld

/-- A source of draws. -/
class DrawSource (σ : Type) where
  next : σ → Float × σ

namespace DrawSource

variable {σ : Type} [DrawSource σ]

/-- The source after `n` draws. -/
def skip : Nat → σ → σ
  | 0, s => s
  | n + 1, s => skip n (next s).2

/-- The first `n` draws and the source after them. -/
def take : Nat → σ → List Float × σ
  | 0, s => ([], s)
  | n + 1, s =>
    let (x, s) := next s
    let (xs, s) := take n s
    (x :: xs, s)

/-- A draw turned into an index below `n`. A draw outside `[0, 1)` gives the index at its end. -/
def index (n : Nat) (s : σ) : Nat × σ :=
  let (x, s) := next s
  (min (x * Float.ofNat n).toUInt64.toNat (n - 1), s)

end DrawSource

/-! ## A list of draws -/

/-- Draws from a list, starting over at its end. An empty list gives zeros. -/
structure FixedDraws where
  draws : List Float
  position : Nat := 0

instance : DrawSource FixedDraws where
  next s :=
    match s.draws[s.position % s.draws.length]? with
    | none => (0, s)
    | some x => (x, { s with position := s.position + 1 })

/-! ## A seeded generator -/

/-- The state of a xoshiro256++ generator. -/
structure Xoshiro where
  a : UInt64
  b : UInt64
  c : UInt64
  d : UInt64
  deriving DecidableEq

namespace Xoshiro

/-- One output of SplitMix64 from an advanced state. -/
def mix (z : UInt64) : UInt64 :=
  let z := (z ^^^ (z >>> 30)) * 0xbf58476d1ce4e5b9
  let z := (z ^^^ (z >>> 27)) * 0x94d049bb133111eb
  z ^^^ (z >>> 31)

/-- The generator whose words are the first four SplitMix64 outputs from a seed. -/
def ofSeed (seed : UInt64) : Xoshiro :=
  let step : UInt64 := 0x9e3779b97f4a7c15
  ⟨mix (seed + step), mix (seed + 2 * step), mix (seed + 3 * step), mix (seed + 4 * step)⟩

def rotateLeft (x n : UInt64) : UInt64 := (x <<< n) ||| (x >>> (64 - n))

def nextWord (s : Xoshiro) : UInt64 × Xoshiro :=
  let word := rotateLeft (s.a + s.d) 23 + s.a
  let c := s.c ^^^ s.a
  let d := s.d ^^^ s.b
  (word, {
    a := s.a ^^^ d
    b := s.b ^^^ c
    c := c ^^^ (s.b <<< 17)
    d := rotateLeft d 45 })

/-- The 53 high bits of a word, as a fraction. -/
def fraction (word : UInt64) : Float := (word >>> 11).toFloat * Float.scaleB 1 (-53)

instance : DrawSource Xoshiro where
  next s :=
    let (word, s) := s.nextWord
    (fraction word, s)

end Xoshiro

/-- The draws an evaluation is run with. -/
inductive Draws where
  | fixed (s : FixedDraws)
  | seeded (s : Xoshiro)

instance : DrawSource Draws where
  next
    | .fixed s => let (x, s) := DrawSource.next s; (x, .fixed s)
    | .seeded s => let (x, s) := DrawSource.next s; (x, .seeded s)

end StoryWorld

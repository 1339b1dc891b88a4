import StoryWorld.Datum.Toml.Document
import StoryWorld.Decimal.Nearest
import StoryWorld.Text.Basic
import StoryWorld.Text.Hex

/-!
# Reading TOML

`Toml.read?` reads a text line by line: a header says which table the keys below it go to, and a
key is followed by its value. Values are strings with and without escapes, integers, floats,
booleans, arrays, which may run over several lines, and inline tables, which may not. A float may
be too far below zero but not too far above. Nesting is bounded, and so is the length of a dotted
key.
-/

namespace StoryWorld.Toml

/-- How many arrays and inline tables may be open at once, and how many parts a dotted key may
have. -/
def maxDepth : Nat := 79

def isSpace (c : Char) : Bool := c == ' ' || c == '\t'

def skipSpace (cs : List Char) : List Char := cs.dropWhile isSpace

/-- What may not stand in a string or a comment. -/
def isControl (c : Char) : Bool := (c.toNat < 0x20 && c ≠ '\t') || c.toNat = 0x7F

/-- The text after a comment, if one starts here. -/
def skipComment : List Char → List Char
  | '#' :: cs => cs.dropWhile (!isControl ·)
  | cs => cs

/-- The text after the end of the line; at the end of the text there is nothing left. -/
def endOfLine? (cs : List Char) : Option (List Char) :=
  match skipComment (skipSpace cs) with
  | [] => some []
  | '\n' :: cs => some cs
  | '\r' :: '\n' :: cs => some cs
  | _ => none

/-- The text after spaces, comments and ends of lines. -/
def skipLines : Nat → List Char → List Char
  | 0, cs => cs
  | fuel + 1, cs =>
    match skipComment (skipSpace cs) with
    | '\n' :: cs => skipLines fuel cs
    | '\r' :: '\n' :: cs => skipLines fuel cs
    | cs => cs

/-! ## Strings -/

def unescape : Char → Option Char
  | '"' => some '"'
  | '\\' => some '\\'
  | 'b' => some '\x08'
  | 't' => some '\t'
  | 'n' => some '\n'
  | 'f' => some '\x0c'
  | 'r' => some '\r'
  | _ => none

/-- The character with a code point. -/
def scalar? (digits : List Char) : Option Char := do
  let n ← Text.ofHex? digits
  if n.isValidChar then some (Char.ofNat n) else none

/-- The characters of a string with escapes, up to its closing quote. -/
def basicString : List Char → Option (List Char × List Char)
  | [] => none
  | '"' :: rest => some ([], rest)
  | '\\' :: 'u' :: a :: b :: c :: d :: rest => do
    let x ← scalar? [a, b, c, d]
    (basicString rest).map fun r => (x :: r.1, r.2)
  | '\\' :: 'U' :: a :: b :: c :: d :: e :: f :: g :: h :: rest => do
    let x ← scalar? [a, b, c, d, e, f, g, h]
    (basicString rest).map fun r => (x :: r.1, r.2)
  | '\\' :: c :: rest => do
    let x ← unescape c
    (basicString rest).map fun r => (x :: r.1, r.2)
  | c :: rest =>
    if isControl c then none else (basicString rest).map fun r => (c :: r.1, r.2)

/-- The characters of a string without escapes, up to its closing quote. -/
def literalString (cs : List Char) : Option (List Char × List Char) :=
  match cs.dropWhile fun c => c ≠ '\x27' && !isControl c with
  | '\x27' :: rest => some (cs.takeWhile fun c => c ≠ '\x27' && !isControl c, rest)
  | _ => none

/-! ## Keys -/

def isBare (c : Char) : Bool := c.isAlphanum || c == '_' || c == '-'

def simpleKey : List Char → Option (String × List Char)
  | '"' :: cs => (basicString cs).map fun r => (String.ofList r.1, r.2)
  | '\x27' :: cs => (literalString cs).map fun r => (String.ofList r.1, r.2)
  | cs =>
    match cs.takeWhile isBare with
    | [] => none
    | word => some (String.ofList word, cs.dropWhile isBare)

/-- The parts of a dotted key with at most so many of them. -/
def keyPath : Nat → List Char → Option (List String × List Char)
  | 0, _ => none
  | fuel + 1, cs => do
    let (key, cs) ← simpleKey (skipSpace cs)
    match skipSpace cs with
    | '.' :: cs => (keyPath fuel cs).map fun r => (key :: r.1, r.2)
    | cs => some ([key], cs)

/-- A dotted key as the way to its table and its last part. -/
def splitKey (path : List String) : Option (List String × String) :=
  path.getLast?.map fun key => (path.dropLast, key)

/-! ## Numbers -/

/-- Digits of a base, with single underscores between them, without the underscores. -/
def digits? (isDigit : Char → Bool) : List Char → Option (List Char)
  | [] => none
  | [c] => if isDigit c then some [c] else none
  | c :: '_' :: rest => if isDigit c then (digits? isDigit rest).map (c :: ·) else none
  | c :: rest => if isDigit c then (digits? isDigit rest).map (c :: ·) else none

/-- Decimal digits that start with no needless zero. -/
def wholeDigits? (cs : List Char) : Option (List Char) :=
  match cs with
  | '0' :: _ :: _ => none
  | _ => digits? Char.isDigit cs

/-- A sign, and what follows it. -/
def signed : List Char → Bool × List Char
  | '-' :: cs => (true, cs)
  | '+' :: cs => (false, cs)
  | cs => (false, cs)

def word? (n : Int) : Option Datum :=
  if Int64.minValue.toInt ≤ n ∧ n ≤ Int64.maxValue.toInt then some (.int n) else none

def inBase? (base : Nat) (cs : List Char) : Option Datum := do
  let ds ← digits? (fun c => (Text.hexDigit? c).any (· < base)) cs
  word? (ds.foldl (fun n c => base * n + (Text.hexDigit? c).getD 0) (0 : Nat))

def integer? : List Char → Option Datum
  | '0' :: 'x' :: cs => inBase? 16 cs
  | '0' :: 'o' :: cs => inBase? 8 cs
  | '0' :: 'b' :: cs => inBase? 2 cs
  | cs => do
    let (negative, cs) := signed cs
    let n : Int := Decimal.ofDigits (← wholeDigits? cs)
    word? (if negative then -n else n)

/-- The exponent of a float; zero when there is none. -/
def exponent? : List Char → Option Int
  | [] => some 0
  | _ :: cs => do
    let (negative, cs) := signed cs
    let n : Int := Decimal.ofDigits (← digits? Char.isDigit cs)
    return if negative then -n else n

/-- The digits after the point of a float; none when there is no point. -/
def fraction? : List Char → Option (List Char)
  | [] => some []
  | _ :: cs => digits? Char.isDigit cs

def float? (cs : List Char) : Option Datum :=
  let (negative, cs) := signed cs
  let withSign (x : Float) := Datum.float (if negative then -x else x)
  match cs with
  | ['i', 'n', 'f'] => some (withSign (1.0 / 0.0))
  | ['n', 'a', 'n'] => some (withSign (0.0 / 0.0))
  | cs => do
    let isMark (c : Char) := c == 'e' || c == 'E'
    if !cs.any fun c => c == '.' || isMark c then none
    let mantissa := cs.takeWhile (!isMark ·)
    let exponent ← exponent? (cs.dropWhile (!isMark ·))
    let whole ← wholeDigits? (mantissa.takeWhile (· ≠ '.'))
    let fraction ← fraction? (mantissa.dropWhile (· ≠ '.'))
    let digits := Decimal.ofDigits (whole ++ fraction)
    match Decimal.Digits.nearest? ⟨digits, exponent - fraction.length⟩ with
    | none => if negative then some (.float (-1.0 / 0.0)) else none
    | some x => some (withSign x)

/-- Where a value that is a plain word ends. -/
def endsWord (c : Char) : Bool :=
  isSpace c || isControl c || c == ',' || c == ']' || c == '\x7d' || c == '#'

/-- The value a plain word says. -/
def plain? (cs : List Char) : Option Datum :=
  if cs = ['t', 'r', 'u', 'e'] then some (.bool true)
  else if cs = ['f', 'a', 'l', 's', 'e'] then some (.bool false)
  else (integer? cs).or (float? cs)

/-! ## Values -/

mutual

/-- A value where `depth` more arrays and inline tables may be open. -/
def value (depth : Nat) : Nat → List Char → Option (Datum × List Char)
  | 0, _ => none
  | fuel + 1, cs =>
    match cs with
    | '"' :: cs => (basicString cs).map fun r => (.text (String.ofList r.1), r.2)
    | '\x27' :: cs => (literalString cs).map fun r => (.text (String.ofList r.1), r.2)
    | '[' :: cs =>
      match depth with
      | 0 => none
      | depth + 1 => (arrayItems depth fuel cs).map fun r => (.list r.1, r.2)
    | '\x7b' :: cs =>
      match depth, skipSpace cs with
      | 0, _ => none
      | _ + 1, '\x7d' :: cs => some (.object [], cs)
      | depth + 1, cs => (inlineTable depth fuel cs []).map fun r => (.object (toFields r.1), r.2)
    | cs => (plain? (cs.takeWhile (!endsWord ·))).map fun d => (d, cs.dropWhile (!endsWord ·))

/-- The items up to the closing bracket, which may follow a comma. -/
def arrayItems (depth : Nat) : Nat → List Char → Option (List Datum × List Char)
  | 0, _ => none
  | fuel + 1, cs =>
    match skipLines cs.length cs with
    | ']' :: cs => some ([], cs)
    | cs => do
      let (d, cs) ← value depth fuel cs
      match skipLines cs.length cs with
      | ',' :: cs => (arrayItems depth fuel cs).map fun r => (d :: r.1, r.2)
      | ']' :: cs => some ([d], cs)
      | _ => none

/-- The entries up to the closing brace, added to those read so far. -/
def inlineTable (depth : Nat) : Nat → List Char → Entries → Option (Entries × List Char)
  | 0, _, _ => none
  | fuel + 1, cs, entries => do
    let (path, cs) ← keyPath maxDepth cs
    let (path, key) ← splitKey path
    match skipSpace cs with
    | '=' :: cs => do
      let (d, cs) ← value depth fuel (skipSpace cs)
      let entries ← setPath path key d .header entries
      match skipSpace cs with
      | ',' :: cs => inlineTable depth fuel cs entries
      | '\x7d' :: cs => some (entries, cs)
      | _ => none
    | _ => none

end

/-! ## Documents -/

/-- A document so far: the table the last header opened, and everything. -/
structure Progress where
  current : List String := []
  entries : Entries := []

/-- Reads a header up to its closing bracket and opens its table. -/
def header (p : Progress) (doubled : Bool) (cs : List Char) : Option (Progress × List Char) := do
  let (full, cs) ← keyPath maxDepth cs
  let (path, key) ← splitKey full
  let change := if doubled then addTable key else openTable key
  let entries ← within .passing change path .header p.entries
  let cs ← Text.after? (if doubled then [']', ']'] else [']']) cs
  return (⟨full, entries⟩, cs)

/-- Reads a key and its value into the current table. -/
def keyValue (p : Progress) (cs : List Char) : Option (Progress × List Char) := do
  let (path, cs) ← keyPath maxDepth cs
  let (path, key) ← splitKey path
  match skipSpace cs with
  | '=' :: cs => do
    let cs := skipSpace cs
    let (d, cs) ← value maxDepth (2 * cs.length + 2) cs
    let entries ← within .passing (setPath path key d) p.current .header p.entries
    return ({ p with entries }, cs)
  | _ => none

def document : Nat → Progress → List Char → Option Entries
  | 0, _, _ => none
  | fuel + 1, p, cs =>
    match skipLines cs.length cs with
    | [] => some p.entries
    | '[' :: '[' :: cs => do
      let (p, cs) ← header p true cs
      document fuel p (← endOfLine? cs)
    | '[' :: cs => do
      let (p, cs) ← header p false cs
      document fuel p (← endOfLine? cs)
    | cs => do
      let (p, cs) ← keyValue p cs
      document fuel p (← endOfLine? cs)

/-- The object a text says. -/
def read? (s : String) : Option Datum :=
  let cs := s.toList
  (document (cs.length + 1) {} cs).map fun entries => .object (toFields entries)

end StoryWorld.Toml

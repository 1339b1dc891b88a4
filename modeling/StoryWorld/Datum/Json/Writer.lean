import StoryWorld.Datum.Basic
import StoryWorld.Decimal.Layout
import StoryWorld.Text.Hex

/-!
# Writing JSON

A tree is written without spaces, its fields in the order they stand in. A float is written with
the fewest digits that read back and is always told apart from an integer; one that is not finite
has no number and is written as null, and so is what could not be read.
-/

namespace StoryWorld.Json

/-- A character as it stands in a string. -/
def escape (c : Char) : List Char :=
  match c with
  | '"' => ['\\', '"']
  | '\\' => ['\\', '\\']
  | '\x08' => ['\\', 'b']
  | '\x0c' => ['\\', 'f']
  | '\n' => ['\\', 'n']
  | '\r' => ['\\', 'r']
  | '\t' => ['\\', 't']
  | c =>
    if c.toNat < 0x20 then '\\' :: 'u' :: Text.hexDigits 4 c.toNat else [c]

def quote (s : String) : String :=
  String.ofList ('"' :: (s.toList.flatMap escape ++ ['"']))

mutual

def write : Datum → String
  | .null | .unreadable => "null"
  | .bool b => if b then "true" else "false"
  | .int n => toString n
  | .float x => if x.isFinite then Decimal.stored.write x else "null"
  | .text s => quote s
  | .list items => "[" ++ writeItems items ++ "]"
  | .object fields => "\x7b" ++ writeFields fields ++ "\x7d"

def writeItems : List Datum → String
  | [] => ""
  | [d] => write d
  | d :: rest => write d ++ "," ++ writeItems rest

def writeFields : List (String × Datum) → String
  | [] => ""
  | [(name, d)] => quote name ++ ":" ++ write d
  | (name, d) :: rest => quote name ++ ":" ++ write d ++ "," ++ writeFields rest

end

end StoryWorld.Json

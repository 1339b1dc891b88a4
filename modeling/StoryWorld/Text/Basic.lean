/-!
# Text

References and level names are written by hand in rule files, so they are read with the blanks
around them dropped. A blank is any character with Unicode's White_Space property, not only the
ASCII ones; letter case is folded for ASCII letters alone. A variable is spelled with a leading
`$`, which binding and asking for a variable both ignore, however often it is repeated.
-/

namespace StoryWorld.Text

/-- The code points with Unicode's White_Space property. -/
def isBlank (c : Char) : Bool :=
  let n := c.toNat
  (0x9 ≤ n && n ≤ 0xD) || n == 0x20 || n == 0x85 || n == 0xA0 || n == 0x1680
    || (0x2000 ≤ n && n ≤ 0x200A) || n == 0x2028 || n == 0x2029 || n == 0x202F
    || n == 0x205F || n == 0x3000

/-- `s` without the blanks at its two ends. -/
def trim (s : String) : String :=
  String.ofList ((s.toList.dropWhile isBlank).reverse.dropWhile isBlank).reverse

/-- `s` with its ASCII letters in lower case. -/
def lower (s : String) : String :=
  String.ofList (s.toList.map Char.toLower)

/-- `s` without the `$` signs it starts with. -/
def dropSigils (s : String) : String :=
  String.ofList (s.toList.dropWhile (· == '$'))

/-- What follows `word`, when the text starts with it. -/
def after? : List Char → List Char → Option (List Char)
  | [], cs => some cs
  | _ :: _, [] => none
  | w :: ws, c :: cs => if w = c then after? ws cs else none

theorem after?_eq_some_iff : ∀ {word cs rest : List Char},
    after? word cs = some rest ↔ cs = word ++ rest
  | [], cs, rest => by simp [after?]
  | w :: ws, [], rest => by simp [after?]
  | w :: ws, c :: cs, rest => by
    simp only [after?, List.cons_append, List.cons.injEq]
    split
    · rename_i h
      simp [after?_eq_some_iff, h]
    · rename_i h
      simp [Ne.symm h]

end StoryWorld.Text

/-!
# Hexadecimal digits

Letters stand for digits in either case when read and are written in lower case.
-/

namespace StoryWorld.Text

def hexDigit? (c : Char) : Option Nat :=
  if '0' ≤ c ∧ c ≤ '9' then some (c.toNat - '0'.toNat)
  else if 'a' ≤ c ∧ c ≤ 'f' then some (c.toNat - 'a'.toNat + 10)
  else if 'A' ≤ c ∧ c ≤ 'F' then some (c.toNat - 'A'.toNat + 10)
  else none

/-- The value of hexadecimal digits, read from the left. -/
def ofHex? (digits : List Char) : Option Nat :=
  digits.foldlM (fun n c => (hexDigit? c).map (16 * n + ·)) 0

def hexChar (n : Nat) : Char :=
  if n < 10 then Char.ofNat ('0'.toNat + n) else Char.ofNat ('a'.toNat + (n - 10))

/-- The `count` lowest digits of `n`, highest first. -/
def hexDigits : Nat → Nat → List Char
  | 0, _ => []
  | count + 1, n => hexDigits count (n / 16) ++ [hexChar (n % 16)]

theorem hexDigit?_hexChar {n : Nat} (h : n < 16) : hexDigit? (hexChar n) = some n := by
  revert n; decide

theorem length_hexDigits : ∀ count n : Nat, (hexDigits count n).length = count
  | 0, _ => rfl
  | count + 1, n => by simp [hexDigits, length_hexDigits count]

/-- The lowest digits of a number, read again. -/
theorem ofHex?_hexDigits : ∀ count n : Nat,
    ofHex? (hexDigits count n) = some (n % Nat.pow 16 count)
  | 0, n => by simp [hexDigits, ofHex?, Nat.mod_one]
  | count + 1, n => by
    have ih := ofHex?_hexDigits count (n / 16)
    simp only [ofHex?] at ih
    simp only [hexDigits, ofHex?, List.foldlM_append, ih]
    have hd := hexDigit?_hexChar (Nat.mod_lt n (by decide : 16 > 0))
    simp only [List.foldlM_cons, List.foldlM_nil, hd, Option.map_some, Option.bind_eq_bind,
      Option.bind_some, Option.pure_def, Option.some.injEq]
    have hpow : Nat.pow 16 (count + 1) = 16 * Nat.pow 16 count := Nat.mul_comm ..
    rw [hpow, Nat.mod_mul]
    omega

end StoryWorld.Text

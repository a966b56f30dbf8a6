import ModuleDocs.Text.Basic

/-!
# Numerals

Digits of any base up to sixteen, and the characters that a number stands for.
-/

namespace ModuleDocs

namespace Text

/-- The value of a hexadecimal digit. -/
def hexDigit? (c : Char) : Option Nat :=
  if c.isDigit then some (c.toNat - '0'.toNat)
  else if 'a' ≤ c ∧ c ≤ 'f' then some (c.toNat - 'a'.toNat + 10)
  else if 'A' ≤ c ∧ c ≤ 'F' then some (c.toNat - 'A'.toNat + 10)
  else none

/-- The number that non-empty digits of a base write. -/
def digits? (base : Nat) (s : Text) : Option Nat :=
  if s = [] then none
  else s.foldl (fun v c => do
    let d ← hexDigit? c
    if d < base then pure (base * (← v) + d) else none) (some 0)

/-- The number that `n` hexadecimal digits at the front write. -/
def hexNumber? (n : Nat) (s : Text) : Option Nat :=
  if s.length < n then none else digits? 16 (s.take n)

/-- The character of a number, unless it is half of a pair or too large. -/
def scalarChar? (n : Nat) : Option Char :=
  if (0xD800 ≤ n ∧ n ≤ 0xDFFF) ∨ 0x10FFFF < n then none else some (Char.ofNat n)

end Text

end ModuleDocs

import ModuleDocs.Text.Basic

/-!
# Binary numbers and their decimal texts

A number of the 64-bit binary format is a sign and `mantissa · 2 ^ exponent`
with a mantissa below 2⁵³. Two things are done with one: it is read from a
decimal numeral, rounded to the nearest number of the format with ties to the
even mantissa (`ofDecimal`), and written with the fewest digits that read back
(`shortest`). Both work in exact integer arithmetic.

How the digits are laid out is a separate matter: `NumeralStyle` holds the
choices in which the two formats that print numbers differ.
-/

namespace ModuleDocs

/-- A number of the 64-bit binary format. -/
inductive Binary64 where
  | finite (negative : Bool) (mantissa : Nat) (exponent : Int)
  | infinite (negative : Bool)
  | nan
  deriving DecidableEq, Inhabited

namespace Binary64

/-- Least exponent of the format. -/
def minExponent : Int := -1074

/-- Greatest exponent of the format. -/
def maxExponent : Int := 971

/-- The quotient rounded to the nearest integer, a half to the even one. -/
def roundedQuotient (num den : Nat) : Nat :=
  let q := num / den
  let twice := 2 * (num % den)
  if twice < den then q else if den < twice then q + 1 else q + q % 2

/-- A numerator and a denominator scaled by a power of two. -/
def scaleDown (num den : Nat) (q : Int) : Nat × Nat :=
  if q < 0 then (num * Nat.pow 2 q.natAbs, den) else (num, den * Nat.pow 2 q.natAbs)

/-- The nearest number of the format to a positive quotient. -/
def ofQuotient (negative : Bool) (num den : Nat) : Binary64 :=
  let guess : Int := (Nat.log2 num : Int) - Nat.log2 den - 53
  let small := scaleDown num den guess
  let fitted := if small.2 * Nat.pow 2 53 ≤ small.1 then guess + 1 else guess
  let q := max fitted minExponent
  let scaled := scaleDown num den q
  let m := roundedQuotient scaled.1 scaled.2
  let (m, q) := if m = Nat.pow 2 53 then (Nat.pow 2 52, q + 1) else (m, q)
  if maxExponent < q then .infinite negative else .finite negative m q

/-- The nearest number of the format to `digits · 10 ^ exponent`. -/
def ofDecimal (negative : Bool) (digits : Nat) (exponent : Int) : Binary64 :=
  if digits = 0 then .finite negative 0 minExponent
  else
    let size : Int := (Nat.toDigits 10 digits).length
    if 400 < size + exponent then .infinite negative
    else if size + exponent < -400 then .finite negative 0 minExponent
    else if exponent < 0 then ofQuotient negative digits (Nat.pow 10 exponent.natAbs)
    else ofQuotient negative (digits * Nat.pow 10 exponent.natAbs) 1

/-- Whether `digits · 10 ^ k` rounds to `m · 2 ^ q`: twice its distance is at
most the step to the neighbour on its side, and less for an odd mantissa. Below
the least mantissa of a binade the step is half as wide. -/
def readsBack (m : Nat) (q : Int) (digits : Nat) (k : Int) : Bool :=
  -- both sides as multiples of 2 ^ (q - 2), over the denominator 10 ^ (-k) if k < 0
  let tens := Nat.pow 10 k.natAbs
  let value := if k < 0 then 4 * m * tens else 4 * m
  let unit := if k < 0 then tens else 1
  let scaled := scaleDown (if k < 0 then digits else digits * tens) 1 (q - 2)
  let value := value * scaled.2
  let unit := unit * scaled.2
  let candidate := scaled.1
  let below := if m = Nat.pow 2 52 ∧ minExponent < q then unit else 2 * unit
  if m % 2 = 0 then value ≤ candidate + below ∧ candidate ≤ value + 2 * unit
  else value < candidate + below ∧ candidate < value + 2 * unit

/-- The integer part of `m · 2 ^ q / 10 ^ k`, and whether the rest is above,
at or below a half. -/
def onGrid (m : Nat) (q k : Int) : Nat × Ordering :=
  let twos := Nat.pow 2 q.natAbs
  let tens := Nat.pow 10 k.natAbs
  let num := (if q < 0 then m else m * twos) * (if k < 0 then tens else 1)
  let den := (if q < 0 then twos else 1) * (if k < 0 then 1 else tens)
  (num / den, compare (2 * (num % den)) den)

/-- Searches the grids from the coarsest, `steps` of them, for the decimal that
reads back. -/
def searchShortest (m : Nat) (q : Int) : Nat → Int → Nat × Int
  | 0, k => (onGrid m q k |>.1, k)
  | steps + 1, k =>
    let (low, half) := onGrid m q k
    let lowOk := low ≠ 0 ∧ readsBack m q low k
    let highOk := readsBack m q (low + 1) k
    if lowOk ∧ highOk then
      match half with
      | .lt => (low, k)
      | .gt => (low + 1, k)
      | .eq => (low + low % 2, k)
    else if lowOk then (low, k)
    else if highOk then (low + 1, k)
    else searchShortest m q steps (k - 1)

/-- Digits and decimal exponent of the shortest decimal that reads back as
`m · 2 ^ q`, of several the nearest. -/
def shortest (m : Nat) (q : Int) : Nat × Int :=
  -- the decimal size of m · 2 ^ q, at most one too large
  let log : Int := ((Nat.log2 m : Int) + q) * 30103 / 100000
  searchShortest m q 24 (log + 1)

end Binary64

/-- How the digits of a number are laid out. -/
structure NumeralStyle where
  /-- The sign of a positive decimal exponent. -/
  plus : Text
  /-- Least number of digits of an exponent. -/
  exponentDigits : Nat

namespace NumeralStyle

/-- Removes trailing zeros of a number above zero, counting them. -/
def stripZeros : Nat → Nat → Int → Nat × Int
  | 0, d, k => (d, k)
  | fuel + 1, d, k => if d ≠ 0 ∧ d % 10 = 0 then stripZeros fuel (d / 10) (k + 1) else (d, k)

/-- An exponent with its sign. -/
def exponentText (style : NumeralStyle) (e : Int) : Text :=
  let digits := Text.ofNat e.natAbs
  (if e < 0 then ['-'] else style.plus) ++
    List.replicate (style.exponentDigits - digits.length) '0' ++ digits

/-- The text of a finite number. Numbers from 10⁻⁵ up to 10¹⁶ are written
positionally, with at least one digit on both sides of the point. -/
def finiteText (style : NumeralStyle) (negative : Bool) (m : Nat) (q : Int) : Text :=
  let sign : Text := if negative then ['-'] else []
  if m = 0 then sign ++ "0.0".toList
  else
    let (d, k) := Binary64.shortest m q
    let (d, k) := stripZeros 400 d k
    let digits := Text.ofNat d
    let point : Int := digits.length + k
    sign ++
      if 0 ≤ k ∧ point ≤ 16 then digits ++ List.replicate k.toNat '0' ++ ".0".toList
      else if 0 < point ∧ point ≤ 16 then
        digits.take point.toNat ++ '.' :: digits.drop point.toNat
      else if -5 < point ∧ point ≤ 0 then
        "0.".toList ++ List.replicate point.natAbs '0' ++ digits
      else
        (match digits with
          | [c] => [c]
          | c :: cs => c :: '.' :: cs
          | [] => []) ++ 'e' :: exponentText style (point - 1)

end NumeralStyle

end ModuleDocs

import ModuleDocs.Yaml.Value
import ModuleDocs.Yaml.ScalarText

/-!
# What plain scalars mean

A plain scalar that reads as null, a truth value or a number is one; any other
is text. Numbers of more than one digit do not start with a zero. An integer may
be written in base 16, 8 or 2; one that does not fit into 64 bits but into 128
has no value here (`Meaning.tooLarge`), and a still larger decimal one counts as a
binary number.
-/

namespace ModuleDocs

namespace Yaml

/-- What a plain scalar may turn out to be. -/
inductive Meaning where
  | null
  | bool (b : Bool)
  | integer (n : Int)
  | tooLarge
  | float (x : Binary64)
  | text
  deriving DecidableEq

namespace Meaning

/-- The spellings of null. -/
def isNull (s : Text) : Bool :=
  s == "null".toList || s == "Null".toList || s == "NULL".toList || s == "~".toList

/-- The truth value of a spelling. -/
def bool? (s : Text) : Option Bool :=
  if s = "true".toList ∨ s = "True".toList ∨ s = "TRUE".toList then some true
  else if s = "false".toList ∨ s = "False".toList ∨ s = "FALSE".toList then some false
  else none

/-- Digits of which the first of several is a zero are no number. -/
def isZeroPadded (s : Text) : Bool :=
  let s := match s with
    | '-' :: r => r
    | '+' :: r => r
    | r => r
  match s with
  | '0' :: c :: r => (c :: r).all Char.isDigit
  | _ => false

/-- The magnitude that an unsigned spelling writes: in base 16, 8 or 2 behind
its mark, else in base 10. -/
def magnitude? (s : Text) : Option Nat :=
  match s with
  | '0' :: 'x' :: r => Text.digits? 16 r
  | '0' :: 'o' :: r => Text.digits? 8 r
  | '0' :: 'b' :: r => Text.digits? 2 r
  | r => Text.digits? 10 r

/-- The integer of a spelling, if it is one of an integer. -/
def integer? (s : Text) : Option Int :=
  if isZeroPadded s then none
  else
    match s with
    | '+' :: r => (magnitude? r).map Int.ofNat
    | '-' :: r => (magnitude? r).map fun n => -(n : Int)
    | r => (magnitude? r).map Int.ofNat

/-- Reads `digits`, `digits.digits` or the like with an optional exponent: sign,
digits and decimal exponent. -/
def decimal? (s : Text) : Option (Bool × Nat × Int) :=
  let (negative, s) := match s with
    | '-' :: r => (true, r)
    | '+' :: r => (false, r)
    | r => (false, r)
  let (whole, rest) := s.span Char.isDigit
  let (part, rest) := match rest with
    | '.' :: r => r.span Char.isDigit
    | r => ([], r)
  let mantissa := whole ++ part
  if mantissa = [] then none
  else
    let exponent : Option Int := match rest with
      | [] => some 0
      | e :: r =>
        if e = 'e' ∨ e = 'E' then
          match r with
          | '-' :: r => (Text.digits? 10 r).map fun n => -(n : Int)
          | '+' :: r => (Text.digits? 10 r).map Int.ofNat
          | r => (Text.digits? 10 r).map Int.ofNat
        else none
    exponent.bind fun e => (Text.digits? 10 mantissa).map fun d => (negative, d, e - part.length)

/-- The binary number of a spelling. -/
def float? (s : Text) : Option Binary64 :=
  let unsigned? := match s with
    | '+' :: '+' :: _ => none
    | '+' :: '-' :: _ => none
    | '+' :: r => some r
    | r => some r
  unsigned?.bind fun u =>
    if u = ".inf".toList ∨ u = ".Inf".toList ∨ u = ".INF".toList then some (.infinite false)
    else if s = "-.inf".toList ∨ s = "-.Inf".toList ∨ s = "-.INF".toList then
      some (.infinite true)
    else if s = ".nan".toList ∨ s = ".NaN".toList ∨ s = ".NAN".toList then some .nan
    else (decimal? u).bind fun p =>
      match Binary64.ofDecimal p.1 p.2.1 p.2.2 with
      | .infinite _ => none
      | x => some x

/-- The meaning of an integer, by its size. Beyond 128 bits it is none. -/
def ofInteger? (n : Int) : Option Meaning :=
  if -(Nat.pow 2 63) ≤ n ∧ n < Nat.pow 2 64 then some (.integer n)
  else if -(Nat.pow 2 127) ≤ n ∧ n < Nat.pow 2 128 then some .tooLarge
  else none

/-- The meaning of a plain scalar. -/
def ofPlain (s : Text) : Meaning :=
  if s = [] ∨ isNull s then .null
  else
    match bool? s with
    | some b => .bool b
    | none =>
      match (integer? s).bind ofInteger? with
      | some m => m
      | none =>
        if isZeroPadded s then .text
        else
          match float? s with
          | some x => .float x
          | none => .text

end Meaning

end Yaml

end ModuleDocs

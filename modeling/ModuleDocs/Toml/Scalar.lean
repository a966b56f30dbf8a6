import ModuleDocs.Toml.Value
import ModuleDocs.Text.Hit
import ModuleDocs.Text.Numeral

/-!
# TOML scalars

Strings come in two kinds, with and without escapes, each on one line or on
several. Every other scalar is an *atom*, a run of characters up to a delimiter,
and has to be a truth value, a number, or a date and time as a whole.
-/

namespace ModuleDocs

namespace Toml

/-! ## Strings -/

/-- Whether a character may stand in a string or a comment. -/
def isAllowed (c : Char) : Bool :=
  c == '\t' || (0x20 ≤ c.toNat && c.toNat != 0x7F)

/-- The characters that a backslash and one more stand for. -/
def shortEscapes : List (Char × Char) := [
  ('b', Char.ofNat 8), ('t', '\t'), ('n', '\n'), ('f', Char.ofNat 12), ('r', '\r'),
  ('e', Char.ofNat 27), ('"', '"'), ('\\', '\\')]

/-- Reads an escape behind its backslash: the character, and how many characters
were read. -/
def escape? : Text → Option (Char × Nat)
  | [] => none
  | x :: r =>
    match shortEscapes.lookup x with
    | some c => some (c, 1)
    | none =>
      match [('x', 2), ('u', 4), ('U', 8)].lookup x with
      | some digits => do
        pure (← Text.scalarChar? (← Text.hexNumber? digits r), 1 + digits)
      | none => none

/-- Reads a string with escapes on one line, behind its opening quote, once `skip`
characters are passed. -/
def basic? : Nat → Text → Option (Text × Text)
  | _, [] => none
  | skip + 1, _ :: r => basic? skip r
  | 0, c :: r =>
    if c = '"' then some ([], r)
    else if c = '\\' then do
      let (x, n) ← escape? r
      let (s, rest) ← basic? n r
      pure (x :: s, rest)
    else if isAllowed c then (basic? 0 r).map fun p => (c :: p.1, p.2)
    else none

/-- Reads a string without escapes on one line, behind its opening quote. -/
def literal? : Text → Option (Text × Text)
  | [] => none
  | c :: r =>
    if c = '\'' then some ([], r)
    else if isAllowed c then (literal? r).map fun p => (c :: p.1, p.2)
    else none

/-- The end of a string of several lines: three quotes, which up to two more may
precede. Gives the quotes that belong to the string, and the rest. -/
def closing? (quote : Char) (s : Text) : Option (Text × Text) :=
  let n := (s.takeWhile (· == quote)).length
  if 3 ≤ n ∧ n ≤ 5 then some (List.replicate (n - 3) quote, s.drop n) else none

/-- Whether nothing but blanks stands before the end of the line. -/
def restIsBlank (s : Text) : Bool :=
  match s.dropWhile fun c => c == ' ' || c == '\t' with
  | '\n' :: _ => true
  | '\r' :: '\n' :: _ => true
  | _ => false

/-- How a string of several lines goes on. -/
inductive Lead where
  | text
  /-- A number of characters have been read. -/
  | passed (n : Nat)
  /-- White space up to the next character that is none does not count. -/
  | gap
  deriving DecidableEq

/-- Reads a string with escapes on several lines, behind its opening quotes. -/
def multiBasic? : Lead → Text → Option (Text × Text)
  | _, [] => none
  | .passed (n + 1), _ :: r => multiBasic? (.passed n) r
  | lead, c :: r =>
    let inGap := lead == .gap
    if c = '\n' then
      (multiBasic? (if inGap then .gap else .text) r).map fun p =>
        if inGap then p else ('\n' :: p.1, p.2)
    else if c = '\r' ∧ r.head? = some '\n' then multiBasic? lead r
    else if inGap ∧ (c = ' ' ∨ c = '\t') then multiBasic? .gap r
    else if c = '"' ∧ 3 ≤ ((c :: r).takeWhile (· == '"')).length then closing? '"' (c :: r)
    else if c = '\\' then
      if restIsBlank r then multiBasic? .gap r
      else do
        let (x, n) ← escape? r
        let (s, rest) ← multiBasic? (.passed n) r
        pure (x :: s, rest)
    else if isAllowed c then (multiBasic? .text r).map fun p => (c :: p.1, p.2)
    else none

/-- Reads a string without escapes on several lines, behind its opening quotes. -/
def multiLiteral? : Text → Option (Text × Text)
  | [] => none
  | c :: r =>
    if c = '\r' ∧ r.head? = some '\n' then multiLiteral? r
    else if c = '\'' ∧ 3 ≤ ((c :: r).takeWhile (· == '\'')).length then closing? '\'' (c :: r)
    else if isAllowed c || c == '\n' then (multiLiteral? r).map fun p => (c :: p.1, p.2)
    else none

/-- Drops a line end at the front. -/
def afterNewline (s : Text) : Text :=
  match s with
  | '\n' :: r => r
  | '\r' :: '\n' :: r => r
  | s => s

/-- Reads a string on one line. -/
def line? (s : Text) : Option (Text × Text) :=
  match s with
  | '"' :: r => basic? 0 r
  | '\'' :: r => literal? r
  | _ => none

/-- Reads a string of either kind. -/
def string? (s : Text) : Option (Text × Text) :=
  match s with
  | '"' :: '"' :: '"' :: r => multiBasic? .text (afterNewline r)
  | '\'' :: '\'' :: '\'' :: r => multiLiteral? (afterNewline r)
  | s => line? s

/-! ## Numbers -/

/-- Drops underscores, each of which has to stand between two digits. -/
def withoutUnderscores? (s : Text) : Option Text :=
  let parts := s.splitOn '_'
  if parts.any List.isEmpty then none else some parts.flatten

/-- The number of digits with underscores. -/
def number? (base : Nat) (s : Text) : Option Nat :=
  (withoutUnderscores? s).bind (Text.digits? base)

/-- A decimal number, which does not start with a zero unless it is one. -/
def decimal? (s : Text) : Option Nat :=
  if s.head? = some '0' ∧ 1 < s.length then none else number? 10 s

/-- Splits a sign from the front; true for a minus. -/
def sign (s : Text) : Bool × Text :=
  match s with
  | '-' :: r => (true, r)
  | '+' :: r => (false, r)
  | s => (false, s)

/-- The integer of an atom. -/
def integer? (s : Text) : Option Int :=
  match s with
  | '0' :: 'x' :: r => (number? 16 r).map Int.ofNat
  | '0' :: 'o' :: r => (number? 8 r).map Int.ofNat
  | '0' :: 'b' :: r => (number? 2 r).map Int.ofNat
  | s =>
    let (negative, s) := sign s
    (decimal? s).map fun n => if negative then -(n : Int) else n

/-- The binary number of an atom. -/
def float? (s : Text) : Option Binary64 :=
  let (negative, s) := sign s
  if s = "inf".toList then some (.infinite negative)
  else if s = "nan".toList then some .nan
  else do
    let (mantissa, exponent) := s.span fun c => c != 'e' && c != 'E'
    let (whole, part) := mantissa.span (· != '.')
    guard (part ≠ [] ∨ exponent ≠ [])
    let _ ← decimal? whole
    let part ← if part = [] then pure [] else
      (number? 10 (part.drop 1)).bind fun _ => withoutUnderscores? (part.drop 1)
    let e ← match exponent with
      | [] => pure 0
      | _ :: r =>
        let (negative, r) := sign r
        (number? 10 r).map fun n => if negative then -(n : Int) else (n : Int)
    let digits ← Text.digits? 10 ((← withoutUnderscores? whole) ++ part)
    match Binary64.ofDecimal negative digits (e - part.length) with
    | .infinite _ => none
    | x => pure x

/-! ## Dates and times -/

/-- The number of exactly `n` digits at the front, and the rest. -/
def digitsOf? (n : Nat) (s : Text) : Option (Nat × Text) :=
  if n ≤ s.length ∧ (s.take n).all Char.isDigit then
    (Text.digits? 10 (s.take n)).map fun v => (v, s.drop n)
  else none

/-- How many days a month has. -/
def daysIn (year month : Nat) : Nat :=
  if month = 2 then
    if year % 4 = 0 ∧ (year % 100 ≠ 0 ∨ year % 400 = 0) then 29 else 28
  else if month = 4 ∨ month = 6 ∨ month = 9 ∨ month = 11 then 30
  else 31

/-- Reads a date and gives the rest. -/
def date? (s : Text) : Option Text := do
  let (year, s) ← digitsOf? 4 s
  let (month, s) ← digitsOf? 2 (← Text.after? ['-'] s)
  let (day, s) ← digitsOf? 2 (← Text.after? ['-'] s)
  guard (1 ≤ month ∧ month ≤ 12 ∧ 1 ≤ day ∧ day ≤ daysIn year month)
  pure s

/-- Reads a time, which may leave out its seconds, and gives the rest. -/
def time? (s : Text) : Option Text := do
  let (hour, s) ← digitsOf? 2 s
  let (minute, s) ← digitsOf? 2 (← Text.after? [':'] s)
  guard (hour ≤ 23 ∧ minute ≤ 59)
  match s with
  | ':' :: s =>
    let (second, s) ← digitsOf? 2 s
    guard (second ≤ 60)
    match s with
    | '.' :: s => (Text.run? Char.isDigit s).map Prod.snd
    | s => pure s
  | s => pure s

/-- Whether a text is an offset from universal time. -/
def isOffset (s : Text) : Bool :=
  match s with
  | ['Z'] => true
  | ['z'] => true
  | c :: r =>
    (c == '+' || c == '-') && (do
      let (hour, r) ← digitsOf? 2 r
      let (minute, r) ← digitsOf? 2 (← Text.after? [':'] r)
      guard (hour ≤ 23 ∧ minute ≤ 59 ∧ r = [])).isSome
  | [] => false

/-- Whether an atom is a date, a time, or both with or without an offset. -/
def isDateTime (s : Text) : Bool :=
  time? s == some [] ||
    match date? s with
    | some [] => true
    | some (c :: r) =>
      (c == 'T' || c == 't' || c == ' ') &&
        match time? r with
        | some rest => rest.isEmpty || isOffset rest
        | none => false
    | none => false

/-! ## Atoms -/

/-- The characters that end an atom. -/
def endsAtom (c : Char) : Bool := " \t\r\n,[]\x7b\x7d#='\"".toList.contains c

/-- The value of an atom. Integers are limited to 128 bits. -/
def atomValue? (s : Text) : Option Value :=
  if s = "true".toList then some (.boolean true)
  else if s = "false".toList then some (.boolean false)
  else
    match integer? s with
    | some n => if -(Nat.pow 2 127) ≤ n ∧ n < Nat.pow 2 128 then some (.integer n) else none
    | none =>
      match float? s with
      | some x => some (.float x)
      | none => if isDateTime s then some (.dateTime s) else none

/-- Reads an atom. A date may have its time behind a space. -/
def atom? (s : Text) : Option (Value × Text) :=
  let (first, rest) := s.span fun c => !endsAtom c
  let joined : Option (Text × Text) := do
    guard (date? first = some [])
    let r ← Text.after? [' '] rest
    guard (r.head?.any Char.isDigit)
    let (second, rest) := r.span fun c => !endsAtom c
    pure (first ++ ' ' :: second, rest)
  let (atom, rest) := joined.getD (first, rest)
  (atomValue? atom).map fun v => (v, rest)

end Toml

end ModuleDocs

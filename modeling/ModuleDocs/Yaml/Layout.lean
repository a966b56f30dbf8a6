import ModuleDocs.Yaml.Scalar
import ModuleDocs.Text.Utf8

/-!
# The block layout of YAML values

A value is written in block layout: an entry of a mapping or an item of a
sequence to a line, nested collections indented by two. A sequence that is the
value of a key stands at the indentation of the key; what follows a `-` starts on
its line. Empty collections are `[]` and `{}`.

A text is written in the plainest form that reads back as this text
(`Quoting.ofText`): plain, else in single quotes, else in double quotes with
escapes; a text of several lines as a literal block where one may stand. Lines
are never folded.
-/

namespace ModuleDocs

namespace Yaml

/-- A form in which a text can be written. -/
inductive Quoting where
  | plain
  | single
  | double
  | literal
  deriving DecidableEq, Inhabited

namespace Quoting

/-- The characters that stand for themselves outside double quotes. -/
def isPrintable (c : Char) : Bool :=
  let n := c.toNat
  n == 10 || (0x20 ≤ n && n ≤ 0x7E) || (0xA0 ≤ n && n ≤ 0xD7FF) ||
    (0xE000 ≤ n && n ≤ 0xFFFD && n != 0xFEFF) || 0x10000 ≤ n

/-- Whether some character of the first class is directly followed by one of the
second. -/
def hasPair (p q : Char → Bool) : Text → Bool
  | c :: d :: r => (p c && q d) || hasPair p q (d :: r)
  | _ => false

/-- The characters that make the start of a plain text something else. -/
def isOpening (c : Char) : Bool := "#,[]\x7b\x7d&*!|>'\"%@\x60".toList.contains c

/-- Whether the front of a text would be read as markup. -/
def opensMarkup : Text → Bool
  | [] => false
  | c :: r =>
    isOpening c || ((c == '?' || c == ':' || c == '-') && atGap r) ||
      "---".toList.isPrefixOf (c :: r) || "...".toList.isPrefixOf (c :: r)

/-- Whether markup would be read behind the first character: a colon before a
gap, or a comment sign behind one. -/
def holdsMarkup : Text → Bool
  | c :: d :: r =>
    (d == ':' && atGap r) || (d == '#' && atGap [c]) || holdsMarkup (d :: r)
  | _ => false

/-- Whether a space stands directly before a line break. -/
def hasSpaceBeforeBreak (s : Text) : Bool := hasPair (· == ' ') isBreak s

/-- Whether a space stands directly behind a line break. -/
def hasSpaceAfterBreak (s : Text) : Bool := hasPair isBreak (· == ' ') s

/-- Whether a text may stand plain in a block. -/
def allowsPlain (s : Text) : Bool :=
  s.all isPrintable && !s.any isBreak && !(s.head? == some ' ') && !(s.getLast? == some ' ') &&
    !opensMarkup s && !holdsMarkup s

/-- Whether a text may stand in single quotes. -/
def allowsSingle (s : Text) : Bool :=
  s.all isPrintable && !hasSpaceBeforeBreak s && !hasSpaceAfterBreak s

/-- Whether a text may stand as a literal block. -/
def allowsLiteral (s : Text) : Bool :=
  s.all isPrintable && !hasSpaceBeforeBreak s && !(s.getLast? == some ' ') && s != []

/-- Whether a plain text would be read as something other than a text. -/
def isAmbiguous (s : Text) : Bool :=
  Meaning.isZeroPadded s ||
    match Meaning.ofPlain s with
    | .text => false
    | _ => true

/-- The form of a text; a key does not stand as a block. -/
def ofText (isKey : Bool) (s : Text) : Quoting :=
  if s.contains '\n' then if allowsLiteral s && !isKey then literal else double
  else if !isAmbiguous s && allowsPlain s then plain
  else if allowsSingle s then single
  else double

end Quoting

namespace Layout

/-- A line break that is not a line feed ends a line; the next starts with
spaces. -/
def indentBreaks (indent : Nat) : Bool → Text → Text
  | pending, [] => if pending then List.replicate indent ' ' else []
  | pending, c :: r =>
    if isBreak c then c :: indentBreaks indent true r
    else if pending then List.replicate indent ' ' ++ c :: indentBreaks indent false r
    else c :: indentBreaks indent false r

/-- A text in single quotes; a quote in it is doubled. -/
def singleQuoted (indent : Nat) (s : Text) : Text :=
  '\'' :: indentBreaks indent false (s.flatMap fun c => if c = '\'' then [c, c] else [c]) ++ ['\'']

/-- An upper case hexadecimal numeral of a given width. -/
def hexText (width n : Nat) : Text :=
  let digits := (Nat.toDigits 16 n).map Char.toUpper
  List.replicate (width - digits.length) '0' ++ digits

/-- A character between double quotes. -/
def escape (c : Char) : Text :=
  if Quoting.isPrintable c && !isBreak c && c != '"' && c != '\\' then [c]
  else
    let n := c.toNat
    match [(0, '0'), (7, 'a'), (8, 'b'), (9, 't'), (10, 'n'), (11, 'v'), (12, 'f'), (13, 'r'),
        (27, 'e'), (34, '"'), (92, '\\'), (0x85, 'N'), (0x2028, 'L'), (0x2029, 'P')].lookup n with
    | some e => ['\\', e]
    | none =>
      if n < 0x100 then '\\' :: 'x' :: hexText 2 n
      else if n < 0x10000 then '\\' :: 'u' :: hexText 4 n
      else '\\' :: 'U' :: hexText 8 n

/-- A text in double quotes. -/
def doubleQuoted (s : Text) : Text := '"' :: s.flatMap escape ++ ['"']

/-- The header of a literal block. It gives the indentation if the text does not
start with a character that shows it, and says what follows the last line: no
line break (`-`), several (`+`), or one. -/
def literalHeader (s : Text) : Text :=
  let shift : Text := match s with
    | c :: _ => if c = ' ' ∨ isBreak c then ['2'] else []
    | [] => []
  let ending : Text := match s.reverse with
    | [] => ['-']
    | c :: r =>
      if !isBreak c then ['-']
      else
        match r with
        | [] => ['+']
        | d :: _ => if isBreak d then ['+'] else []
  '|' :: shift ++ ending

/-- The lines of a literal block; an empty line is not indented. -/
def literalLines (indent : Nat) : Bool → Text → Text
  | pending, [] => if pending then [] else ['\n']
  | pending, c :: r =>
    if isBreak c then c :: literalLines indent true r
    else if pending then List.replicate indent ' ' ++ c :: literalLines indent false r
    else c :: literalLines indent false r

/-- A text up to the end of its line, inside a collection indented by `indent`. -/
def textLine (indent : Nat) (s : Text) : Text :=
  match Quoting.ofText false s with
  | .plain => s ++ ['\n']
  | .single => singleQuoted (indent + 2) s ++ ['\n']
  | .double => doubleQuoted s ++ ['\n']
  | .literal => literalHeader s ++ '\n' :: literalLines (indent + 2) true s

/-- A text that is a key on one line. -/
def textKey (s : Text) : Text :=
  match Quoting.ofText true s with
  | .plain => s
  | .single => singleQuoted 0 s
  | _ => doubleQuoted s

/-- The numerals of the format: exponents have neither a plus sign nor padding. -/
def numerals : NumeralStyle := ⟨[], 1⟩

/-- A number. -/
def numberText : Number → Text
  | .integer n => if n < 0 then '-' :: Text.ofNat n.natAbs else Text.ofNat n.natAbs
  | .float (.finite negative m q) => numerals.finiteText negative m q
  | .float (.infinite negative) => if negative then "-.inf".toList else ".inf".toList
  | .float .nan => ".nan".toList

/-- The characters of a tag that need no escape. -/
def isTagChar (c : Char) : Bool := c.isAlphanum || "-_;/?:@&=+$,.~*'()[]".toList.contains c

/-- A tag; other characters are escaped byte by byte. -/
def tagText (t : Text) : Text :=
  '!' :: t.flatMap fun c =>
    if isTagChar c then [c]
    else (Text.encode [c]).toList.flatMap fun b => '%' :: hexText 2 b.toNat

/-- The text of a key that fits before its colon: a scalar on one line or an
empty collection, of at most 128 bytes. -/
def shortKey? : Value → Option Text
  | .null => some "null".toList
  | .bool b => some (if b then "true".toList else "false".toList)
  | .number n => some (numberText n)
  | .string s => if s.any isBreak || 128 < Text.byteLength s then none else some (textKey s)
  | .sequence [] => some "[]".toList
  | .mapping [] => some "\x7b\x7d".toList
  | .tagged t v =>
    match v with
    | .string s =>
      if s.any isBreak || 128 < Text.byteLength s + Text.byteLength t + 1 then none
      else some (tagText t ++ ' ' :: textKey s)
    | v => (shortKey? v).map fun k => tagText t ++ ' ' :: k
  | _ => none

/-- Where a value stands. -/
structure Place where
  /-- It is part of a mapping entry, not a sequence item. -/
  inEntry : Bool
  /-- A collection starts on the line of what introduces it. -/
  sameLine : Bool

/-- Behind a key and its colon. -/
def afterKey : Place := ⟨true, false⟩

/-- Behind the `-` of an item. -/
def afterDash : Place := ⟨false, true⟩

/-- Behind the `?` of a long key, or the `:` of its value. -/
def afterMark : Place := ⟨true, true⟩

/-- The indentation of a sequence inside a collection indented by `indent`. -/
def Place.sequenceIndent (p : Place) (indent : Nat) : Nat :=
  if p.inEntry && !p.sameLine then indent else indent + 2

/-- What leads from the introducer to the first line of a collection. -/
def Place.lead (p : Place) (indent : Nat) : Text :=
  if p.sameLine then [' '] else '\n' :: List.replicate indent ' '

/-- Lines at an indentation; what leads to the first is written before. -/
def stacked (indent : Nat) (parts : List Text) : Text :=
  List.intercalate (List.replicate indent ' ') parts

mutual

/-- A value behind what introduces it, up to the end of its last line. -/
def value (indent : Nat) (place : Place) : Value → Text
  | .null => " null\n".toList
  | .bool b => if b then " true\n".toList else " false\n".toList
  | .number n => ' ' :: numberText n ++ ['\n']
  | .string s => ' ' :: textLine indent s
  | .sequence [] => " []\n".toList
  | .sequence (v :: r) =>
    let inner := place.sequenceIndent indent
    place.lead inner ++ stacked inner (items inner (v :: r))
  | .mapping [] => " \x7b\x7d\n".toList
  | .mapping (e :: r) =>
    place.lead (indent + 2) ++ stacked (indent + 2) (entries (indent + 2) (e :: r))
  | .tagged t v => ' ' :: tagText t ++ value indent ⟨place.inEntry, false⟩ v

/-- The items of a sequence, each with its dash. -/
def items (indent : Nat) : List Value → List Text
  | [] => []
  | v :: r => ('-' :: value indent afterDash v) :: items indent r

/-- The entries of a mapping. -/
def entries (indent : Nat) : List (Value × Value) → List Text
  | [] => []
  | (k, v) :: r =>
    (match shortKey? k with
      | some key => key ++ ':' :: value indent afterKey v
      | none =>
        '?' :: value indent afterMark k ++ List.replicate indent ' ' ++
          ':' :: value indent afterMark v) :: entries indent r

end

end Layout

namespace Value

/-- The document that holds a mapping of these entries. -/
def document (entries : List (Value × Value)) : Text :=
  match entries with
  | [] => "\x7b\x7d\n".toList
  | entries => Layout.stacked 0 (Layout.entries 0 entries)

end Value

end Yaml

end ModuleDocs

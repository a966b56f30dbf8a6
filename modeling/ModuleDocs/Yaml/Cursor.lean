import ModuleDocs.Text.Basic

/-!
# A position in a YAML text

A cursor is the text that is left and where it stands. Columns matter in YAML,
and so does the length of what may be a key; both are counted in characters.
-/

namespace ModuleDocs

namespace Yaml

/-- The text that is left, with its position. -/
structure Cursor where
  rest : Text
  index : Nat := 0
  line : Nat := 0
  column : Nat := 0

/-- Line breaks: carriage return, line feed, next line, line and paragraph
separators. -/
def isBreak (c : Char) : Bool :=
  c == '\r' || c == '\n' || c.toNat == 0x85 || c.toNat == 0x2028 || c.toNat == 0x2029

/-- Blanks: the space and the tab. -/
def isBlank (c : Char) : Bool := c == ' ' || c == '\t'

/-- The characters of names: ASCII letters and digits, `_` and `-`. -/
def isNameChar (c : Char) : Bool := c.isAlphanum || c == '_' || c == '-'

/-- The characters a YAML text may hold. -/
def isAllowed (c : Char) : Bool :=
  let n := c.toNat
  n == 9 || n == 10 || n == 13 || (0x20 ≤ n && n ≤ 0x7E) || n == 0x85 ||
    (0xA0 ≤ n && n ≤ 0xD7FF) || (0xE000 ≤ n && n ≤ 0xFFFD) || 0x10000 ≤ n

/-- Whether a text is at its end, or at a blank or a break. -/
def atGap : Text → Bool
  | [] => true
  | c :: _ => isBlank c || isBreak c

/-- Whether a text is at its end or at a break. -/
def atLineEnd : Text → Bool
  | [] => true
  | c :: _ => isBreak c

namespace Cursor

/-- Moves over one character of a line. -/
def skip (c : Cursor) : Cursor :=
  { c with rest := c.rest.tail, index := c.index + 1, column := c.column + 1 }

/-- Moves over `n` characters of a line. -/
def skipMany (c : Cursor) (n : Nat) : Cursor :=
  { c with rest := c.rest.drop n, index := c.index + n, column := c.column + n }

/-- Moves over a line break, if there is one, and gives it as it is kept in a
scalar: as a line feed, unless it is a separator. -/
def takeBreak (c : Cursor) : Text × Cursor :=
  match c.rest with
  | '\r' :: '\n' :: r =>
    (['\n'], { rest := r, index := c.index + 2, line := c.line + 1, column := 0 })
  | b :: r =>
    if isBreak b then
      (if b.toNat == 0x2028 || b.toNat == 0x2029 then [b] else ['\n'],
        { rest := r, index := c.index + 1, line := c.line + 1, column := 0 })
    else ([], c)
  | [] => ([], c)

/-- Moves over characters of a line as long as they are in a class. -/
def takeWhile (p : Char → Bool) (c : Cursor) : Text × Cursor :=
  let read := c.rest.takeWhile p
  (read, c.skipMany read.length)

/-- Moves over a comment, if there is one, to the end of its line. -/
def skipComment (c : Cursor) : Cursor :=
  if c.rest.head? = some '#' then (c.takeWhile fun x => !isBreak x).2 else c

/-- Whether the cursor is at `---` or `...` at the start of a line, with a gap
behind it. -/
def atDocumentMark (c : Cursor) : Bool :=
  c.column == 0 &&
    match c.rest with
    | '-' :: '-' :: '-' :: r => atGap r
    | '.' :: '.' :: '.' :: r => atGap r
    | _ => false

end Cursor

end Yaml

end ModuleDocs

import ModuleDocs.Yaml.Cursor
import ModuleDocs.Text.Numeral

/-!
# The text of scalars

A scalar is written plain, in quotes, or as a block. This module reads one from
a cursor at its first character, and gives its text with line breaks folded:
a single break between two lines of a plain or quoted scalar counts as a space,
further ones are kept.

Loops over lines are bounded by the length of the text, which every round
shortens.
-/

namespace ModuleDocs

namespace Yaml

/-! ## Gaps between the lines of a scalar -/

/-- White space inside a plain or quoted scalar. -/
structure Gap where
  /-- Blanks, when there is no break. -/
  blanks : Text := []
  firstBreak : Text := []
  moreBreaks : Text := []
  broken : Bool := false

namespace Gap

/-- What a gap contributes to the scalar. -/
def folded (g : Gap) : Text :=
  if g.broken then
    if g.firstBreak = ['\n'] then (if g.moreBreaks = [] then [' '] else g.moreBreaks)
    else g.firstBreak ++ g.moreBreaks
  else g.blanks

/-- Reads a gap. In a block, a tab may not stand left of `indent` on a line of
its own. -/
def read (indent : Option Int) : Nat → Gap → Cursor → Option (Gap × Cursor)
  | 0, g, c => some (g, c)
  | fuel + 1, g, c =>
    match c.rest with
    | [] => some (g, c)
    | x :: _ =>
      if isBlank x then
        if g.broken then
          if x = '\t' ∧ indent.any (fun i => (c.column : Int) < i) then none
          else read indent fuel g c.skip
        else read indent fuel { g with blanks := g.blanks ++ [x] } c.skip
      else if isBreak x then
        let (b, c) := c.takeBreak
        if g.broken then read indent fuel { g with moreBreaks := g.moreBreaks ++ b } c
        else read indent fuel { g with blanks := [], firstBreak := b, broken := true } c
      else some (g, c)

end Gap

/-! ## Plain scalars -/

/-- The characters that end a plain scalar inside brackets. -/
def isFlowIndicator (c : Char) : Bool :=
  c == ',' || c == '[' || c == ']' || c == '{' || c == '}'

/-- Reads the part of a plain scalar up to the next gap or its end. Inside
brackets a colon may not be followed by an indicator. -/
def plainPart (inFlow : Bool) : Text → Option Text
  | [] => some []
  | x :: r =>
    if isBlank x || isBreak x then some []
    else if inFlow && x == ':' && r.head?.any fun y => isFlowIndicator y || y == '?' then none
    else if (x == ':' && atGap r) || (inFlow && isFlowIndicator x) then some []
    else (plainPart inFlow r).map (x :: ·)

/-- Reads a plain scalar: its text, whether a line ended behind it, and the
cursor. -/
def plainScalar (inFlow : Bool) (indent : Int) :
    Nat → Gap → Cursor → Option (Text × Bool × Cursor)
  | 0, g, c => some ([], g.broken, c)
  | fuel + 1, g, c =>
    if c.atDocumentMark || c.rest.head? == some '#' then some ([], g.broken, c)
    else do
      let part ← plainPart inFlow c.rest
      let c := c.skipMany part.length
      let lead := if part = [] then [] else g.folded
      let before := if part = [] then g else {}
      match c.rest with
      | [] => pure (lead ++ part, before.broken, c)
      | x :: _ =>
        if isBlank x || isBreak x then
          let (gap, c) ← Gap.read (some indent) (c.rest.length + 1) before c
          if !inFlow && c.column < indent then pure (lead ++ part, gap.broken, c)
          else
            let (more, broken, c) ← plainScalar inFlow indent fuel gap c
            pure (lead ++ part ++ more, broken, c)
        else pure (lead ++ part, before.broken, c)

/-! ## Quoted scalars -/

/-- The characters that a backslash and one more stand for. -/
def shortEscapes : List (Char × Nat) := [
  ('0', 0), ('a', 7), ('b', 8), ('t', 9), ('\t', 9), ('n', 10), ('v', 11), ('f', 12),
  ('r', 13), ('e', 27), (' ', 32), ('"', 34), ('/', 47), ('\\', 92), ('N', 0x85),
  ('_', 0xA0), ('L', 0x2028), ('P', 0x2029)]

/-- Reads an escape behind its backslash: the character, and how many characters
were read. -/
def escape? : Text → Option (Char × Nat)
  | [] => none
  | x :: r =>
    match shortEscapes.lookup x with
    | some n => some (Char.ofNat n, 1)
    | none =>
      let digits := if x = 'x' then 2 else if x = 'u' then 4 else if x = 'U' then 8 else 0
      if digits = 0 then none
      else do pure (← Text.scalarChar? (← Text.hexNumber? digits r), 1 + digits)

/-- Reads a quoted scalar up to the next gap, the closing quote or an escaped
line break; says whether it was the last. -/
def quotedPart (single : Bool) : Nat → Cursor → Option (Text × Bool × Cursor)
  | 0, _ => none
  | fuel + 1, c =>
    match c.rest with
    | [] => some ([], false, c)
    | x :: r =>
      if isBlank x || isBreak x then some ([], false, c)
      else if single && x == '\'' then
        match r with
        | '\'' :: _ => do
          let (s, e, c) ← quotedPart single fuel (c.skipMany 2)
          pure ('\'' :: s, e, c)
        | _ => some ([], false, c)
      else if !single && x == '"' then some ([], false, c)
      else if !single && x == '\\' then
        if r.head?.any isBreak then some ([], true, c.skip.takeBreak.2)
        else do
          let (y, n) ← escape? r
          let (s, e, c) ← quotedPart single fuel (c.skipMany (n + 1))
          pure (y :: s, e, c)
      else do
        let (s, e, c) ← quotedPart single fuel c.skip
        pure (x :: s, e, c)

/-- Reads a quoted scalar behind its opening quote, and the closing quote. -/
def quotedScalar (single : Bool) : Nat → Cursor → Option (Text × Cursor)
  | 0, _ => none
  | fuel + 1, c =>
    if c.atDocumentMark || c.rest.isEmpty then none
    else do
      let (part, escapedBreak, c) ← quotedPart single (c.rest.length + 1) c
      if c.rest.head? = some (if single then '\'' else '"') then pure (part, c.skip)
      else
        let (gap, c) ← Gap.read none (c.rest.length + 1) { broken := escapedBreak } c
        let (more, c) ← quotedScalar single fuel c
        pure (part ++ gap.folded ++ more, c)

/-! ## Block scalars -/

/-- What happens to the line breaks at the end of a block. -/
inductive Chomping where
  | strip
  | clip
  | keep
  deriving DecidableEq

/-- Reads the header of a block behind its `|` or `>`: the chomping and the
indentation, if given. -/
def blockHeader? (c : Cursor) : Option (Chomping × Option Nat × Cursor) :=
  let chomp (c : Cursor) : Option (Chomping × Cursor) :=
    match c.rest with
    | '+' :: _ => some (.keep, c.skip)
    | '-' :: _ => some (.strip, c.skip)
    | _ => none
  let digit (c : Cursor) : Option (Option Nat × Cursor) :=
    match c.rest with
    | d :: _ =>
      if d = '0' then none
      else if d.isDigit then some (some (d.toNat - '0'.toNat), c.skip)
      else some (none, c)
    | [] => some (none, c)
  match chomp c with
  | some (k, c) => (digit c).map fun p => (k, p.1, p.2)
  | none => (digit c).map fun p =>
    match p.1, chomp p.2 with
    | some n, some (k, c) => (k, some n, c)
    | n, _ => (.clip, n, p.2)

/-- Reads the empty lines in front of a line of a block, and the indentation of
that line as far as `indent`; without one, any spaces. Gives the breaks and the
largest column met. -/
def blockBreaks (indent : Option Nat) : Nat → Nat → Cursor → Option (Text × Nat × Cursor)
  | 0, widest, c => some ([], widest, c)
  | fuel + 1, widest, c =>
    let limit := indent.map fun i => i - c.column
    let spaces := (c.rest.takeWhile (· == ' ')).length
    let c := c.skipMany (match limit with | some l => min l spaces | none => spaces)
    let widest := max widest c.column
    match c.rest with
    | [] => some ([], widest, c)
    | x :: _ =>
      if x = '\t' ∧ indent.all fun i => c.column < i then none
      else if isBreak x then do
        let (b, c) := c.takeBreak
        let (more, widest, c) ← blockBreaks indent fuel widest c
        pure (b ++ more, widest, c)
      else some ([], widest, c)

/-- Reads the lines of a block. `last` is the break behind the line before,
`empty` the breaks of empty lines since; `blank` says that the line before was
indented further. -/
def blockLines (literal : Bool) (indent : Nat) :
    Nat → Text → Text → Bool → Cursor → Option (Text × Text × Text × Cursor)
  | 0, _, _, _, _ => none
  | fuel + 1, last, empty, blank, c =>
    if c.column ≠ indent ∨ c.rest = [] then some ([], last, empty, c)
    else do
      let blankHere := c.rest.head?.any isBlank
      let joint :=
        if !literal && last == ['\n'] && !blank && !blankHere then
          (if empty = [] then [' '] else empty)
        else last ++ empty
      let (line, c) := c.takeWhile fun x => !isBreak x
      let (last, c) := c.takeBreak
      let (empty, _, c) ← blockBreaks (some indent) (c.rest.length + 1) 0 c
      let (more, last, empty, c) ← blockLines literal indent fuel last empty blankHere c
      pure (joint ++ line ++ more, last, empty, c)

/-- Reads a block scalar behind its `|` or `>`. `parent` is the indentation
around it. -/
def blockScalar (literal : Bool) (parent : Int) (c : Cursor) : Option (Text × Cursor) := do
  let (chomping, increment, c) ← blockHeader? c
  let c := (c.takeWhile isBlank).2.skipComment
  if !atLineEnd c.rest then none
  else
    let c := c.takeBreak.2
    let given := increment.map fun n => if 0 ≤ parent then parent.toNat + n else n
    let (empty, widest, c) ← blockBreaks given (c.rest.length + 1) 0 c
    let indent := given.getD (max widest (max (parent + 1).toNat 1))
    let (body, last, empty, c) ←
      blockLines literal indent (c.rest.length + 1) [] empty false c
    match chomping with
    | .strip => pure (body, c)
    | .clip => pure (body ++ last, c)
    | .keep => pure (body ++ last ++ empty, c)

end Yaml

end ModuleDocs

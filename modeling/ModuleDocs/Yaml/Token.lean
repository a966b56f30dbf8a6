import ModuleDocs.Yaml.ScalarText

/-!
# YAML tokens

A YAML text is first cut into tokens. Indentation is made explicit: where a
line is indented further than the block around it a start token is put in, and
where it is indented less, end tokens.

What is a key shows only at the `:` behind it. A *possible key* therefore
remembers its place among the tokens; when the colon comes, the key token is put
in there. A possible key ends with its line, and after 1024 characters. In a
block, one that stands at the current indentation has to turn out to be a key.
-/

namespace ModuleDocs

namespace Yaml

/-- How a scalar was written, as far as its meaning hangs on it. -/
inductive ScalarStyle where
  | plain
  | literal
  | other
  deriving DecidableEq, Inhabited

/-- A token of a YAML text. -/
inductive Token where
  | versionDirective (major minor : Nat)
  | tagDirective (handle lead : Text)
  | documentStart
  | documentEnd
  | blockSequenceStart
  | blockMappingStart
  | blockEnd
  | flowSequenceStart
  | flowSequenceEnd
  | flowMappingStart
  | flowMappingEnd
  | blockEntry
  | flowEntry
  | key
  | value
  | alias (name : Text)
  | anchor (name : Text)
  | tag (handle suffix : Text)
  | scalar (style : ScalarStyle) (text : Text)
  deriving DecidableEq, Inhabited

/-- A place that may turn out to be a key. -/
structure PossibleKey where
  /-- It has to be a key. -/
  required : Bool
  /-- Number of tokens in front of it. -/
  place : Nat
  index : Nat
  line : Nat
  column : Nat

/-- The state of cutting a text into tokens. -/
structure Lexer where
  cursor : Cursor
  /-- The tokens so far, the last one first. -/
  tokens : List Token := []
  indent : Int := -1
  outerIndents : List Int := []
  /-- Whether a key may start here. -/
  keyAllowed : Bool := true
  /-- The possible key of the block level, below one for each open bracket. -/
  keys : List (Option PossibleKey) := [none]

namespace Lexer

/-- Number of open brackets. -/
def inFlow (s : Lexer) : Bool := 1 < s.keys.length

def push (t : Token) (s : Lexer) : Lexer := { s with tokens := t :: s.tokens }

/-- Puts a token in front of all but the first `place` ones. -/
def insertAt (place : Nat) (t : Token) (s : Lexer) : Lexer :=
  let later := s.tokens.length - place
  { s with tokens := s.tokens.take later ++ t :: s.tokens.drop later }

/-- Forgets the possible key of the current level; a required one may not be
forgotten. -/
def dropKey (s : Lexer) : Option Lexer :=
  match s.keys with
  | some k :: r => if k.required then none else some { s with keys := none :: r }
  | _ => some s

/-- Remembers the current place as a possible key, if one may start here. -/
def saveKey (s : Lexer) : Option Lexer :=
  if s.keyAllowed then do
    let c := s.cursor
    let s ← s.dropKey
    let key : PossibleKey := {
      required := !s.inFlow && s.indent == c.column
      place := s.tokens.length
      index := c.index
      line := c.line
      column := c.column }
    pure { s with keys := some key :: s.keys.tail }
  else some s

/-- Forgets possible keys on earlier lines and those too far back. -/
def dropStaleKeys (s : Lexer) : Option Lexer := do
  let keys ← s.keys.mapM fun k =>
    match k with
    | some k =>
      if k.line < s.cursor.line ∨ k.index + 1024 < s.cursor.index then
        if k.required then none else some none
      else some (some k)
    | none => some none
  pure { s with keys }

/-- Starts a block at a column, if that is further in than the current one; its
token goes in at `place`, or at the end. -/
def indentTo (column : Nat) (place : Option Nat) (t : Token) (s : Lexer) : Lexer :=
  if !s.inFlow && s.indent < column then
    let s := { s with outerIndents := s.indent :: s.outerIndents, indent := column }
    match place with
    | some p => s.insertAt p t
    | none => s.push t
  else s

/-- Ends the blocks that are further in than a column. -/
def unindentTo (column : Int) (s : Lexer) : Lexer :=
  if s.inFlow then s
  else
    let ended := (s.indent :: s.outerIndents).takeWhile fun i => column < i
    match (s.indent :: s.outerIndents).drop ended.length with
    | i :: outer =>
      { s with
        tokens := List.replicate ended.length .blockEnd ++ s.tokens
        indent := i
        outerIndents := outer }
    | [] => s

/-- Moves over the characters of an indicator and adds its token. -/
def indicator (length : Nat) (t : Token) (s : Lexer) : Lexer :=
  { s with cursor := s.cursor.skipMany length }.push t

/-- Moves to the next token: over blanks, comments and line breaks. A tab
counts as a blank where no key can start. In a block, a new line may start a
key. -/
def toNextToken : Nat → Lexer → Lexer
  | 0, s => s
  | fuel + 1, s =>
    let c := s.cursor
    let c := if c.column = 0 ∧ c.rest.head? = some (Char.ofNat 0xFEFF) then c.skip else c
    let tabs := s.inFlow || !s.keyAllowed
    let c := (c.takeWhile fun x => x == ' ' || (tabs && x == '\t')).2.skipComment
    if c.rest.head?.any isBreak then
      toNextToken fuel { s with
        cursor := c.takeBreak.2
        keyAllowed := s.keyAllowed || !s.inFlow }
    else { s with cursor := c }

/-! ## Single tokens -/

/-- Reads the name of an anchor or an alias behind its `&` or `*`. -/
def name? (c : Cursor) : Option (Text × Cursor) :=
  let (n, c) := c.takeWhile isNameChar
  if n = [] then none
  else if atGap c.rest || c.rest.head?.any fun x => "?:,]\x7d%@\x60".toList.contains x then some (n, c)
  else none

/-- The characters of a tag that stand for themselves. -/
def isTagChar (verbatim : Bool) (c : Char) : Bool :=
  isNameChar c || ";/?:@&=+$.!~*'()".toList.contains c ||
    (verbatim && ",[]".toList.contains c)

/-- Reads the bytes of one character written as `%XX` escapes. -/
def escapedBytes? : Nat → Text → Option (List UInt8 × Text)
  | 0, s => some ([], s)
  | n + 1, '%' :: r => do
    let byte ← Text.hexNumber? 2 r
    let (more, s) ← escapedBytes? n (r.drop 2)
    pure (UInt8.ofNat byte :: more, s)
  | _, _ => none

/-- Number of bytes of a character that starts with the given byte. -/
def widthOf (b : Nat) : Nat :=
  if b < 0x80 then 1
  else if 0xC0 ≤ b ∧ b < 0xE0 then 2
  else if 0xE0 ≤ b ∧ b < 0xF0 then 3
  else if 0xF0 ≤ b ∧ b < 0xF8 then 4
  else 0

/-- The character that UTF-8 bytes encode, given that there are as many as the
first of them asks for. -/
def charOfBytes? : List UInt8 → Option Char
  | [] => none
  | b :: r =>
    if r.all fun x => x.toNat / 64 = 2 then
      let lead := b.toNat % (match r.length with | 0 => 128 | 1 => 32 | 2 => 16 | _ => 8)
      Text.scalarChar? (r.foldl (fun v x => 64 * v + x.toNat % 64) lead)
    else none

/-- Reads the suffix of a tag. -/
def tagSuffix (verbatim : Bool) : Nat → Text → Option (Text × Text)
  | 0, s => some ([], s)
  | fuel + 1, s =>
    match s with
    | [] => some ([], [])
    | x :: r =>
      if x = '%' then do
        let width := widthOf (← Text.hexNumber? 2 r)
        if width = 0 then none
        else
          let (bytes, rest) ← escapedBytes? width s
          let (more, rest) ← tagSuffix verbatim fuel rest
          pure ((← charOfBytes? bytes) :: more, rest)
      else if isTagChar verbatim x then do
        let (more, rest) ← tagSuffix verbatim fuel r
        pure (x :: more, rest)
      else some ([], s)

/-- Reads a suffix that must not be empty, as a move of the cursor. -/
def takeSuffix? (verbatim : Bool) (c : Cursor) : Option (Text × Cursor) := do
  let (suffix, rest) ← tagSuffix verbatim (c.rest.length + 1) c.rest
  if rest.length = c.rest.length then none
  else pure (suffix, c.skipMany (c.rest.length - rest.length))

/-- Reads a tag at its `!`: verbatim, with a handle, or local. -/
def tag? (inFlow : Bool) (c : Cursor) : Option (Token × Cursor) := do
  let (t, c) ← match c.rest with
    | '!' :: '<' :: _ => do
      let (suffix, c) ← takeSuffix? true (c.skipMany 2)
      if c.rest.head? = some '>' then pure (Token.tag [] suffix, c.skip) else none
    | _ =>
      let (n, afterName) := c.skip.takeWhile isNameChar
      match afterName.rest with
      | '!' :: _ => do
        let (suffix, c) ← takeSuffix? false afterName.skip
        pure (Token.tag ('!' :: n ++ ['!']) suffix, c)
      | rest => do
        let (suffix, rest') ← tagSuffix false (rest.length + 1) rest
        let c := afterName.skipMany (rest.length - rest'.length)
        let whole := n ++ suffix
        pure (if whole = [] then Token.tag [] ['!'] else Token.tag ['!'] whole, c)
  if (inFlow && c.rest.head? == some ',') || atGap c.rest then pure (t, c) else none

/-- Reads a decimal number of at most nine digits. -/
def smallNumber? (c : Cursor) : Option (Nat × Cursor) :=
  let (digits, c) := c.takeWhile Char.isDigit
  if digits = [] ∨ 9 < digits.length then none
  else some (digits.foldl (fun n d => 10 * n + (d.toNat - '0'.toNat)) 0, c)

/-- Reads a directive at its `%`, with the rest of its line. -/
def directive? (c : Cursor) : Option (Token × Cursor) := do
  let (n, c) := c.skip.takeWhile isNameChar
  if n = [] ∨ !atGap c.rest then none
  else
    let c := (c.takeWhile isBlank).2
    let (t, c) ←
      if n = "YAML".toList then do
        let (major, c) ← smallNumber? c
        if c.rest.head? = some '.' then
          let (minor, c) ← smallNumber? c.skip
          pure (Token.versionDirective major minor, c)
        else none
      else if n = "TAG".toList then do
        if c.rest.head? ≠ some '!' then none
        else
          let (h, c) := c.skip.takeWhile isNameChar
          let (handle, c) ←
            if c.rest.head? = some '!' then pure ('!' :: h ++ ['!'], c.skip)
            else if h = [] then pure (['!'], c)
            else none
          if c.rest.head?.any isBlank then
            let (lead, c) ← takeSuffix? true (c.takeWhile isBlank).2
            if atGap c.rest then pure (Token.tagDirective handle lead, c) else none
          else none
      else none
    let c := (c.takeWhile isBlank).2.skipComment
    if atLineEnd c.rest then pure (t, c.takeBreak.2) else none

/-- Characters that cannot start a plain scalar. -/
def isIndicator (c : Char) : Bool := "-?:,[]\x7b\x7d#&*!|>'\"%@\x60".toList.contains c

/-- Adds a token that opens a bracket. -/
def openBracket (t : Token) (s : Lexer) : Option Lexer := do
  let s ← s.saveKey
  pure ({ s with keys := none :: s.keys, keyAllowed := true }.indicator 1 t)

/-- Adds a token that closes a bracket. -/
def closeBracket (t : Token) (s : Lexer) : Option Lexer := do
  let s ← s.dropKey
  pure ({ s with
    keys := if s.inFlow then s.keys.tail else s.keys
    keyAllowed := false }.indicator 1 t)

/-- Adds a directive or a document mark: it stands outside of all blocks. -/
def outside (s : Lexer) : Option Lexer := do
  let s ← (s.unindentTo (-1)).dropKey
  pure { s with keyAllowed := false }

/-- Adds the value token behind a key. -/
def colon (s : Lexer) : Option Lexer :=
  match s.keys with
  | some k :: r =>
    let s := s.insertAt k.place .key
    let s := s.indentTo k.column (some k.place) .blockMappingStart
    some ({ s with keys := none :: r, keyAllowed := false }.indicator 1 .value)
  | _ =>
    if s.inFlow then some ({ s with keyAllowed := false }.indicator 1 .value)
    else if s.keyAllowed then
      let s := s.indentTo s.cursor.column none .blockMappingStart
      some ({ s with keyAllowed := true }.indicator 1 .value)
    else none

/-- Adds a scalar that may be a key. -/
def scalarToken (style : ScalarStyle) (read : Cursor → Option (Text × Bool × Cursor))
    (s : Lexer) : Option Lexer := do
  let s ← s.saveKey
  let (text, keyAllowed, cursor) ← read s.cursor
  pure ({ s with cursor, keyAllowed }.push (.scalar style text))

/-- Adds the token at the cursor, which is at neither a gap nor the end. -/
def step (s : Lexer) : Option Lexer :=
  let c := s.cursor
  let gapBehind := atGap c.rest.tail
  match c.rest with
  | [] => some s
  | x :: _ =>
    if c.column = 0 ∧ x = '%' then do
      let s ← s.outside
      let (t, cursor) ← directive? s.cursor
      pure ({ s with cursor }.push t)
    else if c.atDocumentMark then do
      let s ← s.outside
      pure (s.indicator 3 (if x = '-' then .documentStart else .documentEnd))
    else if x = '[' then s.openBracket .flowSequenceStart
    else if x = '{' then s.openBracket .flowMappingStart
    else if x = ']' then s.closeBracket .flowSequenceEnd
    else if x = '}' then s.closeBracket .flowMappingEnd
    else if x = ',' then do
      let s ← s.dropKey
      pure ({ s with keyAllowed := true }.indicator 1 .flowEntry)
    else if x = '-' ∧ gapBehind then do
      if !s.inFlow && !s.keyAllowed then none
      else
        let s ← (s.indentTo c.column none .blockSequenceStart).dropKey
        pure ({ s with keyAllowed := true }.indicator 1 .blockEntry)
    else if x = '?' ∧ (s.inFlow ∨ gapBehind) then do
      if !s.inFlow && !s.keyAllowed then none
      else
        let s ← (s.indentTo c.column none .blockMappingStart).dropKey
        pure ({ s with keyAllowed := !s.inFlow }.indicator 1 .key)
    else if x = ':' ∧ (s.inFlow ∨ gapBehind) then s.colon
    else if x = '*' ∨ x = '&' then do
      let s ← s.saveKey
      let (n, cursor) ← name? s.cursor.skip
      pure ({ s with cursor, keyAllowed := false }.push (if x = '*' then .alias n else .anchor n))
    else if x = '!' then do
      let s ← s.saveKey
      let (t, cursor) ← tag? s.inFlow s.cursor
      pure ({ s with cursor, keyAllowed := false }.push t)
    else if (x = '|' ∨ x = '>') ∧ !s.inFlow then do
      let s ← s.dropKey
      let (text, cursor) ← blockScalar (x = '|') s.indent s.cursor.skip
      pure ({ s with cursor, keyAllowed := true }.push
        (.scalar (if x = '|' then .literal else .other) text))
    else if x = '\'' ∨ x = '"' then
      s.scalarToken .other fun c =>
        (quotedScalar (x = '\'') (c.rest.length + 1) c.skip).map fun p => (p.1, false, p.2)
    else if !(isBlank x || isBreak x || isIndicator x) ∨
        (x = '-' ∧ !c.rest.tail.head?.any isBlank) ∨
        (!s.inFlow ∧ (x = '?' ∨ x = ':') ∧ !gapBehind) then
      s.scalarToken .plain fun c =>
        plainScalar s.inFlow (s.indent + 1) (c.rest.length + 1) {} c
    else none

/-- Cuts the whole text into tokens. -/
def run : Nat → Lexer → Option (List Token)
  | 0, _ => none
  | fuel + 1, s => do
    let s ← (s.toNextToken (s.cursor.rest.length + 1)).dropStaleKeys
    let s := s.unindentTo s.cursor.column
    if s.cursor.rest = [] then
      let s ← (s.unindentTo (-1)).dropKey
      pure s.tokens.reverse
    else run fuel (← s.step)

end Lexer

namespace Token

/-- The tokens of a text, if it can be cut into tokens at all. -/
def ofText? (s : Text) : Option (List Token) :=
  let s := match s with
    | c :: r => if c.toNat = 0xFEFF then r else c :: r
    | [] => []
  if s.all isAllowed then ({ cursor := { rest := s } } : Lexer).run (s.length + 2) else none

end Token

end Yaml

end ModuleDocs

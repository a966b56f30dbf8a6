import ModuleDocs.Text.Hit

/-!
# Blocks and balanced delimiters

A build descriptor is read without a parser for its language; what the library
has to know is where a block ends. `closing?` reads on behind an opening
delimiter to the one that balances it, passing over string literals and comments
whatever they hold. It is a small lexer with one mode per kind of item; an item
that does not end takes the rest of the text with it.
-/

namespace ModuleDocs

namespace Descriptor

/-- What kind of item a position lies in. -/
inductive Mode where
  | code
  | literal
  | lineComment
  | blockComment
  deriving DecidableEq, Repr

/-- Puts a character in front of the text that was passed over. -/
def passing (c : Char) (p : Text × Text) : Text × Text := (c :: p.1, p.2)

/-- Splits a text at the delimiter that closes `nesting + 1` open ones: what
stands before it, and what follows. -/
def closing? (opener closer : Char) : Mode → Nat → Text → Option (Text × Text)
  | _, _, [] => none
  | .literal, n, '\\' :: c :: r =>
    (closing? opener closer .literal n r).map (passing '\\' ∘ passing c)
  | .literal, n, c :: r =>
    (closing? opener closer (if c = '"' then .code else .literal) n r).map (passing c)
  | .lineComment, n, c :: r =>
    (closing? opener closer (if c = '\n' then .code else .lineComment) n r).map (passing c)
  | .blockComment, n, '*' :: '/' :: r =>
    (closing? opener closer .code n r).map (passing '*' ∘ passing '/')
  | .blockComment, n, c :: r => (closing? opener closer .blockComment n r).map (passing c)
  | .code, n, '"' :: r => (closing? opener closer .literal n r).map (passing '"')
  | .code, n, '/' :: '/' :: r =>
    (closing? opener closer .lineComment n r).map (passing '/' ∘ passing '/')
  | .code, n, '/' :: '*' :: r =>
    (closing? opener closer .blockComment n r).map (passing '/' ∘ passing '*')
  | .code, n, c :: r =>
    if c = opener then (closing? opener closer .code (n + 1) r).map (passing c)
    else if c = closer then
      match n with
      | 0 => some ([], r)
      | n + 1 => (closing? opener closer .code n r).map (passing c)
    else (closing? opener closer .code n r).map (passing c)

/-- The text of a braced block whose opening brace has been read, and the text
behind its closing brace. -/
def braced? (s : Text) : Option (Text × Text) := closing? '{' '}' .code 0 s

/-- The text between parentheses whose opening one has been read, and the text
behind the closing one. -/
def parenthesised? (s : Text) : Option (Text × Text) := closing? '(' ')' .code 0 s

/-- A block `keyword { … }`. -/
structure Block where
  /-- Byte offset of the keyword. -/
  start : Nat
  body : Text
  /-- Byte offset behind the closing brace. -/
  stop : Nat

/-- Reads a keyword and the delimiter that opens what it governs. -/
def opener (k : Text) (delimiter : Char) : Recogniser Unit := fun before s => do
  let rest ← Text.keyword? k before s
  pure ((), ← Text.after? [delimiter] rest.trimStart)

/-- The blocks of a keyword. One whose brace is never closed is no block. -/
def blocks (k : Text) (s : Text) : List Block :=
  (Text.hits (opener k '{') s).filterMap fun h =>
    (braced? h.rest).map fun p => ⟨h.start, p.1, h.stop + Text.byteLength p.1 + 1⟩

end Descriptor

end ModuleDocs

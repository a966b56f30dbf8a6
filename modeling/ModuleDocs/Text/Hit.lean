import ModuleDocs.Text.WordChar

/-!
# Finding patterns in a text

A pattern is a recogniser: given the character before the current position and
the text from there on, it answers what it read and the text after it. `hits`
collects the readings from left to right; the search goes on behind each one, so
hits never overlap. Offsets count bytes.
-/

namespace ModuleDocs

/-- Reads something from the front of a text, knowing the character before it. -/
abbrev Recogniser (α : Type) := Option Char → Text → Option (α × Text)

/-- A place where a recogniser read something. -/
structure Hit (α : Type) where
  /-- Byte offset of the first character read. -/
  start : Nat
  /-- Byte offset behind the last character read. -/
  stop : Nat
  value : α
  /-- The text behind the hit. -/
  rest : Text

namespace Hit

/-- The hits in a text at a given offset, once `skip` characters are passed. -/
def collect {α : Type} (r : Recogniser α) : Nat → Option Char → Nat → Text → List (Hit α)
  | _, _, _, [] => []
  | offset, _, skip + 1, c :: s => collect r (offset + c.utf8Size) (some c) skip s
  | offset, before, 0, c :: s =>
    match r before (c :: s) with
    | none => collect r (offset + c.utf8Size) (some c) 0 s
    | some (value, rest) =>
      let read := (c :: s).take ((c :: s).length - rest.length)
      ⟨offset, offset + Text.byteLength read, value, rest⟩ ::
        collect r (offset + c.utf8Size) (some c) (read.length - 1) s

end Hit

namespace Text

/-- The non-overlapping hits of a recogniser, from left to right. -/
def hits {α : Type} (r : Recogniser α) (s : Text) : List (Hit α) := Hit.collect r 0 none 0 s

/-- What the first hit of a recogniser read. -/
def firstHit? {α : Type} (r : Recogniser α) (s : Text) : Option α :=
  (hits r s).head?.map Hit.value

/-! ## Reading from the front -/

/-- Reads `k` where a word can start: not behind a word character. -/
def keyword? (k : Text) (before : Option Char) (s : Text) : Option Text :=
  if before.any isWord then none else after? k s

/-- The longest run of characters of a class, which must not be empty. -/
def run? (p : Char → Bool) (s : Text) : Option (Text × Text) :=
  match s.span p with
  | ([], _) => none
  | (read, rest) => some (read, rest)

/-- A word: the longest run of word characters. -/
def word? (s : Text) : Option (Text × Text) := run? isWord s

/-- White space, at least one character of it. -/
def spaces? (s : Text) : Option Text := (run? isSpace s).map Prod.snd

/-- The content of a non-empty literal whose opening quote has been read, and
the text behind its closing quote. -/
def untilQuote? (s : Text) : Option (Text × Text) := do
  let (content, rest) ← run? (· != '"') s
  pure (content, ← after? ['"'] rest)

end Text

end ModuleDocs

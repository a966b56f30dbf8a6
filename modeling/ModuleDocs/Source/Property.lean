import ModuleDocs.Text.Hit
import ModuleDocs.Text.LetterCase
import ModuleDocs.Text.Sorted

/-!
# Configuration properties in sources

A source file declares a setting in one of two shapes: a constant field assigned
from `AgentInstrumentationConfig.get().getX("key", default)`, or a getter of the
shared experimental settings that reads `config.getX("key", default)` in its
body. Both are recognised by their text alone.

The default of a getter ends at the first closing parenthesis that belongs to
the call: it may hold groups of parentheses, one level deep (`untilCallEnd?`).
-/

namespace ModuleDocs

/-- A setting that a module reads. -/
structure ConfigurationProperty where
  name : Text
  type : Text
  default : Option Text
  deriving DecidableEq, Inhabited

namespace Source

/-! ## Constant fields -/

/-- Reads a constant field that is assigned from the agent settings. The type is
the declared one in lower case. -/
def configField : Recogniser ConfigurationProperty := fun _ s => do
  let (type, rest) ← Text.word? (← Text.after? "private static final ".toList s)
  let (_, rest) ← Text.word? (← Text.after? [' '] rest)
  let rest ← Text.after? " =".toList rest
  let rest ← Text.after? "AgentInstrumentationConfig.get()".toList rest.trimStart
  let (_, rest) ← Text.word? (← Text.after? ".get".toList rest.trimStart)
  let (name, rest) ← Text.untilQuote? (← Text.after? "(\"".toList rest)
  let (value, rest) ← Text.run? (· != ')') (← Text.after? [','] rest)
  let rest ← Text.after? ");".toList rest
  pure (⟨name, type.toLower, some value.trim⟩, rest)

/-- The settings declared by constant fields, from first to last. -/
def configFields (s : Text) : List ConfigurationProperty :=
  (Text.hits configField s).map Hit.value

/-! ## Getters of the experimental settings -/

/-- Splits at the closing parenthesis of a call whose arguments start here.
`inGroup` says that one group is open; a second one may not open in it. -/
def untilCallEnd? (inGroup : Bool) : Text → Option (Text × Text)
  | [] => none
  | c :: r =>
    if c = '(' then
      if inGroup then none else (untilCallEnd? true r).map fun p => (c :: p.1, p.2)
    else if c = ')' then
      if inGroup then (untilCallEnd? false r).map fun p => (c :: p.1, p.2) else some ([], r)
    else (untilCallEnd? inGroup r).map fun p => (c :: p.1, p.2)

/-- Reads the arguments of a settings call behind its key: a comma and a default,
or nothing. -/
def callDefault? (s : Text) : Option (Option Text × Text) :=
  let s := s.trimStart
  match Text.after? [','] s with
  | some arguments => do
    let (value, rest) ← untilCallEnd? false arguments
    if value = [] then none else some (some value.trim, rest)
  | none => (Text.after? [')'] s).map fun rest => (none, rest)

/-- Reads `config.accessor("key", default)` at the front. -/
def settingsCall? (s : Text) : Option ((Text × Text × Option Text) × Text) := do
  let (accessor, rest) ← Text.word? (← Text.after? "config.".toList s)
  let rest ← Text.after? ['('] rest
  let (key, rest) ← Text.untilQuote? (← Text.after? ['"'] rest.trimStart)
  let (value, rest) ← callDefault? rest
  pure ((accessor, key, value), rest)

/-- The first settings call of a body, before any closing brace. -/
def firstSettingsCall? : Text → Option ((Text × Text × Option Text) × Text)
  | [] => none
  | c :: r =>
    match settingsCall? (c :: r) with
    | some found => some found
    | none => if c = '}' then none else firstSettingsCall? r

/-- Reads a public getter without parameters up to its first settings call. The
type of the property is the accessor without a leading `get`. -/
def configGetter : Recogniser (Text × ConfigurationProperty) := fun _ s => do
  let rest ← Text.spaces? (← Text.after? "public".toList s)
  let (_, rest) ← Text.word? rest
  let (method, rest) ← Text.word? (← Text.spaces? rest)
  let rest ← Text.after? "()".toList rest.trimStart
  let rest ← Text.after? ['{'] rest.trimStart
  let ((accessor, key, value), rest) ← firstSettingsCall? rest
  let type := (Text.after? "get".toList accessor).getD accessor
  pure ((method ++ "()".toList, ⟨key, type, value⟩), rest)

/-- The getters of the experimental settings by `method()`; of two getters of
one name the later counts. -/
def experimentalGetters (s : Text) : TextMap ConfigurationProperty :=
  TextMap.ofList ((Text.hits configGetter s).map Hit.value)

end Source

end ModuleDocs

import ModuleDocs.Descriptor.Exclusion
import ModuleDocs.Text.LetterCase
import ModuleDocs.Text.Sorted

/-!
# Dependency declarations

A dependency is declared by a call with a literal, `library("group:artifact:version")`.
The version is what follows the last colon that has something behind it; what
stands before is the coordinate, which needs a colon of its own
(`splitCoordinate?`). A compile-only dependency may instead name its version in a
block, `compileOnly("group:artifact") { version { strictly("1.0") } }`, and such
a declaration wins over a plain one.
-/

namespace ModuleDocs

namespace Descriptor

/-- Whether a text reads `group:artifact`: it has a colon with something on both
sides of it. -/
def hasInnerColon (s : Text) : Bool := (s.drop 1).dropLast.contains ':'

/-- Splits at the last colon that is not the last character. -/
def splitLastColon? : Text → Option (Text × Text)
  | [] => none
  | c :: r =>
    match splitLastColon? r with
    | some (before, after) => some (c :: before, after)
    | none => if c = ':' ∧ r ≠ [] then some ([], r) else none

/-- The coordinate and the version of a dependency literal. -/
def splitCoordinate? (s : Text) : Option (Text × Text) := do
  let (coordinate, version) ← splitLastColon? s
  guard (hasInnerColon coordinate)
  pure (coordinate, version)

/-- Reads `k("content")` with a non-empty content. -/
def call (k : Text) : Recogniser Text := fun before s => do
  let rest ← Text.after? "(\"".toList (← Text.keyword? k before s)
  let (content, rest) ← Text.untilQuote? rest
  pure (content, ← Text.after? [')'] rest)

/-- Reads `k("group:artifact:version")` as coordinate and version. -/
def coordinateCall (k : Text) : Recogniser (Text × Text) := fun before s => do
  let (content, rest) ← call k before s
  pure (← splitCoordinate? content, rest)

/-- The declarations of one kind in a text, from first to last. -/
def declarations (k : Text) (s : Text) : List (Text × Text) :=
  (Text.hits (coordinateCall k) s).map Hit.value

/-- Versions of `library` declarations; the last one of a coordinate counts. -/
def libraryDeclarations (s : Text) : TextMap Text :=
  TextMap.ofList (declarations "library".toList s)

/-- The `testLibrary` declarations. -/
def testLibraryDeclarations (s : Text) : List (Text × Text) :=
  declarations "testLibrary".toList s

/-- The `latestDepTestLibrary` declarations. -/
def latestDepDeclarations (s : Text) : List (Text × Text) :=
  declarations "latestDepTestLibrary".toList s

/-- The `group:artifact` in front of a literal's content: two non-empty fields
without a colon, with the end or a colon behind them. -/
def leadingCoordinate? (content : Text) : Option Text := do
  let (group, rest) ← Text.run? (· != ':') content
  let (artifact, rest) ← Text.run? (· != ':') (← Text.after? [':'] rest)
  guard (rest = [] ∨ rest.head? = some ':')
  pure (group ++ ':' :: artifact)

/-- Reads the head of a compile-only declaration with a block, up to its brace. -/
def strictOpener : Recogniser Text := fun before s => do
  let (content, rest) ← call "compileOnly".toList before s
  pure (← leadingCoordinate? content, ← Text.after? ['{'] rest.trimStart)

/-- The version that a compile-only block insists on. -/
def strictVersion? (body : Text) : Option Text := do
  let _ ← Text.firstHit? (opener "version".toList '{') body
  Text.firstHit? (call "strictly".toList) body

/-- The coordinate and version of a compile-only declaration with a block. -/
def strictDeclaration? (h : Hit Text) : Option (Text × Text) := do
  let (body, _) ← braced? h.rest
  pure (h.value, ← strictVersion? body)

/-- Versions of the compile-only declarations outside the excluded ranges: the
last with a block that insists on a version, else the first plain one. -/
def compileOnlyDeclarations (s : Text) (excluded : Exclusions) : TextMap Text :=
  let strict := ((Text.hits strictOpener s).filter fun h => !excluded.covers h.start).filterMap
    strictDeclaration?
  let plain := ((Text.hits (coordinateCall "compileOnly".toList) s).filter
    fun h => !excluded.covers h.start).map Hit.value
  plain.foldl (fun m d => m.insertIfNew d.1 d.2) (TextMap.ofList strict)

/-- Whether a coordinate names an artifact that only tests use. -/
def isTestArtifact (coordinate : Text) : Bool :=
  let s := coordinate.toLower
  "-test".toList.isSuffixOf s || "-testing".toList.isSuffixOf s ||
    s.includes "starter-test".toList || s.includes ":junit".toList ||
    s.includes ":mockito".toList || s.includes "test-support".toList

end Descriptor

end ModuleDocs

import ModuleDocs.Text.Basic

/-!
# Version ranges for readers

Documents shorten a half-open range: `[2.0,)` is shown as `2.0+` and `[2.0,3.0)`
as `2.0 - 3.0`. Of a coordinate only the version is shown.
-/

namespace ModuleDocs

namespace Fragment

/-- The bounds of a half-open range: a lower one that is not blank and an upper
one without a comma. -/
def rangeBounds? (version : Text) : Option (Text × Text) := do
  let inner ← Text.before? [')'] (← Text.after? ['['] version)
  let (lower, upper) ← Text.splitFirst? ',' inner
  guard (!Text.isBlank lower ∧ !upper.contains ',')
  pure (lower.trim, upper.trim)

/-- A version or a range of versions as readers see it. -/
def shownRange (version : Text) : Text :=
  match rangeBounds? version with
  | none => version
  | some (lower, []) => lower ++ ['+']
  | some (lower, upper) => lower ++ " - ".toList ++ upper

/-- The version of a constraint: the last of three or more parts between colons,
else the whole. -/
def versionPart (spec : Text) : Text :=
  let parts := spec.splitOn ':'
  if 3 ≤ parts.length then parts.getLast?.getD spec else spec

/-- A version constraint as readers see it. -/
def shownVersion (spec : Text) : Text := shownRange (versionPart spec)

end Fragment

end ModuleDocs

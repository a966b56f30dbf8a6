import ModuleDocs.Settings
import ModuleDocs.Store

/-!
# The version label

The label in a footer is the one asked for, else the one in the settings, else
the version that the source tree declares.
-/

namespace ModuleDocs

namespace Version

/-- The file of the source root that declares the version. -/
def declarationFile : Text := "version.gradle.kts".toList

/-- The label of a tree that declares no version. -/
def fallback : Text := "latest".toList

/-- The version declared in a text: the first quoted text assigned to
`version`. -/
def declared? (content : Text) : Option Text := do
  let (_, rest) ← Text.cut? "version = \"".toList content
  let (version, _) ← Text.splitFirst? '"' rest
  if version = [] then none else some version

/-- The label of the version that a source tree declares. -/
def detect (store : Store) (root : Path) : Text :=
  match store.readText (root.join declarationFile) with
  | .error _ => fallback
  | .ok content =>
    match declared? content with
    | some v => 'v' :: v
    | none => fallback

/-- The label to write. -/
def resolve (store : Store) (root : Path) (settings : DocsSettings) (asked : Option Text) : Text :=
  match asked.or settings.version with
  | some v => v
  | none => detect store root

end Version

end ModuleDocs

import ModuleDocs.Failure
import ModuleDocs.Settings
import ModuleDocs.Toml.Document

/-!
# The settings file

The settings of a source tree stand in a TOML file at its root, in the tables
`scan` and `docs`. What the file does not set has its default, and keys of other
names are passed over. A table may also be given as an array with its values in
the order of the fields.
-/

namespace ModuleDocs

namespace Settings

open Toml (Value)

/-- The places of the settings file, the first that is there counts. -/
def candidates : List String := ["metadoc.toml", ".metadoc.toml", ".config/metadoc.toml"]

/-- A text. -/
def text? : Value → Option Text
  | .string s => some s
  | _ => none

/-- A truth value. -/
def bool? : Value → Option Bool
  | .boolean b => some b
  | _ => none

/-- A list of things. -/
def list? {α : Type} (read : Value → Option α) : Value → Option (List α)
  | .array items => items.mapM read
  | _ => none

/-- The fields of a table; an array gives them by their order, and a date or time
has none of any name. -/
def fields? (order : List String) : Value → Option (List (Text × Value))
  | .table es => some es
  | .array items => some ((order.map String.toList).zip items)
  | .dateTime _ => some []
  | _ => none

/-- A field that has to be there. -/
def required? {α : Type} (fields : List (Text × Value)) (name : String)
    (read : Value → Option α) : Option α :=
  (fields.lookup name.toList).bind read

/-- A field that has a default. -/
def optional? {α : Type} (fields : List (Text × Value)) (name : String)
    (read : Value → Option α) (default : α) : Option α :=
  match fields.lookup name.toList with
  | none => some default
  | some v => read v

/-- The name of a fragment; it may also be the only key of a table that holds
nothing. -/
def fragment? : Value → Option Fragment
  | .string s => Fragment.ofName? s
  | .table [(k, .table [])] => Fragment.ofName? k
  | .table [(k, .array [])] => Fragment.ofName? k
  | _ => none

/-- A target, all fields of which have to be there. -/
def target? (v : Value) : Option Target := do
  let fields ← fields? ["file", "component", "content"] v
  pure {
    file := ← required? fields "file" text?
    component := ← required? fields "component" text?
    content := ← required? fields "content" fragment? }

/-- The settings of the scan. -/
def scan? (v : Value) : Option ScanSettings := do
  let fields ← fields? ["container", "descriptor", "source_extension", "metadata_file",
    "telemetry_dir", "exclude", "disable_gitignore", "experimental_config"] v
  let d : ScanSettings := {}
  pure {
    container := ← optional? fields "container" text? d.container
    descriptor := ← optional? fields "descriptor" text? d.descriptor
    sourceExtension := ← optional? fields "source_extension" text? d.sourceExtension
    metadataFile := ← optional? fields "metadata_file" text? d.metadataFile
    telemetryDir := ← optional? fields "telemetry_dir" text? d.telemetryDir
    exclude := ← optional? fields "exclude" (list? text?) d.exclude
    disableGitignore := ← optional? fields "disable_gitignore" bool? d.disableGitignore
    experimentalConfig :=
      ← optional? fields "experimental_config" (fun v => (text? v).map some) none }

/-- The settings of the documents. -/
def docs? (v : Value) : Option DocsSettings := do
  let fields ← fields? ["source_id", "agent_dir", "version", "targets"] v
  let d : DocsSettings := {}
  pure {
    sourceId := ← optional? fields "source_id" text? d.sourceId
    agentDir := ← optional? fields "agent_dir" text? d.agentDir
    version := ← optional? fields "version" (fun v => (text? v).map some) none
    targets := ← optional? fields "targets" (list? target?) d.targets }

/-- Reads the text of a settings file. -/
def parse? (content : Text) : Option Settings := do
  let fields ← Toml.parse? content
  pure {
    scan := ← optional? fields "scan" scan? {}
    docs := ← optional? fields "docs" docs? {} }

/-- The settings file of a source root. -/
def file? (store : Store) (root : Path) : Option Path :=
  (candidates.map fun c => root.join c.toList).find? store.isFile

/-- Loads the settings of a source root, if it has a settings file. -/
def load? (store : Store) (root : Path) : Except Failure (Option Settings) :=
  match file? store root with
  | none => .ok none
  | some p =>
    match store.readText p with
    | .error e => .error (.file e)
    | .ok content =>
      match parse? content with
      | some s => .ok (some s)
      | none => .error .badSettings

/-- The settings of a source root; the defaults if it has no settings file. -/
def loadOrDefault (store : Store) (root : Path) : Except Failure Settings :=
  (load? store root).map fun s => s.getD {}

end Settings

end ModuleDocs

import ModuleDocs.Instrumentation
import ModuleDocs.Failure
import ModuleDocs.Json
import ModuleDocs.Yaml.Layout

/-!
# The listing of all modules

The listing is one document with the instrumentations by group, in each group by
name and name space. Facts that are not known are left out; only the list of
kinds is always there.
-/

namespace ModuleDocs

namespace Instrumentation

open Yaml (Value)

/-- A field that is there if its value is. -/
def fieldIf (key : String) (v : Option Value) : List (Value × Value) :=
  match v with
  | some v => [(.string key.toList, v)]
  | none => []

/-- A field that is there. -/
def field (key : String) (v : Value) : List (Value × Value) := fieldIf key (some v)

/-- A field for a text. -/
def textField (key : String) (s : Text) : List (Value × Value) := field key (.string s)

/-- A field for a list that is left out when empty. -/
def listField (key : String) (items : List Value) : List (Value × Value) :=
  fieldIf key (if items.isEmpty then none else some (.sequence items))

/-- A field for a list of texts that is left out when empty. -/
def textsField (key : String) (items : List Text) : List (Value × Value) :=
  listField key (items.map .string)

/-- A setting in the listing. -/
def configurationValue (p : ConfigurationProperty) : Value :=
  .mapping (textField "name" p.name ++ textField "type" p.type ++
    fieldIf "default" (p.default.map .string))

/-- A described setting in the listing. -/
def documentedValue (c : DocumentedConfiguration) : Value :=
  .mapping (textField "name" c.name ++ fieldIf "description" (c.description.map .string) ++
    fieldIf "type" (c.type.map .string) ++ fieldIf "default" c.default)

/-- A path below the directory of the instrumentation, as the listing shows it. -/
def shownPath (e : Instrumentation) (p : Path) : Text := (Path.relativeTo? e.path p).getD p.text

/-- The telemetry declarations in the listing. -/
def telemetryField (e : Instrumentation) : List (Value × Value) :=
  let t := e.telemetry
  fieldIf "telemetry" (if t.isEmpty then none else some (.mapping (
    fieldIf "scope" (t.scope.map fun p => .string (e.shownPath p)) ++
      textsField "metrics" (t.metrics.map e.shownPath) ++
      textsField "spans" (t.spans.map e.shownPath))))

/-- The supported versions in the listing. -/
def versionsField (e : Instrumentation) : List (Value × Value) :=
  let entries := e.targetVersions.entries.map fun v =>
    (Value.string v.1.segment, Value.strings v.2.toList)
  fieldIf "target_versions" (if entries.isEmpty then none else some (.mapping entries))

/-- An instrumentation in the listing. -/
def value (e : Instrumentation) : Value :=
  let m := e.metadata.getD {}
  .mapping (textField "name" e.name ++
    fieldIf "display_name" (m.displayName.map .string) ++
    fieldIf "description" (m.description.map .string) ++
    fieldIf "library_link" (m.libraryLink.map .string) ++
    fieldIf "disabled_by_default" (if m.disabledByDefault then some (.bool true) else none) ++
    textField "namespace" e.nameSpace ++
    textField "source_path" e.sourcePath ++
    field "types" (.strings (e.kinds.map ModuleKind.segment)) ++
    field "scope" (.mapping (textField "name" e.scopeName)) ++
    fieldIf "minimum_java_version"
      (e.minJavaVersion.map fun n => .number (.integer (Int.ofNat n))) ++
    e.versionsField ++
    listField "configurations" (e.configurations.map configurationValue) ++
    textsField "semantic_conventions" m.semanticConventions ++
    textsField "semantic_tags" e.semanticTags.toList ++
    textsField "span_kinds" e.spanKinds.toList ++
    listField "metadata_configurations" (m.configurations.map documentedValue) ++
    e.telemetryField)

end Instrumentation

/-- Instrumentations by group. -/
structure Listing where
  groups : TextMap (List Instrumentation)

namespace Listing

/-- The order inside a group. -/
def orderInGroup (a b : Instrumentation) : Ordering :=
  (compare a.name b.name).then (compare a.nameSpace b.nameSpace)

/-- The listing of instrumentations. -/
def ofList (es : List Instrumentation) : Listing :=
  let groups := es.foldl (fun m e => m.insertWith (· ++ ·) e.group [e]) TextMap.empty
  ⟨groups.mapValues fun _ es => es.mergeSort fun a b => (orderInGroup a b).isLE⟩

/-- The instrumentations in the order of the listing. -/
def toList (l : Listing) : List Instrumentation := l.groups.entries.flatMap Prod.snd

/-- How many instrumentations there are. -/
def size (l : Listing) : Nat := l.groups.entries.foldl (fun n g => n + g.2.length) 0

def isEmpty (l : Listing) : Bool := l.groups.isEmpty

open Yaml (Value) in
/-- The entries of the document. -/
def entries (l : Listing) : List (Value × Value) :=
  [(.string "libraries".toList, .mapping (l.groups.entries.map fun g =>
    (.string g.1, .sequence (g.2.map Instrumentation.value))))]

/-- The listing as a YAML document. -/
def yaml (l : Listing) : Text := Yaml.Value.document l.entries

/-- The listing as a JSON document. -/
def json (l : Listing) : Except Failure Text :=
  match Json.ofYaml? (.mapping l.entries) with
  | some v => .ok v.pretty
  | none => .error .unwritable

end Listing

end ModuleDocs

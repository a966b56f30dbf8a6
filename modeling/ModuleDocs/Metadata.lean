import ModuleDocs.Yaml.Read
import ModuleDocs.Failure

/-!
# Module descriptions

A module may come with a description written by hand, a YAML document with keys
such as `description` and `display_name`. Every key may be left out, and keys of
other names are passed over; a known key must not come twice.
-/

namespace ModuleDocs

/-- A setting described by hand. -/
structure DocumentedConfiguration where
  name : Text := []
  description : Option Text := none
  type : Option Text := none
  default : Option Yaml.Value := none
  deriving Inhabited

/-- A module's description. -/
structure ModuleMetadata where
  description : Option Text := none
  displayName : Option Text := none
  libraryLink : Option Text := none
  disabledByDefault : Bool := false
  /-- Convention identifiers such as `HTTP_SERVER_SPANS`. -/
  semanticConventions : List Text := []
  configurations : List DocumentedConfiguration := []
  deriving Inhabited

namespace DocumentedConfiguration

open Yaml in
/-- Reads a described setting; `depth` limits how deeply its default nests. -/
def ofNode? (d : Document) (depth : Nat) (n : Yaml.Node) : Option DocumentedConfiguration := do
  let fields ← d.fields? n
  let optional {α : Type} (key : String) (read : Yaml.Node → Option α) : Option (Option α) := do
    match ← onlyAt? fields key.toList with
    | some v => d.optional? read v
    | none => pure none
  let name ← match ← onlyAt? fields "name".toList with
    | some v => d.text? v
    | none => pure []
  pure {
    name
    description := ← optional "description" d.text?
    type := ← optional "type" d.text?
    default := ← optional "default" (d.value? depth) }

end DocumentedConfiguration

namespace ModuleMetadata

open Yaml in
/-- Reads a description from the root of a document. -/
def ofNode? (d : Document) (n : Yaml.Node) : Option ModuleMetadata := do
  let fields ← d.fields? n
  let optional (key : String) : Option (Option Text) := do
    match ← onlyAt? fields key.toList with
    | some v => d.optional? d.text? v
    | none => pure none
  let list {α : Type} (key : String) (read : Yaml.Node → Option α) : Option (List α) := do
    match ← onlyAt? fields key.toList with
    | some v => (← d.items? v).mapM read
    | none => pure []
  let disabledByDefault ← match ← onlyAt? fields "disabled_by_default".toList with
    | some v => d.bool? v
    | none => pure false
  pure {
    description := ← optional "description"
    displayName := ← optional "display_name"
    libraryLink := ← optional "library_link"
    disabledByDefault
    semanticConventions := ← list "semantic_conventions" d.text?
    -- the document, the list and the setting are three collections around a default
    configurations := ← list "configurations"
      (DocumentedConfiguration.ofNode? d (depthLimit - 3)) }

/-- Reads a description; a blank text describes nothing. -/
def parse? (content : Text) : Option ModuleMetadata :=
  if content.isBlank then some {}
  else do
    let d ← Yaml.Document.parse? content
    match d.root with
    | none => some {}
    | some n => ofNode? d n

/-- Reads the description in a file. -/
def load (store : Store) (p : Path) : Except Failure ModuleMetadata :=
  match store.readText p with
  | .error e => .error (.file e)
  | .ok content =>
    match parse? content with
    | some m => .ok m
    | none => .error (.badDescription p)

end ModuleMetadata

end ModuleDocs

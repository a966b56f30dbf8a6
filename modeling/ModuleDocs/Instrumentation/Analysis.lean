import ModuleDocs.Instrumentation
import ModuleDocs.Module.Discovery
import ModuleDocs.Source.Scan

/-!
# Analysing a source tree

`enrich` adds to an instrumentation what the files in its directory say:
descriptors, sources, the description and the telemetry declarations. A file that
cannot be read is passed over, so only a missing root or a bad pattern makes
`analyze` fail.
-/

namespace ModuleDocs

/-- Opens the files of a store. -/
def Store.reader (s : Store) : Source.Reader := fun p => (s.read p).toOption

namespace Instrumentation

/-- Adds what a descriptor says, if it belongs to a kind and is text. -/
def addDescriptor (reader : Source.Reader) (e : Instrumentation) (descriptor : Path) :
    Instrumentation :=
  match Module.descriptorKind? e.path descriptor, (reader descriptor).bind Text.decode? with
  | some kind, some content => e.addDependencyInfo kind (Descriptor.resolve content kind)
  | _, _ => e

/-- Sets the description to the one in a file, if it can be read. -/
def addDescription (store : Store) (e : Instrumentation) (file : Option Path) : Instrumentation :=
  match file.map (ModuleMetadata.load store) with
  | some (.ok m) => { e with metadata := some m }
  | _ => e

/-- Adds the facts that the files of the instrumentation give. -/
def enrich (store : Store) (settings : ScanSettings) (reader : Source.Reader)
    (experimental : TextMap ConfigurationProperty) (e : Instrumentation) : Instrumentation :=
  let files := Module.files store e.path settings
  let e := files.descriptors.foldl (addDescriptor reader) e
  let e := { e with
    semanticTags := e.semanticTags.insertMany
      (Source.scanMarkers reader files.sources Source.semanticMarkers).keys
    spanKinds := e.spanKinds.insertMany
      (Source.scanMarkers reader files.sources Source.spanKindMarkers).keys }
  let e := (Source.scanProperties reader files.sources experimental).foldl addConfiguration e
  { addDescription store e files.metadata with telemetry := files.telemetry }

end Instrumentation

/-- The getters of the shared experimental settings; none if the settings name no
file or it cannot be read. -/
def experimentalTable (store : Store) (root : Path) (settings : ScanSettings) :
    TextMap ConfigurationProperty :=
  match settings.experimentalConfig with
  | none => .empty
  | some relative =>
    match store.readText (root.join relative) with
    | .ok content => Source.experimentalGetters content
    | .error _ => .empty

/-- The instrumentations below a source root, in order. -/
def analyze (store : Store) (root : Path) (settings : ScanSettings) :
    Except Failure (List Instrumentation) := do
  let modules ← Module.discover store root settings
  let table := experimentalTable store root settings
  pure ((Instrumentation.aggregate modules).map
    (Instrumentation.enrich store settings store.reader table))

end ModuleDocs

import ModuleDocs.Metadata
import ModuleDocs.Module.Files
import ModuleDocs.Descriptor.Resolve
import ModuleDocs.Source.Property

/-!
# Instrumentations

An instrumentation is one logical module with everything known about it, merged
across the kinds it comes in. Facts are added one by one and never taken back:
kinds in the order they are seen, versions into a set for each kind, settings the
first of each name, the platform version as the highest one asked for.
-/

namespace ModuleDocs

/-- The supported versions for each kind. A kind may have none, or a set. -/
structure TargetVersions where
  agent : Option TextSet := none
  library : Option TextSet := none
  deriving DecidableEq, Inhabited

namespace TargetVersions

/-- The versions for a kind. -/
def get? (t : TargetVersions) : ModuleKind → Option TextSet
  | .agent => t.agent
  | .library => t.library

/-- Sets the versions for a kind. -/
def set (t : TargetVersions) (kind : ModuleKind) (versions : TextSet) : TargetVersions :=
  match kind with
  | .agent => { t with agent := some versions }
  | .library => { t with library := some versions }

/-- Adds versions to those for a kind. -/
def add (t : TargetVersions) (kind : ModuleKind) (versions : TextSet) : TargetVersions :=
  t.set kind (((t.get? kind).getD .empty).union versions)

/-- The kinds that have a set, with it. -/
def entries (t : TargetVersions) : List (ModuleKind × TextSet) :=
  [ModuleKind.agent, ModuleKind.library].filterMap fun k => (t.get? k).map fun s => (k, s)

@[simp] theorem get?_set (t : TargetVersions) (k l : ModuleKind) (s : TextSet) :
    (t.set k s).get? l = if l = k then some s else t.get? l := by
  cases k <;> cases l <;> simp [set, get?]

end TargetVersions

/-- One logical module and the facts collected about it. -/
structure Instrumentation where
  /-- The directory that holds the kind directories. -/
  path : Path
  /-- That directory below the source root. -/
  sourcePath : Text
  name : Text
  nameSpace : Text
  group : Text
  /-- The kinds, in the order they were first seen. -/
  kinds : List ModuleKind := []
  targetVersions : TargetVersions := {}
  minJavaVersion : Option Nat := none
  configurations : List ConfigurationProperty := []
  /-- Capabilities that its sources reveal. -/
  semanticTags : TextSet := .empty
  /-- Span kinds that its sources produce. -/
  spanKinds : TextSet := .empty
  metadata : Option ModuleMetadata := none
  telemetry : TelemetryFiles := {}
  deriving Inhabited

namespace Instrumentation

/-- The instrumentation of a module directory, without any facts. -/
def ofModule (m : ModuleDir) : Instrumentation where
  path := m.path.parent?.getD m.path
  sourcePath := m.canonicalPath
  name := m.name
  nameSpace := m.nameSpace
  group := m.group

/-- What tells instrumentations apart: group, name space and name. -/
def key (e : Instrumentation) : Text × Text × Text := (e.group, e.nameSpace, e.name)

/-- Whether both stand for the same logical module, whatever is known of them. -/
def sameModule (a b : Instrumentation) : Bool := a.key == b.key

/-- Adds a kind behind the ones seen before. -/
def addKind (e : Instrumentation) (kind : ModuleKind) : Instrumentation :=
  if kind ∈ e.kinds then e else { e with kinds := e.kinds ++ [kind] }

/-- Adds what one descriptor says about a kind. A set without versions makes no
entry. -/
def addDependencyInfo (e : Instrumentation) (kind : ModuleKind) (info : DependencyInfo) :
    Instrumentation :=
  { e with
    targetVersions :=
      if info.versions.toList = [] then e.targetVersions
      else e.targetVersions.add kind info.versions
    minJavaVersion := max e.minJavaVersion info.minJavaVersion }

/-- Adds a setting unless one of its name is there. -/
def addConfiguration (e : Instrumentation) (p : ConfigurationProperty) : Instrumentation :=
  if e.configurations.any fun q => q.name = p.name then e
  else { e with configurations := e.configurations ++ [p] }

/-- The name shown to readers: the described one unless it is empty. -/
def displayName (e : Instrumentation) : Text :=
  match e.metadata.bind ModuleMetadata.displayName with
  | some (c :: r) => c :: r
  | _ => e.name

/-- The scope under which the module reports telemetry. -/
def scopeName (e : Instrumentation) : Text := "io.opentelemetry.".toList ++ e.name

/-! ## Order -/

/-- Orders instrumentations by group, then name, then name space. -/
def order (a b : Instrumentation) : Ordering :=
  (compare a.group b.group).then ((compare a.name b.name).then (compare a.nameSpace b.nameSpace))

/-- Sorts instrumentations; those of one key keep their order. -/
def sort (es : List Instrumentation) : List Instrumentation :=
  es.mergeSort fun a b => (order a b).isLE

/-! ## From module directories -/

/-- Enters a module directory: its kind is added to the instrumentation of its
key, which starts with the first directory of that key. -/
def enter (es : List Instrumentation) (m : ModuleDir) : List Instrumentation :=
  match es with
  | [] => [(ofModule m).addKind m.kind]
  | e :: r => if e.key = (ofModule m).key then e.addKind m.kind :: r else e :: enter r m

/-- One instrumentation for each key among module directories, sorted. -/
def aggregate (modules : List ModuleDir) : List Instrumentation := sort (modules.foldl enter [])

end Instrumentation

end ModuleDocs

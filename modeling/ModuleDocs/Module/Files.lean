import ModuleDocs.Module.Directory
import ModuleDocs.Store.Walk
import ModuleDocs.Settings

/-!
# The files of a module

A module's facts come from the files in its directory: sources, build
descriptors, the description file and the telemetry declarations. Hidden
directories and `build` are not entered; sources leave out `test` trees,
descriptors leave out `testing` trees.
-/

namespace ModuleDocs

/-- The telemetry declarations of a module. -/
structure TelemetryFiles where
  scope : Option Path := none
  metrics : List Path := []
  spans : List Path := []
  deriving DecidableEq, Inhabited

namespace TelemetryFiles

def isEmpty (t : TelemetryFiles) : Bool :=
  t.scope.isNone && t.metrics.isEmpty && t.spans.isEmpty

end TelemetryFiles

/-- The files that belong to a module. -/
structure ModuleFiles where
  sources : List Path
  descriptors : List Path
  metadata : Option Path
  telemetry : TelemetryFiles
  deriving DecidableEq

namespace Module

/-- The directories to go on with when files are collected. -/
def openSubdirectories (store : Store) (dir : Path) : List Path :=
  ((store.children dir).filter store.isDirectory).filter fun p =>
    match p.name? with
    | some n => !(n.head? == some '.' || n == "build".toList)
    | none => false

/-- The regular files below a directory, in path order. -/
def filesBelow (store : Store) (dir : Path) : List Path :=
  let opened := (store.walk (openSubdirectories store) [] [dir]).filter Store.Visit.opened
  Path.sort (opened.flatMap fun v => (store.children v.path).filter store.isFile)

/-- Whether a segment of the path below `base` is among `names`. -/
def hasSegmentBelow (base : Path) (names : List Text) (p : Path) : Bool :=
  match Path.relativeTo? base p with
  | some relative => (relative.splitOn '/').any fun s => names.contains s
  | none => false

/-- The source files among the files below a module. -/
def sourcesAmong (root : Path) (extension : Text) (files : List Path) : List Path :=
  files.filter fun p => p.extension? == some extension &&
    !hasSegmentBelow root ["build".toList, "test".toList] p

/-- The build descriptors among the files below a module. -/
def descriptorsAmong (root : Path) (name : Text) (files : List Path) : List Path :=
  files.filter fun p => p.name? == some name && !hasSegmentBelow root ["testing".toList] p

/-- The description file of a module. -/
def descriptionFile? (store : Store) (root : Path) (name : Text) : Option Path :=
  let p := root.join name
  if store.isFile p then some p else none

/-- Sorts one file into the telemetry declarations by its name. Of several scope
declarations the last stands. -/
def addTelemetryFile (t : TelemetryFiles) (p : Path) : TelemetryFiles :=
  match p.name? with
  | none => t
  | some n =>
    if n = "scope.yaml".toList then { t with scope := some p }
    else if "metrics-".toList.isPrefixOf n then { t with metrics := t.metrics ++ [p] }
    else if "spans-".toList.isPrefixOf n then { t with spans := t.spans ++ [p] }
    else t

/-- The telemetry declarations of a module. -/
def telemetryFiles (store : Store) (root : Path) (dir : Text) : TelemetryFiles :=
  (Path.sort ((store.children (root.join dir)).filter store.isFile)).foldl addTelemetryFile {}

/-- The files of the module in a directory. -/
def files (store : Store) (root : Path) (settings : ScanSettings) : ModuleFiles :=
  let below := filesBelow store root
  { sources := sourcesAmong root settings.sourceExtension below
    descriptors := descriptorsAmong root settings.descriptor below
    metadata := descriptionFile? store root settings.metadataFile
    telemetry := telemetryFiles store root settings.telemetryDir }

/-- The kind of module a descriptor belongs to, by the kind segment on its path
below the directory of the logical module. -/
def descriptorKind? (root descriptor : Path) : Option ModuleKind := do
  let segs := List.splitOn '/' (← Path.relativeTo? root descriptor)
  [ModuleKind.agent, ModuleKind.library].find? fun k => segs.contains k.segment

end Module

end ModuleDocs

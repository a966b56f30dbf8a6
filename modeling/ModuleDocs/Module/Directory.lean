import ModuleDocs.Store

/-!
# Module directories

A module lives in a directory whose last segment names its kind,
`<container>/…/<name>/<javaagent|library>`. `classifyPath` reads this shape off
a path below the source root: what is in the directory plays no part.
-/

namespace ModuleDocs

/-- How a module is deployed. -/
inductive ModuleKind where
  /-- Woven into the agent at run time. -/
  | agent
  /-- Published as a library of its own. -/
  | library
  deriving DecidableEq, Inhabited

namespace ModuleKind

/-- The directory name that marks a module of this kind. -/
def segment : ModuleKind → Text
  | agent => "javaagent".toList
  | library => "library".toList

/-- The kind that a directory name marks. -/
def ofSegment? (s : Text) : Option ModuleKind :=
  [agent, library].find? fun k => k.segment = s

theorem ofSegment?_segment (k : ModuleKind) : ofSegment? k.segment = some k := by
  cases k <;> decide

end ModuleKind

/-- A module directory. -/
structure ModuleDir where
  path : Path
  /-- The path below the source root. -/
  relative : Text
  /-- The segment above the kind segment. -/
  name : Text
  nameSpace : Text
  group : Text
  kind : ModuleKind
  deriving DecidableEq, Inhabited

namespace ModuleDir

/-- The relative path without its kind segment; the kinds of one logical module
share it. -/
def canonicalPath (m : ModuleDir) : Text :=
  match Text.before? m.kind.segment m.relative with
  | none => m.relative
  | some rest => (Text.before? ['/'] rest).getD rest

end ModuleDir

namespace Module

/-- The part of a name before its first dash; the whole name if that is empty. -/
def family (name : Text) : Text :=
  match Text.splitFirst? '-' name with
  | some (lead@(_ :: _), _) => lead
  | _ => name

/-- The non-empty segments of a path text. -/
def segments (relative : Text) : List Text :=
  (relative.splitOn '/').filter fun s => !s.isEmpty

/-- Whether some segment is reserved for tests and shared code, so that no
module lies on the path. -/
def hasDeniedSegment : List Text → Bool
  | [] => false
  | s :: r =>
    s == "test".toList || "testing".toList.isPrefixOf s || "-common".toList.isSuffixOf s ||
      (s == "bootstrap".toList && r.head? == some "src".toList) || hasDeniedSegment r

/-- Whether the root itself is the container. A root whose last component is not
a name is resolved first. -/
def rootIsContainer (store : Store) (root : Path) (container : Text) : Bool :=
  match root.name? with
  | some n => n == container
  | none =>
    match store.canonical? root with
    | some loc => loc.getLast? == some container
    | none => false

/-- Whether the container stands above the segment at `nameIndex`: it occurs
strictly before it, or it occurs nowhere and is the root. -/
def underContainer (store : Store) (root : Path) (container : Text) (segs : List Text)
    (nameIndex : Nat) : Bool :=
  match segs.findIdx? fun s => s = container with
  | some i => i < nameIndex
  | none => rootIsContainer store root container

/-- Reads a path below the root as a module directory. -/
def classifyPath (store : Store) (root : Path) (relative container : Text) : Option ModuleDir := do
  let segs := segments relative
  let kind ← segs.getLast?.bind ModuleKind.ofSegment?
  let name ← segs.dropLast.getLast?
  guard (underContainer store root container segs (segs.length - 2))
  guard (segs.count ModuleKind.agent.segment ≤ 1 ∧ !hasDeniedSegment segs)
  let relative := List.intercalate ['/'] segs
  pure {
    path := root.join relative
    relative
    name
    nameSpace := family name
    group := family name
    kind }

end Module

end ModuleDocs

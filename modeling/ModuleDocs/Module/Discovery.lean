import ModuleDocs.Module.Directory
import ModuleDocs.Store.Walk
import ModuleDocs.Ignore
import ModuleDocs.Settings
import ModuleDocs.Failure

/-!
# Discovering module directories

`discover` walks a source root and classifies every directory it meets. Hidden
directories, build output, package caches and `src` trees are not entered, and
neither is a directory that the root's ignore file or the settings exclude.
-/

namespace ModuleDocs

namespace Module

/-- Directories that never hold modules. -/
def isSkippedName (n : Text) : Bool :=
  n.head? == some '.' || n == "build".toList || n == "node_modules".toList || n == "src".toList

/-- The rules of the root's ignore file, as far as it can be read. -/
def ignoreFile (store : Store) (root : Path) : IgnoreRules :=
  match store.read (root.join ".gitignore".toList) with
  | .ok bytes => IgnoreRules.ofLines root (Text.decodedLines bytes)
  | .error _ => .none root

/-- The rule of an exclude pattern. The pattern has to be a glob even where an
ignore file would take it literally. -/
def excludeRule (pattern : Text) : Except Failure (Option IgnoreRule) :=
  let bare := pattern.dropWhile (· == '!')
  let bare := (bare.reverse.dropWhile (· == '/')).reverse
  match Glob.parse false bare with
  | .error e => .error (.badPattern pattern e.message)
  | .ok _ =>
    match IgnoreRule.parse? pattern with
    | .ok rule => .ok rule
    | .error e =>
      let line := if "\\ ".toList.isSuffixOf pattern then pattern else pattern.trimEnd
      .error (.badPattern pattern
        ("error parsing glob '".toList ++ line ++ "': ".toList ++ e.message))

/-- The rules of the exclude patterns. -/
def excludeRules (root : Path) (patterns : List Text) : Except Failure IgnoreRules := do
  let rules ← patterns.mapM excludeRule
  pure ⟨root, rules.filterMap id⟩

/-- The directories to go on with below an opened one, in order of their names. -/
def subdirectories (store : Store) (skip : Path → Bool) (dir : Path) : List Path :=
  (Path.sort ((store.children dir).filter store.isDirectory)).filter fun p =>
    match p.name? with
    | some n => !(isSkippedName n || skip p)
    | none => false

/-- The directories below a root that a walk meets, the root itself left out. -/
def directoriesBelow (store : Store) (skip : Path → Bool) (root : Path) : List Path :=
  ((store.walk (subdirectories store skip) [] [root]).map Store.Visit.path).tail

/-- The module directories below a root that are not skipped, by relative path. -/
def discoverWhere (store : Store) (skip : Path → Bool) (root : Path) (container : Text) :
    List ModuleDir :=
  let found := (directoriesBelow store skip root).filterMap fun p => do
    classifyPath store root (← Path.relativeTo? root p) container
  found.mergeSort fun a b => (compare a.relative b.relative).isLE

/-- The module directories below a source root, by relative path. -/
def discover (store : Store) (root : Path) (settings : ScanSettings) :
    Except Failure (List ModuleDir) := do
  if !store.isDirectory root then throw (.rootNotFound root)
  let ignored := if settings.disableGitignore then .none root else ignoreFile store root
  let excluded ← excludeRules root settings.exclude
  let skip := fun p => ignored.ignoresDirectory p || excluded.ignoresDirectory p
  pure (discoverWhere store skip root settings.container)

end Module

end ModuleDocs

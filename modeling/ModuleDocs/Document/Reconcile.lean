import ModuleDocs.Document.Region
import ModuleDocs.Fragment.Render
import ModuleDocs.Settings

/-!
# Keeping documents up to date

Every target names a document and a region in it. `reconcile` renders each
target and puts it into its document in memory; targets that share a document are
applied to the same text, in their order. A target that cannot be applied is
reported and leaves the others alone. `check` answers which documents would
change, `computeUpdates` with what content, and `writeUpdates` writes them.
-/

namespace ModuleDocs

/-- What a documentation checkout is reconciled with. -/
structure DocsContext where
  /-- The directory of the target documents. -/
  directory : Path
  settings : DocsSettings
  modules : List Instrumentation
  /-- The label in the footer of every fragment. -/
  version : Text
  deriving Inhabited

namespace DocsContext

/-- The context of a documentation checkout. Its root and the directory of the
target documents have to be there. -/
def ofRoot (store : Store) (root : Path) (settings : DocsSettings)
    (modules : List Instrumentation) (version : Text) : Except Failure DocsContext :=
  let directory := root.join settings.agentDir
  if !store.isDirectory root then .error (.docsNotFound root)
  else if !store.isDirectory directory then .error (.docsNotFound directory)
  else .ok { directory, settings, modules, version }

/-- The document of a target. -/
def targetPath (c : DocsContext) (t : Target) : Path := c.directory.join t.file

/-- The text that a target's region should hold. -/
def fragment (c : DocsContext) (t : Target) : Text := t.content.render c.modules c.version

end DocsContext

/-- A target that could not be applied. -/
structure TargetFailure where
  file : Path
  component : Text
  problem : RegionProblem
  deriving DecidableEq

/-- A document that targets are applied to. -/
structure Draft where
  path : Path
  /-- The text in the store. -/
  stored : Text
  /-- The text with the targets applied so far. -/
  current : Text
  /-- The components whose region changed, in target order. -/
  changed : List Text := []
  deriving DecidableEq

namespace Draft

/-- Whether the document differs from the one in the store. -/
def isStale (d : Draft) : Bool := d.current != d.stored

end Draft

/-- The drafts of documents and what went wrong so far. -/
structure Reconciliation where
  drafts : List Draft := []
  failures : List TargetFailure := []
  /-- How many targets made a difference. -/
  updated : Nat := 0

namespace Reconciliation

/-- Whether two paths spell one document. -/
def sameDocument (p q : Path) : Bool := p.components == q.components

/-- Reads the document of a path from the store. -/
def openDraft (store : Store) (p : Path) : Except RegionProblem Draft :=
  if !store.isFile p then .error (.noFile p)
  else
    match store.readText p with
    | .ok content => .ok { path := p, stored := content, current := content }
    | .error _ => .error (.notText p)

/-- The draft of a path: the one there is, or the document in the store. -/
def draft (store : Store) (r : Reconciliation) (p : Path) : Except RegionProblem Draft :=
  match r.drafts.find? fun d => sameDocument d.path p with
  | some d => .ok d
  | none => openDraft store p

/-- Puts a draft in the place of the one of its document. -/
def putDraft (drafts : List Draft) (d : Draft) : List Draft :=
  if drafts.any fun e => sameDocument e.path d.path then
    drafts.map fun e => if sameDocument e.path d.path then d else e
  else drafts ++ [d]

/-- Applies one target. -/
def apply (store : Store) (c : DocsContext) (r : Reconciliation) (t : Target) : Reconciliation :=
  let p := c.targetPath t
  let fail (problem : RegionProblem) : Reconciliation :=
    { r with failures := r.failures ++ [⟨p, t.component, problem⟩] }
  match draft store r p with
  | .error problem => fail problem
  | .ok d =>
    match updateContent {} d.current t.component c.settings.sourceId (c.fragment t) with
    | .error problem =>
      let r := fail problem
      { r with drafts := putDraft r.drafts d }
    | .ok u =>
      if u.changed then
        { r with
          drafts := putDraft r.drafts
            { d with current := u.content, changed := d.changed ++ [t.component] }
          updated := r.updated + 1 }
      else { r with drafts := putDraft r.drafts d }

/-- The drafts that differ from the store, in path order. -/
def stale (r : Reconciliation) : List Draft :=
  (r.drafts.mergeSort fun a b => (Path.order a.path b.path).isLE).filter Draft.isStale

end Reconciliation

/-- Applies every target in order. -/
def reconcile (store : Store) (c : DocsContext) : Reconciliation :=
  c.settings.targets.foldl (Reconciliation.apply store c) {}

/-- Whether there are targets and every one of them failed. -/
def everyTargetFailed (failures : List TargetFailure) (targetCount : Nat) : Bool :=
  0 < targetCount && failures.length == targetCount

/-- What a check found. -/
structure CheckResult where
  stale : List Draft
  failures : List TargetFailure
  targetCount : Nat
  deriving DecidableEq

namespace CheckResult

/-- Every target could be applied and made no difference. -/
def isOk (r : CheckResult) : Bool := r.stale.isEmpty && r.failures.isEmpty

def hasFailures (r : CheckResult) : Bool := !r.failures.isEmpty

def allFailed (r : CheckResult) : Bool := everyTargetFailed r.failures r.targetCount

end CheckResult

/-- Finds the documents that are out of date. -/
def check (store : Store) (c : DocsContext) : CheckResult :=
  let r := reconcile store c
  { stale := r.stale, failures := r.failures, targetCount := c.settings.targets.length }

/-- The documents to write. -/
structure DocsUpdate where
  /-- New contents, in path order. -/
  files : List (Path × Text)
  /-- How many targets made a difference. -/
  updated : Nat
  failures : List TargetFailure
  targetCount : Nat
  deriving DecidableEq

namespace DocsUpdate

def allFailed (u : DocsUpdate) : Bool := everyTargetFailed u.failures u.targetCount

end DocsUpdate

/-- The new content of every document that is out of date. -/
def computeUpdates (store : Store) (c : DocsContext) : DocsUpdate :=
  let r := reconcile store c
  { files := r.stale.map fun d => (d.path, d.current)
    updated := r.updated
    failures := r.failures
    targetCount := c.settings.targets.length }

/-- Writes the documents of an update. -/
def writeUpdates (store : Store) (u : DocsUpdate) : Except Failure Store :=
  (u.files.foldlM (fun (s : Store) f => s.write f.1 (Text.encode f.2)) store).mapError .file

end ModuleDocs

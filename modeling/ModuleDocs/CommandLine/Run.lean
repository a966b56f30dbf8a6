import ModuleDocs.CommandLine.Arguments
import ModuleDocs.Document.Reconcile
import ModuleDocs.Document.Version
import ModuleDocs.Instrumentation.Analysis
import ModuleDocs.Listing
import ModuleDocs.Settings.Load
import ModuleDocs.Text.Diff

/-!
# The program

A run of the program is a function of the files it finds and its arguments: what
it prints, its exit code, and the files afterwards. Exit code 1 says that there is
something to do or that nothing could be done, 2 that the program could not do its
work at all.
-/

namespace ModuleDocs

namespace CommandLine

/-- What a run of the program leaves. -/
structure Outcome where
  exit : Nat := 0
  output : Text := []
  errors : Text := []
  /-- What went wrong, if the library failed. -/
  failure : Option Failure := none
  store : Store

/-- Why a run ended early with exit code 2. -/
inductive Abort where
  | library (f : Failure)
  /-- The output file could not be written. -/
  | output

/-- Puts the parts of a line together. -/
def line (parts : List Text) : Text := parts.flatten ++ ['\n']

/-- A line of a fixed text. -/
def textLine (s : String) : Text := s.toList ++ ['\n']

/-- A source root with its settings and instrumentations. -/
structure Project where
  root : Path
  settings : Settings
  modules : List Instrumentation

/-- Analyses the source root asked for, or the current directory. -/
def project (store : Store) (root : Option Text) : Except Failure Project := do
  let root : Path := ⟨root.getD ('/' :: List.intercalate ['/'] store.home)⟩
  let settings ← Settings.loadOrDefault store root
  pure { root, settings, modules := ← analyze store root settings.scan }

/-- The context of a documentation checkout. -/
def context (store : Store) (p : Project) (docs : Path) (version : Option Text) :
    Except Failure DocsContext :=
  DocsContext.ofRoot store docs p.settings.docs p.modules
    (Version.resolve store p.root p.settings.docs version)

/-! ## Listing -/

/-- Prints the listing or writes it to a file. -/
def runList (store : Store) (root : Option Text) (format : ListingFormat) (output : Option Text) :
    Except Abort Outcome := do
  let p ← (project store root).mapError .library
  let listing := Listing.ofList p.modules
  let text ← match format with
    | .yaml => pure listing.yaml
    | .json => listing.json.mapError .library
  let text := if text.getLast? = some '\n' then text else text ++ ['\n']
  match output with
  | none => pure { output := text, store }
  | some file =>
    let store ← (store.write ⟨file⟩ (Text.encode text)).mapError fun _ => .output
    pure {
      output := line ["Wrote ".toList, Text.ofNat listing.size, " module(s) to ".toList, file]
      store }

/-! ## Reports -/

/-- The targets that could not be applied, a line each. -/
def failureLines (docs : Path) (failures : List TargetFailure) : Text :=
  failures.flatMap fun f => line ["warning: target `".toList, f.component, "` in ".toList,
    Path.displayBelow docs f.file, ": ".toList, f.problem.message]

/-- The line that says that no target could be applied. -/
def noneOf (count : Nat) (done : String) : Text :=
  line ["error: none of the ".toList, Text.ofNat count,
    " documentation target(s) could be ".toList, done.toList]

/-- The lines of a difference, each marked and ended. -/
def diffLines (old new : Text) : Text :=
  (Diff.changes old new).flatMap fun c =>
    let mark := match c.1 with
      | .kept => "   "
      | .deleted => "  -"
      | .inserted => "  +"
    let ended := c.2.getLast? == some '\n' || c.2.getLast? == some '\r'
    mark.toList ++ c.2 ++ if ended then [] else ['\n']

/-- The report of a check for programs. -/
def jsonReport (docs : Path) (r : CheckResult) (passed : Bool) : Json :=
  .object [
    ("failures".toList, .array (r.failures.map fun f => .object [
      ("component".toList, .string f.component),
      ("file".toList, .string (Path.displayBelow docs f.file)),
      ("message".toList, .string f.problem.message)])),
    ("ok".toList, .bool passed),
    ("stale".toList, .array (r.stale.map fun d => .object [
      ("components".toList, .array (d.changed.map .string)),
      ("file".toList, .string (Path.displayBelow docs d.path))]))]

/-- The stale documents, each with its difference if asked for. -/
def staleLines (docs : Path) (showDiff : Bool) (stale : List Draft) : Text :=
  stale.flatMap fun d =>
    line ["  ".toList, Path.displayBelow docs d.path, " (".toList,
      List.intercalate ", ".toList d.changed, ")".toList] ++
      if showDiff then diffLines d.stored d.current else []

/-- The report of a check for readers: what goes to the output and what to the
errors. -/
def textReport (docs : Path) (showDiff : Bool) (r : CheckResult) : Text × Text :=
  let failures := failureLines docs r.failures
  if r.allFailed then ([], failures ++ noneOf r.targetCount "checked")
  else if r.stale = [] then
    (textLine "Check passed: all generated sections are up to date.", failures)
  else
    let count := Text.ofNat r.stale.length
    ([], failures ++ textLine "Check failed." ++ line ["  stale documents: ".toList, count] ++
      textLine "" ++ textLine "Stale documents:" ++ staleLines docs showDiff r.stale ++ textLine "" ++
      line [count, " document(s) are out of date. Run `metadoc update` to fix.".toList])

/-- Checks a documentation checkout. -/
def runCheck (store : Store) (root : Option Text) (docs : Path) (version : Option Text)
    (showDiff : Bool) (format : ReportFormat) : Except Abort Outcome := do
  let p ← (project store root).mapError .library
  let c ← (context store p docs version).mapError .library
  let r := check store c
  let passed := r.stale.isEmpty && !r.allFailed
  let (output, errors) := match format with
    | .json => ((jsonReport docs r passed).compact ++ ['\n'], [])
    | .text => textReport docs showDiff r
  pure { exit := if passed then 0 else 1, output, errors, store }

/-! ## Updates -/

/-- A count of sections and files. -/
def sectionCount (u : DocsUpdate) : Text :=
  Text.ofNat u.updated ++ " section(s) in ".toList ++ Text.ofNat u.files.length ++
    " file(s)".toList

/-- The files of an update, a line each. -/
def fileLines (docs : Path) (u : DocsUpdate) : Text :=
  u.files.flatMap fun f => line ["  ".toList, Path.displayBelow docs f.1]

/-- Updates a documentation checkout, or says what an update would do. -/
def runUpdate (store : Store) (root : Option Text) (verbose : Bool) (docs : Path)
    (version : Option Text) (dryRun : Bool) : Except Abort Outcome := do
  let p ← (project store root).mapError .library
  let c ← (context store p docs version).mapError .library
  let u := computeUpdates store c
  let errors := failureLines docs u.failures
  if u.allFailed then
    return { exit := 1, errors := errors ++ noneOf u.targetCount "updated", store }
  if u.updated = 0 then
    return { output := textLine "All generated sections are already up to date.", errors, store }
  if dryRun then
    return {
      output := line ["Dry run: would update ".toList, sectionCount u, ":".toList] ++
        fileLines docs u
      errors, store }
  let store ← (writeUpdates store u).mapError .library
  pure {
    output := line ["Updated ".toList, sectionCount u, ".".toList] ++
      if verbose then fileLines docs u else []
    errors, store }

/-! ## Runs -/

/-- How the program is called. -/
def usage : Text :=
  textLine "Usage: metadoc [--path PATH] [--verbose] [--no-color] COMMAND" ++
    textLine "" ++
    textLine "  list [--format yaml|json] [--output FILE]" ++
    textLine "  update --docs DIR [--version VERSION] [--dry-run]" ++
    textLine "  check --docs DIR [--version VERSION] [--diff] [--format text|json]"

/-- Runs an invocation. -/
def runInvocation (store : Store) (i : Invocation) : Except Abort Outcome :=
  match i.command with
  | none => .ok {
      exit := 1
      errors := textLine "No subcommand specified. Run `metadoc --help` for usage."
      store }
  | some (.list format output) => runList store i.root format output
  | some (.update docs version dryRun) =>
    runUpdate store i.root i.verbose ⟨docs⟩ version dryRun
  | some (.check docs version showDiff format) =>
    runCheck store i.root ⟨docs⟩ version showDiff format

/-- Runs the program. -/
def run (store : Store) (args : List Text) : Outcome :=
  match parse args with
  | .error .help => { output := usage, store }
  | .error .version => { output := textLine "metadoc_cli 0.1.0", store }
  | .error .misuse => { exit := 2, errors := usage, store }
  | .ok i =>
    match runInvocation store i with
    | .ok o => o
    | .error (.library f) =>
      { exit := 2, errors := line ["error: ".toList, f.message], failure := some f, store }
    | .error .output => { exit := 2, errors := textLine "error: cannot write the output", store }

end CommandLine

end ModuleDocs

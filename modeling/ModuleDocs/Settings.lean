import ModuleDocs.Path

/-!
# Settings

What the scan of a source tree looks for and which documents are kept up to
date. Every setting has a default; a settings file may change any of them.
-/

namespace ModuleDocs

/-- Settings of the source tree scan. -/
structure ScanSettings where
  /-- Name of the directory that holds every module. -/
  container : Text := "instrumentation".toList
  /-- File name of a module's build descriptor. -/
  descriptor : Text := "build.gradle.kts".toList
  /-- Extension of source files, without its dot. -/
  sourceExtension : Text := "java".toList
  /-- Description file, relative to the module directory. -/
  metadataFile : Text := "metadata.yaml".toList
  /-- Directory of telemetry declarations, relative to the module directory. -/
  telemetryDir : Text := ".telemetry".toList
  /-- Ignore rules for directories to skip, relative to the source root. -/
  exclude : List Text := []
  /-- Leaves the root's ignore file aside. -/
  disableGitignore : Bool := false
  /-- Source file of the shared experimental settings, relative to the root. -/
  experimentalConfig : Option Text := none
  deriving DecidableEq, Inhabited

/-- What a generated region shows. -/
inductive Fragment where
  | supportedLibraries
  | appServers
  | disableList
  deriving DecidableEq, Inhabited

namespace Fragment

/-- The name of a fragment in settings. -/
def name : Fragment → Text
  | supportedLibraries => "supported-libraries".toList
  | appServers => "app-servers".toList
  | disableList => "disable-list".toList

/-- The fragment of a name. -/
def ofName? (n : Text) : Option Fragment :=
  [supportedLibraries, appServers, disableList].find? fun f => f.name = n

end Fragment

/-- One generated region of a document. -/
structure Target where
  /-- The document, relative to the directory of target documents. -/
  file : Text
  component : Text
  content : Fragment
  deriving DecidableEq, Inhabited

/-- Settings of the documents. -/
structure DocsSettings where
  /-- The source named by every marker pair. -/
  sourceId : Text := "opentelemetry-java-instrumentation".toList
  /-- Directory of the target documents, relative to the documentation root. -/
  agentDir : Text := "content/en/docs/zero-code/java/agent".toList
  /-- Version label; found in the source tree when absent. -/
  version : Option Text := none
  targets : List Target := [
    ⟨"supported-libraries.md".toList, "supported-libraries".toList, .supportedLibraries⟩,
    ⟨"disable.md".toList, "disable-list".toList, .disableList⟩]
  deriving DecidableEq, Inhabited

/-- All settings. -/
structure Settings where
  scan : ScanSettings := {}
  docs : DocsSettings := {}
  deriving DecidableEq, Inhabited

end ModuleDocs

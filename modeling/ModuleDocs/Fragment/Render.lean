import ModuleDocs.Fragment.Convention
import ModuleDocs.Fragment.ShownName
import ModuleDocs.Fragment.VersionRange
import ModuleDocs.Instrumentation

/-!
# The generated tables

Three tables are generated from the instrumentations: the supported libraries by
family, the application servers, and the names under which an instrumentation is
disabled. Each ends with a line that names the version it was generated for.
-/

namespace ModuleDocs

namespace Fragment

/-- The address of the published artifacts. -/
def artifactSite : Text :=
  "https://central.sonatype.com/artifact/io.opentelemetry.instrumentation/".toList

/-- The address of a published artifact. -/
def artifactLink (artifact : Text) : Text := artifactSite ++ artifact

/-- The line that closes a table. -/
def footer (version : Text) : Text :=
  "\n_Auto-generated for version ".toList ++ version ++ "_\n".toList

/-- A row of a table. -/
def row (cells : List Text) : Text :=
  "| ".toList ++ List.intercalate " | ".toList cells ++ " |\n".toList

/-- The agent versions of an instrumentation, one to a line of the cell. -/
def agentVersionsCell (e : Instrumentation) : Text :=
  match e.targetVersions.agent.map TextSet.toList with
  | some (v :: r) => List.intercalate "<br>".toList ((v :: r).map shownVersion)
  | _ => "N/A".toList

/-! ## Supported libraries -/

def librariesHeader : Text :=
  ("| Library/Framework | Auto-instrumented versions | " ++
    "Standalone Library Instrumentation [1] | Functionality / Semantic Conventions |\n" ++
    "| ----------------- | -------------------------- | " ++
    "-------------------------------------- | ------------------------------------ |\n").toList

def standaloneFootnote : Text :=
  ("[1]: Standalone library instrumentations are published as separate " ++
    "artifacts and can be used without the Java agent.\n").toList

/-- The name of an instrumentation, with its link if it has one. -/
def libraryCell (e : Instrumentation) : Text :=
  match e.metadata.bind ModuleMetadata.libraryLink with
  | some link => '[' :: e.displayName ++ "](".toList ++ link ++ [')']
  | none => e.displayName

/-- The artifact of an instrumentation that is also a library. -/
def standaloneCell (e : Instrumentation) : Text :=
  if ModuleKind.library ∈ e.kinds then
    let artifact := "opentelemetry-".toList ++ e.name
    '[' :: artifact ++ "](".toList ++ artifactLink artifact ++ [')']
  else "N/A".toList

/-- The conventions an instrumentation follows: the described ones, or those that
its sources reveal if none are described. -/
def conventions (e : Instrumentation) : List Text :=
  match e.metadata.map ModuleMetadata.semanticConventions with
  | some (c :: r) => c :: r
  | _ => e.semanticTags.toList.map Text.toUpper

/-- References to conventions. -/
def conventionsCell (cs : List Text) : Text :=
  if cs = [] then "none".toList else List.intercalate ", ".toList (cs.map conventionReference)

/-- The row of a library. -/
def libraryRow (e : Instrumentation) : Text :=
  row [libraryCell e, agentVersionsCell e, standaloneCell e, conventionsCell (conventions e)]

/-- Sorts instrumentations by name. -/
def sortByName (es : List Instrumentation) : List Instrumentation :=
  es.mergeSort fun a b => (compare a.name b.name).isLE

/-- The family of a module name: what stands before its first dash, unless the name
begins with it. -/
def family (name : Text) : Text :=
  match name.findIdx? fun c => c = '-' with
  | some (n + 1) => name.take (n + 1)
  | _ => name

/-- The instrumentations by family, in each family by name. -/
def byFamily (es : List Instrumentation) : List Instrumentation :=
  let families := es.foldl (fun m e => m.insertWith (· ++ ·) (family e.name) [e]) TextMap.empty
  families.entries.flatMap fun f => sortByName f.2

/-- The link definitions that a table of libraries needs. -/
def libraryLinks (es : List Instrumentation) : Text :=
  match linkDefinitions (TextSet.ofList (es.flatMap conventions)) with
  | [] => []
  | ds => '\n' :: ds.flatMap fun d => d ++ ['\n']

/-- The table of supported libraries. -/
def librariesTable (es : List Instrumentation) (version : Text) : Text :=
  let es := byFamily es
  librariesHeader ++ es.flatMap libraryRow ++ '\n' :: standaloneFootnote ++ libraryLinks es ++
    footer version

/-! ## Application servers -/

def serversHeader : Text :=
  ("| Application Server | Versions |\n" ++ "|--------------------|----------|\n").toList

def noServers : Text := "No application servers documented.\n".toList

/-- What the names of application servers have in them. -/
def serverNames : List String := ["tomcat", "jetty", "websphere", "wildfly", "undertow", "glassfish"]

/-- Whether a module is of an application server. -/
def isServer (name : Text) : Bool :=
  let name := name.toLower
  serverNames.any fun s => name.includes s.toList

/-- The row of an application server. -/
def serverRow (e : Instrumentation) : Text := row [e.displayName, agentVersionsCell e]

/-- The table of application servers. -/
def serversTable (es : List Instrumentation) (version : Text) : Text :=
  match es.filter fun e => isServer e.name with
  | [] => noServers
  | servers => serversHeader ++ (sortByName servers).flatMap serverRow ++ footer version

/-! ## Disable list -/

def disableHeader : Text :=
  ("| Library/Framework | Instrumentation name |\n" ++
    "| ----------------- | -------------------- |\n").toList

/-- Names that cannot be disabled. -/
def undisableable : List String := ["resources", "spring-boot-resources"]

/-- Names that are disabled under another name. -/
def disabledAs : List (String × String) := [("akka-actor-fork-join", "akka-actor")]

/-- Drops a version at the end of a name: a dash, a digit and what follows on the
line, if it is the last. -/
def withoutVersion : Text → Text
  | [] => []
  | c :: r =>
    if c = '-' ∧ (r.head?.any Char.isDigit) ∧ !r.contains '\n' then [] else c :: withoutVersion r

/-- The name under which a module is disabled, if it can be. -/
def disableName? (name : Text) : Option Text :=
  let bare := withoutVersion name
  if undisableable.any fun n => n.toList = bare then none
  else
    match disabledAs.find? fun e => e.1.toList = bare with
    | some e => some e.2.toList
    | none => some bare

/-- The row of a name. -/
def disableRow (name : Text) : Text := row [shownName name, '`' :: name ++ ['`']]

/-- The disable list of module names. -/
def disableTable (names : List Text) (version : Text) : Text :=
  disableHeader ++ (TextSet.ofList (names.filterMap disableName?)).toList.flatMap disableRow ++
    footer version

/-! ## All fragments -/

/-- The text of a fragment. -/
def render (f : Fragment) (es : List Instrumentation) (version : Text) : Text :=
  match f with
  | supportedLibraries => librariesTable es version
  | appServers => serversTable es version
  | disableList => disableTable (es.map Instrumentation.name) version

end Fragment

end ModuleDocs

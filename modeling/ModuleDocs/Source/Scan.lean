import ModuleDocs.Source.Property
import ModuleDocs.Path
import ModuleDocs.Text.Utf8

/-!
# Scanning the sources of a module

Two scans go over a module's source files in order. `scanMarkers` looks for
literals that reveal a capability and remembers the first file of each tag;
`scanProperties` collects the settings the files declare or use. A file that
cannot be opened takes no part in either.
-/

namespace ModuleDocs

namespace Source

/-- Capabilities, and the literal that reveals each. -/
def semanticMarkers : List (Text × Text) := [
  ("db_client_metrics".toList, "DbClientMetrics.get()".toList),
  ("db_client_spans".toList, "DbClientSpanNameExtractor".toList),
  ("network_attributes".toList, "NetworkAttributesGetter".toList),
  ("rpc_attributes".toList, "RpcAttributesGetter".toList),
  ("http_client_attributes".toList, "HttpClientAttributesGetter".toList),
  ("http_server_attributes".toList, "HttpServerAttributesGetter".toList)]

/-- Span kinds, and the call that produces each. -/
def spanKindMarkers : List (Text × Text) := [
  ("CLIENT".toList, "JavaagentHttpClientInstrumenters.create".toList),
  ("SERVER".toList, "JavaagentHttpServerInstrumenters.create".toList)]

/-- What a getter of the experimental settings is called on. -/
def experimentalAccessor : Text := "ExperimentalConfig.get().".toList

/-- Opens source files: the bytes of a file, if it can be opened. -/
abbrev Reader := Path → Option ByteArray

/-- Enters a file for the tags that a line reveals and that have none yet. -/
def markLine (markers : List (Text × Text)) (file : Path) (found : TextMap Path) (line : Text) :
    TextMap Path :=
  markers.foldl (fun found m => if line.includes m.2 then found.insertIfNew m.1 file else found)
    found

/-- Goes over files until every tag of the table has one. -/
def scanMarkersFrom (open_ : Reader) (markers : List (Text × Text)) :
    TextMap Path → List Path → TextMap Path
  | found, [] => found
  | found, file :: rest =>
    if found.size = markers.length then found
    else
      match open_ file with
      | none => scanMarkersFrom open_ markers found rest
      | some bytes =>
        scanMarkersFrom open_ markers
          ((Text.decodedLines bytes).foldl (markLine markers file) found) rest

/-- The first file that reveals each tag. A file counts as far as it is text. -/
def scanMarkers (open_ : Reader) (files : List Path) (markers : List (Text × Text)) :
    TextMap Path :=
  scanMarkersFrom open_ markers .empty files

/-- Adds a property unless one of its name is there. -/
def addProperty (properties : List ConfigurationProperty) (p : ConfigurationProperty) :
    List ConfigurationProperty :=
  if properties.any fun q => q.name = p.name then properties else properties ++ [p]

/-- The settings that the text of one file declares or uses. -/
def propertiesOf (experimental : TextMap ConfigurationProperty) (content : Text) :
    List ConfigurationProperty :=
  configFields content ++ experimental.entries.filterMap fun e =>
    if content.includes (experimentalAccessor ++ e.1) then some e.2 else none

/-- The settings of a list of files, the first of each name. -/
def scanProperties (open_ : Reader) (files : List Path)
    (experimental : TextMap ConfigurationProperty) : List ConfigurationProperty :=
  files.foldl (fun found file =>
    match (open_ file).bind Text.decode? with
    | none => found
    | some content => (propertiesOf experimental content).foldl addProperty found) []

end Source

end ModuleDocs

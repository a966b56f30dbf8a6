import ModuleDocs.Text.LetterCase
import ModuleDocs.Text.Sorted

/-!
# Semantic conventions

A convention identifier such as `HTTP_CLIENT_SPANS` is shown as a reference
`[HTTP Client Spans]`. The conventions that have a page get a link definition for
it, so that the reference leads there.
-/

namespace ModuleDocs

namespace Fragment

/-- Where the pages of the conventions are served. -/
def conventionSite : Text := "/docs/specs/semconv/".toList

/-- The conventions that have a page, with the source of that page. -/
def conventionPages : List (String × String) := [
  ("DATABASE_CLIENT_METRICS", "database/database-metrics.md"),
  ("DATABASE_CLIENT_SPANS", "database/database-spans.md"),
  ("DATABASE_POOL_METRICS", "database/database-metrics.md#connection-pools"),
  ("DB_CLIENT_METRICS", "database/database-metrics.md"),
  ("DB_CLIENT_SPANS", "database/database-spans.md"),
  ("FAAS_SERVER_SPANS", "faas/faas-spans.md"),
  ("GENAI_CLIENT_METRICS", "gen-ai/gen-ai-metrics.md"),
  ("GENAI_CLIENT_SPANS", "gen-ai/gen-ai-spans.md"),
  ("GRAPHQL_SERVER_SPANS", "graphql/graphql-spans.md"),
  ("HTTP_CLIENT_METRICS", "http/http-metrics.md#http-client"),
  ("HTTP_CLIENT_SPANS", "http/http-spans.md#http-client"),
  ("HTTP_SERVER_METRICS", "http/http-metrics.md#http-server"),
  ("HTTP_SERVER_SPANS", "http/http-spans.md#http-server"),
  ("JVM_RUNTIME_METRICS", "runtime/jvm-metrics.md"),
  ("MESSAGING_SPANS", "messaging/messaging-spans.md"),
  ("RPC_CLIENT_METRICS", "rpc/rpc-metrics.md#rpc-client"),
  ("RPC_CLIENT_SPANS", "rpc/rpc-spans.md"),
  ("RPC_SERVER_METRICS", "rpc/rpc-metrics.md#rpc-server"),
  ("RPC_SERVER_SPANS", "rpc/rpc-spans.md")]

/-- The words of an identifier that stay in capitals. -/
def conventionAcronyms : List String := ["HTTP", "RPC", "JVM", "GRPC", "DNS", "DB", "SQL", "URL"]

/-- A word of an identifier as readers see it. -/
def conventionWord (word : Text) : Text :=
  if conventionAcronyms.any fun a => a.toList = word then word else word.toLower.capitalize

/-- The reference to a convention. -/
def conventionReference (convention : Text) : Text :=
  let words := (convention.splitOn '_').filter fun w => !w.isEmpty
  '[' :: List.intercalate [' '] (words.map conventionWord) ++ [']']

/-- The address of a page by its source: the extension becomes a slash. -/
def siteLink (page : Text) : Text :=
  conventionSite ++
    (page.replaceAll ".md#".toList "/#".toList).replaceAll ".md".toList ['/']

/-- The link definition of a convention that has a page. -/
def linkDefinition? (convention : Text) : Option Text :=
  (conventionPages.find? fun e => e.1.toList = convention).map fun e =>
    conventionReference convention ++ ": ".toList ++ siteLink e.2.toList

/-- The link definitions of conventions, in their order. -/
def linkDefinitions (conventions : TextSet) : List Text :=
  conventions.toList.filterMap linkDefinition?

end Fragment

end ModuleDocs

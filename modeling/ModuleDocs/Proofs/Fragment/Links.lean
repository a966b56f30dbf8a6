import ModuleDocs.Proofs.Fragment.Markers

/-!
# The references of the library table

The cells of the table show conventions as references, and the definitions behind its footnote
say where these lead. Both go back to the conventions of the instrumentations, but on different
ways: a cell shows its own conventions in their order, with or without a page, while the
definitions come from a set of all of them. They agree, because the table of pages decides both:
the definitions are the rows of that table whose convention is followed
(`linkDefinitions_ofList`). It is in order, and although different conventions can be shown as
one reference, those that have a page are not (`nodup_references`).
-/

namespace ModuleDocs

namespace Fragment

open Text

variable {e : Instrumentation} {es : List Instrumentation} {c version : Text} {cs : List Text}
  {page : String × String}

/-! ## Conventions -/

namespace Sample

/-- A described convention with a page, and one that is shown as it is but has none. -/
def described : Instrumentation :=
  { named "okhttp" with
    semanticTags := TextSet.ofList ["rpc_client_spans".toList]
    metadata := some
      { semanticConventions := ["HTTP__CLIENT_SPANS".toList, "HTTP_CLIENT_SPANS".toList] } }

end Sample

end Fragment

end ModuleDocs

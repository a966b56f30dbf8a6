import ModuleDocs.Failure

/-!
# Generated regions of a document

A document is written by hand except for its generated regions. A region stands
between a begin and an end marker that name its component and its source:

    <!-- BEGIN-GENERATED: COMPONENT:disable-list SOURCE:some-project -->
    generated content
    <!-- END-GENERATED: COMPONENT:disable-list SOURCE:some-project -->

`Region.find?` finds the region of a marker pair: from the first begin marker to
the first end marker behind it. Only the text between them is ever replaced, and
a region that is missing is never made.
-/

namespace ModuleDocs

/-- What leads to the component and to the source in a marker. -/
structure MarkerStyle where
  component : Text := "COMPONENT:".toList
  source : Text := "SOURCE:".toList
  deriving DecidableEq, Inhabited

/-- The markers of one region. -/
structure MarkerPair where
  opening : Text
  closing : Text
  deriving DecidableEq

namespace MarkerStyle

/-- The markers of a component and a source. -/
def markers (style : MarkerStyle) (component source : Text) : MarkerPair :=
  let name := style.component ++ component ++ ' ' :: style.source ++ source
  { opening := "<!-- BEGIN-GENERATED: ".toList ++ name ++ " -->".toList
    closing := "<!-- END-GENERATED: ".toList ++ name ++ " -->".toList }

end MarkerStyle

/-- A document cut at a region: the text before the begin marker, between the
markers, and behind the end marker. -/
structure Region where
  before : Text
  body : Text
  after : Text
  deriving DecidableEq

namespace Region

/-- The region of a marker pair in a document. -/
def find? (m : MarkerPair) (document : Text) : Option Region := do
  let (before, rest) ← Text.cut? m.opening document
  let (body, after) ← Text.cut? m.closing rest
  pure ⟨before, body, after⟩

/-- The document of a region. -/
def document (r : Region) (m : MarkerPair) : Text :=
  r.before ++ m.opening ++ r.body ++ m.closing ++ r.after

/-- A region that was found puts the document together again. -/
theorem document_of_find? {m : MarkerPair} {d : Text} {r : Region} (h : find? m d = some r) :
    r.document m = d := by
  unfold find? at h
  simp only [bind, Option.bind_eq_some_iff, pure] at h
  obtain ⟨⟨before, rest⟩, h1, ⟨body, after⟩, h2, h3⟩ := h
  cases h3
  have h2 : rest = body ++ m.closing ++ after := Text.cut?_eq_some h2
  simp [document, Text.cut?_eq_some h1, h2]

/-- The region with new content on lines of its own. -/
def fill (r : Region) (content : Text) : Region :=
  { r with body := '\n' :: content.trim ++ ['\n'] }

end Region

/-- Whether a document has the region of a component and a source. -/
def hasRegion (style : MarkerStyle) (document component source : Text) : Bool :=
  (Region.find? (style.markers component source) document).isSome

/-- Why a region was not updated. -/
inductive RegionProblem where
  | noMarkers (component source : Text)
  | noFile (path : Path)
  | notText (path : Path)
  deriving DecidableEq

namespace RegionProblem

/-- The problem in words. -/
def message : RegionProblem → Text
  | noMarkers component source =>
    "Markers not found for component '".toList ++ component ++ "' and source '".toList ++
      source ++ "'".toList
  | noFile p => "File not found: ".toList ++ p.text
  | notText p =>
    "Unable to read ".toList ++ p.text ++ ": stream did not contain valid UTF-8".toList

end RegionProblem

/-- A document after an update, and whether that made a difference. -/
structure Update where
  content : Text
  changed : Bool
  deriving DecidableEq

/-- Replaces what stands in the region of a component and a source. -/
def updateContent (style : MarkerStyle) (document component source content : Text) :
    Except RegionProblem Update :=
  let m := style.markers component source
  match Region.find? m document with
  | none => .error (.noMarkers component source)
  | some r =>
    let updated := (r.fill content).document m
    .ok ⟨updated, updated != document⟩

/-- Replaces what stands in a region of a document in the store; the document is
written only if that makes a difference. -/
def updateFile (store : Store) (style : MarkerStyle) (path : Path)
    (component source content : Text) :
    Except Failure (Except RegionProblem Update × Store) := do
  if !store.isFile path then return (.error (.noFile path), store)
  let document ← (store.readText path).mapError .file
  match updateContent style document component source content with
  | .error p => pure (.error p, store)
  | .ok u =>
    if u.changed then
      let store ← (store.write path (Text.encode u.content)).mapError .file
      pure (.ok u, store)
    else pure (.ok u, store)

end ModuleDocs

import Mathlib.Data.List.Induction
import ModuleDocs.Descriptor.Resolve
import ModuleDocs.Proofs.Text.Keyed

/-!
# The cascade of declarations

The versions of a library module are made in passes over a map of constraints: one
tier of declarations fills it, test libraries lower the pinned constraints, and
latest dependencies widen what is there. Seen from one coordinate each pass is a
question to a list of declarations:

- `get?_foldl_lowerBy`: a pinned version gets the first test library version that
  may stand below it, and a range, once it is there, is left alone;
- `get?_foldl_widenBy`: of the latest dependencies the last one counts, as each of
  them replaces the upper end and keeps the lower one.

So what the map says of a coordinate is settled by the `tier` of the descriptor, the
base version in it and the two ends (`text_get?_libraryVersions`).
-/

namespace ModuleDocs

/-- From `lower` up to but not including `upper`, as it is written. -/
def halfOpen (lower upper : Text) : Text := '[' :: lower ++ ',' :: upper ++ [')']

namespace Descriptor

open TextMap (get?_insert get?_mapValues isEmpty_mapValues lookup_map lookup_filter
  mem_entries_iff get?_foldl_insertIfNew)

/-! ## The specification -/

/-- Where the versions of a library module come from. -/
inductive Tier where
  | library
  | compileOnly
  | testLibrary
  deriving DecidableEq

/-- The tier of a descriptor: the first that declares anything. -/
def tier (s : Text) : Tier :=
  if !(libraryDeclarations s).isEmpty then .library
  else if !(compileOnlyDeclarations s (Exclusions.ofText s)).isEmpty then .compileOnly
  else .testLibrary

/-- The version that a tier's declarations give a coordinate. Of test libraries the
first declaration counts, and those of test artifacts do not. -/
def Tier.base? (s coordinate : Text) : Tier → Option Text
  | library => (libraryDeclarations s).get? coordinate
  | compileOnly => (compileOnlyDeclarations s (Exclusions.ofText s)).get? coordinate
  | testLibrary =>
    if isTestArtifact coordinate then none
    else TextMap.lookup coordinate (testLibraryDeclarations s)

/-- Whether a test library may stand below a version of a coordinate: it differs from
it and is bounded. -/
def lowers (coordinate version : Text) (test : Text × Text) : Bool :=
  test.1 = coordinate ∧ version ≠ test.2 ∧ !test.2.contains '+'

/-- The version of the first test library that may stand below a version. -/
def lowerEnd? (tests : List (Text × Text)) (coordinate version : Text) : Option Text :=
  (tests.find? (lowers coordinate version)).map Prod.snd

/-- Where a coordinate's versions start, if not at the base version: compile-only
versions are lowered. -/
def Tier.lower? (s coordinate base : Text) : Tier → Option Text
  | compileOnly => lowerEnd? (testLibraryDeclarations s) coordinate base
  | _ => none

/-- The version of the last latest dependency of a coordinate. -/
def upper? (s coordinate : Text) : Option Text :=
  TextMap.lookup coordinate (latestDepDeclarations s).reverse

/-- What is written for a coordinate with a base version and the ends that are given. -/
def constraint (base : Text) : Option Text → Option Text → Text
  | none, none => base
  | some lower, none => halfOpen lower base
  | none, some upper => halfOpen base upper
  | some lower, some upper => halfOpen lower upper

variable {s c v : Text} {m : TextMap VersionSpec} {spec : VersionSpec} {t : Text × Text}
  {ts : List (Text × Text)}

/-! ## Lowering -/

/-- A constraint after the test libraries of its coordinate. -/
def lowered (tests : List (Text × Text)) (coordinate : Text) : VersionSpec → VersionSpec
  | .pinned v =>
    match lowerEnd? tests coordinate v with
    | some lower => .range lower v
    | none => .pinned v
  | .range lower upper => .range lower upper

theorem lowered_nil : lowered [] c spec = spec := by
  cases spec <;> rfl

/-- The first test library that lowers a version settles it. -/
theorem lowered_cons : lowered ts c (lowered [t] c spec) = lowered (t :: ts) c spec := by
  cases spec with
  | range lower upper => rfl
  | pinned v => cases h : lowers c v t <;> simp [lowered, lowerEnd?, h]

theorem lowered_of_ne (h : c ≠ t.1) : lowered [t] c spec = spec := by
  cases spec with
  | range lower upper => rfl
  | pinned v => simp [lowered, lowerEnd?, lowers, Ne.symm h]

theorem get?_lowerBy : (lowerBy m t).get? c = (m.get? c).map (lowered [t] c) := by
  by_cases hc : c = t.1
  · subst hc
    cases hm : m.get? t.1 with
    | none => simp [lowerBy, hm]
    | some spec =>
      cases spec with
      | range lower upper => simp [lowerBy, hm, lowered]
      | pinned v =>
        have hiff : (v ≠ t.2 ∧ (!t.2.contains '+') = true) ↔ lowers t.1 v t = true := by
          simp [lowers]
        simp only [lowerBy, hm, hiff]
        cases h : lowers t.1 v t with
        | true => simp [get?_insert, lowered, lowerEnd?, h]
        | false => simp [hm, lowered, lowerEnd?, h]
  · -- another coordinate keeps its constraint
    have hid : lowered [t] c = id := funext fun _ => lowered_of_ne hc
    rw [hid, Option.map_id, id]
    unfold lowerBy
    split
    · split
      · rw [get?_insert, if_neg hc]
      · rfl
    · rfl

theorem get?_foldl_lowerBy : (ts.foldl lowerBy m).get? c = (m.get? c).map (lowered ts c) := by
  induction ts generalizing m with
  | nil =>
    have hid : lowered [] c = id := funext fun _ => lowered_nil
    rw [List.foldl_nil, hid, Option.map_id, id]
  | cons t ts ih =>
    rw [List.foldl_cons, ih, get?_lowerBy, Option.map_map]
    exact Option.map_congr fun spec _ => lowered_cons

/-! ## Widening -/

/-- A constraint after the latest dependencies of its coordinate. -/
def widened (latest : List (Text × Text)) (coordinate : Text) (spec : VersionSpec) :
    VersionSpec :=
  match TextMap.lookup coordinate latest.reverse with
  | some upper => spec.widen upper
  | none => spec

theorem get?_widenBy : (widenBy m t).get? c =
    (m.get? c).map fun spec => if c = t.1 then spec.widen t.2 else spec := by
  unfold widenBy
  cases hm : m.get? t.1 with
  | none =>
    by_cases hc : c = t.1
    · rw [hc, hm, Option.map_none]
    · simp [hc]
  | some spec =>
    rw [get?_insert]
    by_cases hc : c = t.1
    · simp [hc, hm]
    · simp [hc]

/-- The last latest dependency of a coordinate settles the upper end. -/
theorem widened_append : widened (ts ++ [t]) c spec =
    if c = t.1 then (widened ts c spec).widen t.2 else widened ts c spec := by
  unfold widened
  rw [List.reverse_append, List.reverse_singleton, List.singleton_append, TextMap.lookup]
  by_cases hc : c = t.1
  · rw [if_pos hc, if_pos hc]
    cases TextMap.lookup c ts.reverse <;> rfl
  · rw [if_neg hc, if_neg hc]

theorem get?_foldl_widenBy : (ts.foldl widenBy m).get? c = (m.get? c).map (widened ts c) := by
  induction ts using List.reverseRecOn with
  | nil =>
    have hid : widened [] c = id := rfl
    rw [List.foldl_nil, hid, Option.map_id, id]
  | append_singleton ts t ih =>
    rw [List.foldl_append, List.foldl_cons, List.foldl_nil, get?_widenBy, ih, Option.map_map]
    exact Option.map_congr fun spec _ => widened_append.symm

/-! ## The whole cascade -/

theorem isEmpty_foldl_lowerBy : (ts.foldl lowerBy m).isEmpty = m.isEmpty := by
  rw [Bool.eq_iff_iff, TextMap.isEmpty_iff, TextMap.isEmpty_iff]
  simp only [get?_foldl_lowerBy, Option.map_eq_none_iff]

/-- What a lowered and widened version reads. -/
theorem text_widened_lowered (tests latest : List (Text × Text)) :
    (widened latest c (lowered tests c (.pinned v))).text =
      constraint v (lowerEnd? tests c v) (TextMap.lookup c latest.reverse) := by
  cases hlower : lowerEnd? tests c v <;> cases hupper : TextMap.lookup c latest.reverse <;>
    simp only [widened, lowered, hlower, hupper] <;> rfl

theorem text_widened {latest : List (Text × Text)} :
    (widened latest c (.pinned v)).text =
      constraint v none (TextMap.lookup c latest.reverse) :=
  text_widened_lowered [] latest

variable {e : Exclusions}

theorem libraryVersions_of_library (h : (libraryDeclarations s).isEmpty = false) :
    libraryVersions s e = (latestDepDeclarations s).foldl widenBy
      ((libraryDeclarations s).mapValues fun _ v => .pinned v) := by
  simp [libraryVersions, isEmpty_mapValues, h]

theorem libraryVersions_of_compileOnly (h : (libraryDeclarations s).isEmpty = true)
    (hc : (compileOnlyDeclarations s e).isEmpty = false) :
    libraryVersions s e = (latestDepDeclarations s).foldl widenBy
      ((testLibraryDeclarations s).foldl lowerBy
        ((compileOnlyDeclarations s e).mapValues fun _ v => .pinned v)) := by
  simp [libraryVersions, isEmpty_mapValues, isEmpty_foldl_lowerBy, h, hc]

/-- Without library and compile-only declarations the map starts out empty. -/
theorem libraryVersions_of_testLibrary (h : (libraryDeclarations s).isEmpty = true)
    (hc : (compileOnlyDeclarations s e).isEmpty = true) :
    (libraryVersions s e).get? c =
      ((if isTestArtifact c then none else TextMap.lookup c (testLibraryDeclarations s)).map
        VersionSpec.pinned).map (widened (latestDepDeclarations s) c) := by
  have hnone : ((testLibraryDeclarations s).foldl lowerBy
      ((compileOnlyDeclarations s e).mapValues fun _ v => .pinned v)).get? c = none :=
    TextMap.isEmpty_iff.mp (by rw [isEmpty_foldl_lowerBy, isEmpty_mapValues, hc]) c
  have hmap (m : TextMap VersionSpec) (ds : List (Text × Text)) :
      ds.foldl (fun m d => m.insertIfNew d.1 (.pinned d.2)) m =
        (ds.map fun d => (d.1, VersionSpec.pinned d.2)).foldl
          (fun m d => m.insertIfNew d.1 d.2) m := by
    rw [List.foldl_map]
  simp only [libraryVersions, isEmpty_mapValues, isEmpty_foldl_lowerBy, h, hc, if_true,
    get?_foldl_widenBy, hmap, get?_foldl_insertIfNew, hnone, Option.none_or]
  rw [lookup_map (f := fun _ v => VersionSpec.pinned v),
    lookup_filter (p := fun c => !isTestArtifact c)]
  cases isTestArtifact c <;> rfl

/-- **The cascade** gives a coordinate what the specification says. -/
theorem text_get?_libraryVersions :
    ((libraryVersions s (Exclusions.ofText s)).get? c).map VersionSpec.text =
      ((tier s).base? s c).map fun v => constraint v ((tier s).lower? s c v) (upper? s c) := by
  unfold tier
  cases hl : (libraryDeclarations s).isEmpty with
  | false =>
    rw [libraryVersions_of_library hl, get?_foldl_widenBy, get?_mapValues, Option.map_map,
      Option.map_map]
    exact Option.map_congr fun v _ => text_widened
  | true =>
    cases hc : (compileOnlyDeclarations s (Exclusions.ofText s)).isEmpty with
    | false =>
      rw [libraryVersions_of_compileOnly hl hc, get?_foldl_widenBy, get?_foldl_lowerBy,
        get?_mapValues, Option.map_map, Option.map_map, Option.map_map]
      exact Option.map_congr fun v _ => text_widened_lowered _ _
    | true =>
      rw [libraryVersions_of_testLibrary hl hc, Option.map_map, Option.map_map]
      exact Option.map_congr fun v _ => text_widened

/-- **What a library module supports.** Its versions are those of the coordinates of one
tier: of the library declarations if there is one, else of the compile-only
declarations outside the excluded ranges if there is one, else of the test libraries
that are no test artifacts. A version is written with a lower end if it is a
compile-only version and a test library may stand below it, and with the upper end of
the last latest dependency if there is one. So beside a library declaration the
compile-only declarations and test libraries have no influence. -/
theorem versions_of_library_module :
    (∀ s x, x ∈ (resolve s .library).versions ↔
      ∃ c v, (tier s).base? s c = some v ∧
        x = interpolate (c ++ ':' :: constraint v ((tier s).lower? s c v) (upper? s c))
          (declaredVariables s)) ∧
    ∀ s s', (libraryDeclarations s).isEmpty = false →
      libraryDeclarations s' = libraryDeclarations s →
      latestDepDeclarations s' = latestDepDeclarations s →
      declaredVariables s' = declaredVariables s →
      (resolve s' .library).versions = (resolve s .library).versions := by
  constructor
  · intro s x
    rw [resolve, TextSet.mem_ofList, List.mem_map]
    constructor
    · intro h
      obtain ⟨⟨c, spec⟩, hmem, hx⟩ := h
      have hspec := text_get?_libraryVersions (s := s) (c := c)
      rw [mem_entries_iff.mp hmem, Option.map_some] at hspec
      obtain ⟨v, hv, htext⟩ := Option.map_eq_some_iff.mp hspec.symm
      exact ⟨c, v, hv, by rw [htext, ← hx]⟩
    · intro h
      obtain ⟨c, v, hv, hx⟩ := h
      have hspec := text_get?_libraryVersions (s := s) (c := c)
      rw [hv, Option.map_some] at hspec
      obtain ⟨spec, hget, htext⟩ := Option.map_eq_some_iff.mp hspec
      exact ⟨(c, spec), mem_entries_iff.mpr hget, by rw [htext, ← hx]⟩
  · intro s s' h hlibrary hlatest hvariables
    rw [resolve, resolve, libraryVersions_of_library h,
      libraryVersions_of_library (hlibrary.symm ▸ h), hlibrary, hlatest, hvariables]

/-! ## A descriptor that declares in every tier -/

namespace Sample

/-- A library with a variable as its version and a latest dependency. -/
def descriptor : Text :=
  "val v = \"1\"\nlibrary(\"g:a:$v\")\nlatestDepTestLibrary(\"g:a:2\")\n".toList

/-- The same with declarations that a library sets aside. -/
def descriptorBeside : Text :=
  descriptor ++ "compileOnly(\"g:b:3\")\ntestLibrary(\"g:a:0\")\n".toList

theorem libraryDeclarations_descriptor : (libraryDeclarations descriptor).isEmpty = false := by
  decide +kernel

theorem libraryDeclarations_descriptorBeside :
    libraryDeclarations descriptorBeside = libraryDeclarations descriptor := by
  have h : (libraryDeclarations descriptorBeside).entries =
      (libraryDeclarations descriptor).entries := by decide +kernel
  exact TextMap.eq_of_entries_eq h

end Sample

/-- The version of the library and the upper end of its latest dependency; the other
declarations are there and do not show. -/
theorem versions_of_library_module_sample :
    (compileOnlyDeclarations Sample.descriptorBeside
        (Exclusions.ofText Sample.descriptorBeside)).isEmpty = false ∧
      testLibraryDeclarations Sample.descriptorBeside ≠ [] ∧
      "g:a:[1,2)".toList ∈ (resolve Sample.descriptor .library).versions ∧
      (resolve Sample.descriptorBeside .library).versions =
        (resolve Sample.descriptor .library).versions := by
  refine ⟨by decide +kernel, by decide +kernel, ?_, ?_⟩
  · refine (versions_of_library_module.1 _ _).mpr ⟨"g:a".toList, "$v".toList, ?_, ?_⟩
    · decide +kernel
    · decide +kernel
  · exact versions_of_library_module.2 _ _ Sample.libraryDeclarations_descriptor
      Sample.libraryDeclarations_descriptorBeside (by decide +kernel) (by decide +kernel)

end Descriptor

end ModuleDocs

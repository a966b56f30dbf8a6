import ModuleDocs.Descriptor.Declaration
import ModuleDocs.Descriptor.Variable
import ModuleDocs.Module.Directory

/-!
# What a descriptor says about versions

An agent module names the versions it supports in its `muzzle` passes. A library
module has no such block; its versions come from its declarations, by the first
tier that has any: `library`, then `compileOnly`, then those of `testLibrary`
that are not test artifacts. A compile-only version becomes the upper end of a
range if a test library starts lower, and a `latestDepTestLibrary` declaration
sets the upper end for any tier.
-/

namespace ModuleDocs

/-- The versions a descriptor supports, and the platform it needs. -/
structure DependencyInfo where
  /-- Texts `group:artifact:version`, or `Java N+` for the core platform. -/
  versions : TextSet
  minJavaVersion : Option Nat
  deriving DecidableEq

/-- A version constraint. -/
inductive VersionSpec where
  | pinned (version : Text)
  /-- From `lower` up to but not including `upper`. -/
  | range (lower upper : Text)
  deriving DecidableEq

namespace VersionSpec

/-- The constraint as it is written. -/
def text : VersionSpec → Text
  | pinned v => v
  | range lower upper => '[' :: lower ++ ',' :: upper ++ [')']

/-- The version a constraint starts at. -/
def lower : VersionSpec → Text
  | pinned v => v
  | range l _ => l

/-- Sets the upper end. -/
def widen (spec : VersionSpec) (upper : Text) : VersionSpec := range spec.lower upper

end VersionSpec

namespace Descriptor

/-- The platform version of a core pass when the descriptor names none. -/
def defaultMinJavaVersion : Nat := 8

/-- The value of a decimal numeral of ASCII digits below 2³². -/
def smallNumber? (s : Text) : Option Nat :=
  if s ≠ [] ∧ s.all Char.isDigit then
    let n := s.foldl (fun n c => 10 * n + (c.toNat - '0'.toNat)) 0
    if n < 4294967296 then some n else none
  else none

/-- Reads a platform version directive. -/
def minJavaDirective : Recogniser Text := fun before s => do
  let rest ← Text.keyword? "minJavaVersionSupported.set(JavaVersion.VERSION_".toList before s
  let (digits, rest) ← Text.run? Text.isDecimal rest
  pure (digits, ← Text.after? [')'] rest)

/-- The platform version of the first `otelJava` block that starts outside the
excluded ranges and names one. -/
def minJavaVersionOutside (s : Text) (excluded : Exclusions) : Option Nat :=
  ((blocks "otelJava".toList s).filter fun b => !excluded.covers b.start).findSome? fun b =>
    (Text.firstHit? minJavaDirective b.body).bind smallNumber?

/-- The platform version a descriptor needs. -/
def minJavaVersion (s : Text) : Option Nat := minJavaVersionOutside s (Exclusions.ofText s)

/-- The version that one `pass` block supports. -/
def passVersion? (bindings : List (Text × Text)) (minJava : Option Nat) (body : Text) :
    Option Text :=
  match Text.firstHit? (fun before s =>
      (Text.keyword? "coreJdk()".toList before s).map fun rest => ((), rest)) body with
  | some () =>
    some ("Java ".toList ++ Text.ofNat (minJava.getD defaultMinJavaVersion) ++ ['+'])
  | none => do
    let group ← Text.firstHit? (call "group.set".toList) body
    let module ← Text.firstHit? (call "module.set".toList) body
    let range ← Text.firstHit? (call "versions.set".toList) body
    pure (group ++ ':' :: module ++ ':' :: interpolate range bindings)

/-- The versions of an agent module. -/
def muzzleVersions (s : Text) (bindings : List (Text × Text)) (minJava : Option Nat) : TextSet :=
  TextSet.ofList ((blocks "muzzle".toList s).flatMap fun muzzle =>
    (blocks "pass".toList muzzle.body).filterMap fun pass =>
      passVersion? bindings minJava pass.body)

/-- Makes a test library version the lower end of a pinned compile-only version
that differs from it. -/
def lowerBy (specs : TextMap VersionSpec) (test : Text × Text) : TextMap VersionSpec :=
  match specs.get? test.1 with
  | some (.pinned current) =>
    if current ≠ test.2 ∧ !test.2.contains '+' then
      specs.insert test.1 (.range test.2 current)
    else specs
  | _ => specs

/-- Sets the upper end of a coordinate that has a version. -/
def widenBy (specs : TextMap VersionSpec) (latest : Text × Text) : TextMap VersionSpec :=
  match specs.get? latest.1 with
  | some spec => specs.insert latest.1 (spec.widen latest.2)
  | none => specs

/-- The version constraints of a library module's coordinates. -/
def libraryVersions (s : Text) (excluded : Exclusions) : TextMap VersionSpec :=
  let pinned (m : TextMap Text) := m.mapValues fun _ v => VersionSpec.pinned v
  let tests := testLibraryDeclarations s
  let declared := pinned (libraryDeclarations s)
  let declared :=
    if declared.isEmpty then tests.foldl lowerBy (pinned (compileOnlyDeclarations s excluded))
    else declared
  let declared :=
    if declared.isEmpty then
      (tests.filter fun d => !isTestArtifact d.1).foldl
        (fun m d => m.insertIfNew d.1 (VersionSpec.pinned d.2)) declared
    else declared
  (latestDepDeclarations s).foldl widenBy declared

/-- What a descriptor says about a module of the given kind. -/
def resolve (s : Text) (kind : ModuleKind) : DependencyInfo :=
  let excluded := Exclusions.ofText s
  let bindings := declaredVariables s
  let minJava := minJavaVersionOutside s excluded
  { versions :=
      match kind with
      | .agent => muzzleVersions s bindings minJava
      | .library => TextSet.ofList ((libraryVersions s excluded).entries.map fun e =>
          interpolate (e.1 ++ ':' :: e.2.text) bindings)
    minJavaVersion := minJava }

end Descriptor

end ModuleDocs

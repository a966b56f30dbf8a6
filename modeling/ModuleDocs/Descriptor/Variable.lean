import ModuleDocs.Text.Hit
import ModuleDocs.Text.Sorted

/-!
# Variables of a descriptor

A descriptor may name a version once, `val v = "1.0"`, and refer to it as
`$v` or `${v}` in its declarations. References are replaced one name after the
other, longer names first, so that a name never eats into a longer one that
starts with it.
-/

namespace ModuleDocs

namespace Descriptor

/-- Reads `val name = "value"` or the same with `var`. -/
def variableDeclaration : Recogniser (Text × Text) := fun before s => do
  let rest ← (Text.keyword? "val".toList before s).orElse fun _ =>
    Text.keyword? "var".toList before s
  let (name, rest) ← Text.word? (← Text.spaces? rest)
  let rest ← Text.after? ['='] rest.trimStart
  let rest ← Text.after? ['"'] rest.trimStart
  let (value, rest) := rest.span (· != '"')
  pure ((name, value), ← Text.after? ['"'] rest)

/-- The variables of a descriptor with the last value of each, longer names
before shorter ones and equally long ones in order. -/
def declaredVariables (s : Text) : List (Text × Text) :=
  (TextMap.ofList ((Text.hits variableDeclaration s).map Hit.value)).entries.mergeSort
    fun a b => b.1.byteLength ≤ a.1.byteLength

/-- Replaces the references to one variable, the braced ones first. -/
def substitute (s : Text) (binding : Text × Text) : Text :=
  (s.replaceAll ('$' :: '{' :: binding.1 ++ ['}']) binding.2).replaceAll
    ('$' :: binding.1) binding.2

/-- Replaces the references to variables, one variable after the other. -/
def interpolate (s : Text) (bindings : List (Text × Text)) : Text :=
  if s.contains '$' then bindings.foldl substitute s else s

end Descriptor

end ModuleDocs

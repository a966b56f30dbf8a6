import ModuleDocs.Descriptor.Block

/-!
# Excluded ranges

What stands in an `if (…) { … }` or a `testing { … }` block of a descriptor does
not hold for every build. The ranges of these blocks are excluded: a declaration
that starts in one of them is not read.
-/

namespace ModuleDocs

namespace Descriptor

/-- Byte ranges, each from its first offset up to but not including its second. -/
abbrev Exclusions := List (Nat × Nat)

namespace Exclusions

/-- The range of the conditional block that starts at a hit of `if (`. -/
def conditional? (h : Hit Unit) : Option (Nat × Nat) := do
  let (condition, rest) ← parenthesised? h.rest
  let braceAndBody := rest.trimStart
  let (body, _) ← braced? (← Text.after? ['{'] braceAndBody)
  let space := Text.byteLength rest - Text.byteLength braceAndBody
  pure (h.start, h.stop + Text.byteLength condition + 1 + space + 1 + Text.byteLength body + 1)

/-- The excluded ranges of a descriptor: conditional blocks, then testing
blocks, each kind in the order of the text. -/
def ofText (s : Text) : Exclusions :=
  (Text.hits (opener "if".toList '(') s).filterMap conditional? ++
    (blocks "testing".toList s).map fun b => (b.start, b.stop)

/-- Whether an offset lies in an excluded range. -/
def covers (e : Exclusions) (offset : Nat) : Bool :=
  e.any fun r => r.1 ≤ offset && offset < r.2

end Exclusions

end Descriptor

end ModuleDocs

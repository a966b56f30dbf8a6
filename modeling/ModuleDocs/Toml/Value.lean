import ModuleDocs.Decimal.Binary64

/-!
# TOML values

The values of a TOML document: scalars, arrays, and tables whose keys differ.
-/

namespace ModuleDocs

namespace Toml

/-- A TOML value. -/
inductive Value where
  | string (s : Text)
  | integer (n : Int)
  | float (x : Binary64)
  | boolean (b : Bool)
  /-- A date, a time, or both, as written. -/
  | dateTime (s : Text)
  | array (items : List Value)
  | table (entries : List (Text × Value))
  deriving Inhabited

end Toml

end ModuleDocs

import ModuleDocs.Decimal.Binary64

/-!
# YAML values

The values that a YAML document can hold once its anchors are resolved. A
mapping keeps its entries in the order they were written, and a value may carry a
tag of its own.
-/

namespace ModuleDocs

namespace Yaml

/-- A number: an integer, or a binary number if it was written with a point or
an exponent. -/
inductive Number where
  | integer (n : Int)
  | float (x : Binary64)
  deriving DecidableEq, Inhabited

/-- A YAML value. -/
inductive Value where
  | null
  | bool (b : Bool)
  | number (n : Number)
  | string (s : Text)
  | sequence (items : List Value)
  | mapping (entries : List (Value × Value))
  | tagged (tag : Text) (value : Value)
  deriving Inhabited

namespace Value

mutual

/-- Whether two values are the same. -/
def same : Value → Value → Bool
  | null, null => true
  | bool a, bool b => a == b
  | number a, number b => a == b
  | string a, string b => a == b
  | sequence as, sequence bs => sameItems as bs
  | mapping as, mapping bs => sameEntries as bs
  | tagged t a, tagged u b => t == u && same a b
  | _, _ => false

def sameItems : List Value → List Value → Bool
  | [], [] => true
  | a :: as, b :: bs => same a b && sameItems as bs
  | _, _ => false

def sameEntries : List (Value × Value) → List (Value × Value) → Bool
  | [], [] => true
  | (k, v) :: as, (l, w) :: bs => same k l && same v w && sameEntries as bs
  | _, _ => false

end

/-- A mapping with texts for keys. -/
def record (entries : List (Text × Value)) : Value :=
  mapping (entries.map fun e => (string e.1, e.2))

/-- A sequence of texts. -/
def strings (items : List Text) : Value := sequence (items.map string)

end Value

end Yaml

end ModuleDocs

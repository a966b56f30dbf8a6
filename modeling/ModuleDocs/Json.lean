import ModuleDocs.Yaml.Value

/-!
# JSON texts

A JSON value and its two layouts: `compact` on one line, `pretty` with one item
to a line. The members of an object keep their order.

A YAML value is also one of JSON if the keys of its mappings are scalars other
than null (`ofYaml?`). A number that is not finite becomes null.
-/

namespace ModuleDocs

/-- A JSON value. -/
inductive Json where
  | null
  | bool (b : Bool)
  | integer (n : Int)
  | float (x : Binary64)
  | string (s : Text)
  | array (items : List Json)
  | object (members : List (Text × Json))
  deriving Inhabited

namespace Json

/-- A positive exponent has its sign, and every exponent two digits. -/
def numerals : NumeralStyle := ⟨['+'], 2⟩

/-- The lower case hexadecimal digit of a number below sixteen. -/
def hexDigit (n : Nat) : Char := Nat.digitChar n

/-- A character inside quotes. The quote, the backslash and control characters
are escaped, all else stands for itself. -/
def escape (c : Char) : Text :=
  if c = '"' then ['\\', '"']
  else if c = '\\' then ['\\', '\\']
  else if c.toNat = 8 then ['\\', 'b']
  else if c.toNat = 9 then ['\\', 't']
  else if c.toNat = 10 then ['\\', 'n']
  else if c.toNat = 12 then ['\\', 'f']
  else if c.toNat = 13 then ['\\', 'r']
  else if c.toNat < 32 then
    ['\\', 'u', '0', '0', hexDigit (c.toNat / 16), hexDigit (c.toNat % 16)]
  else [c]

/-- A text in quotes. -/
def quote (s : Text) : Text := '"' :: s.flatMap escape ++ ['"']

/-- An integer in decimal. -/
def integerText (n : Int) : Text :=
  if n < 0 then '-' :: Text.ofNat n.natAbs else Text.ofNat n.natAbs

/-- A number; one that is not finite is null. -/
def floatText : Binary64 → Text
  | .finite negative m q => numerals.finiteText negative m q
  | _ => "null".toList

mutual

/-- A value on one line, without spaces. -/
def compact : Json → Text
  | null => "null".toList
  | bool b => if b then "true".toList else "false".toList
  | integer n => integerText n
  | float x => floatText x
  | string s => quote s
  | array items => '[' :: List.intercalate [','] (compactItems items) ++ [']']
  | object members => '{' :: List.intercalate [','] (compactMembers members) ++ ['}']

def compactItems : List Json → List Text
  | [] => []
  | v :: r => compact v :: compactItems r

def compactMembers : List (Text × Json) → List Text
  | [] => []
  | (k, v) :: r => (quote k ++ ':' :: compact v) :: compactMembers r

end

/-- A line end and the spaces that start the next line. -/
def newline (indent : Nat) : Text := '\n' :: List.replicate indent ' '

/-- Parts between brackets, one to a line; without parts the brackets touch. -/
def bracketed (opener closer : Char) (indent : Nat) (parts : List Text) : Text :=
  if parts = [] then [opener, closer]
  else opener :: newline (indent + 2) ++ List.intercalate (',' :: newline (indent + 2)) parts ++
    newline indent ++ [closer]

mutual

/-- A value with one item to a line, inside text indented by `indent`. -/
def indented (indent : Nat) : Json → Text
  | array items => bracketed '[' ']' indent (indentedItems (indent + 2) items)
  | object members => bracketed '{' '}' indent (indentedMembers (indent + 2) members)
  | null => "null".toList
  | bool b => if b then "true".toList else "false".toList
  | integer n => integerText n
  | float x => floatText x
  | string s => quote s

def indentedItems (indent : Nat) : List Json → List Text
  | [] => []
  | v :: r => indented indent v :: indentedItems indent r

def indentedMembers (indent : Nat) : List (Text × Json) → List Text
  | [] => []
  | (k, v) :: r => (quote k ++ ':' :: ' ' :: indented indent v) :: indentedMembers indent r

end

/-- A value with one item to a line. -/
def pretty (v : Json) : Text := indented 0 v

/-! ## From YAML -/

/-- The text of a scalar used as a key. -/
def keyText? : Yaml.Value → Option Text
  | .string s => some s
  | .bool b => some (if b then "true".toList else "false".toList)
  | .number (.integer n) => some (integerText n)
  | .number (.float (.finite negative m q)) => some (numerals.finiteText negative m q)
  | _ => none

mutual

/-- The value as one of JSON. A tag becomes the key of an object of one member. -/
def ofYaml? : Yaml.Value → Option Json
  | .null => some null
  | .bool b => some (bool b)
  | .number (.integer n) => some (integer n)
  | .number (.float x) => some (float x)
  | .string s => some (string s)
  | .sequence items => (ofItems? items).map array
  | .mapping entries => (ofEntries? entries).map object
  | .tagged tag v => (ofYaml? v).map fun v => object [('!' :: tag, v)]

def ofItems? : List Yaml.Value → Option (List Json)
  | [] => some []
  | v :: r => do pure ((← ofYaml? v) :: (← ofItems? r))

def ofEntries? : List (Yaml.Value × Yaml.Value) → Option (List (Text × Json))
  | [] => some []
  | (k, v) :: r => do pure ((← keyText? k, ← ofYaml? v) :: (← ofEntries? r))

end

end Json

end ModuleDocs

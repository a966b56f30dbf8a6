import ModuleDocs.Toml.Scalar

/-!
# TOML documents

A document is a list of entries and headers. A header `[a.b]` opens a table and a
header `[[a.b]]` appends one to an array of tables; entries go to the table opened
last. Keys may be dotted, which makes the tables on the way.

A table is opened by a header at most once, a table that dotted keys made not at
all, and dotted keys do not add to one that a header opened. While the document is
read, `Tree` remembers how each table came about.
-/

namespace ModuleDocs

namespace Toml

/-- How a table came about. -/
inductive Origin where
  /-- On the way to a table that a header opened. -/
  | onTheWay
  | dottedKey
  | header
  deriving DecidableEq

/-- What a key holds while the document is read. -/
inductive Tree where
  /-- A value that is complete. -/
  | leaf (v : Value)
  | table (origin : Origin) (entries : List (Text × Tree))
  /-- An array of tables that headers append to. -/
  | tables (items : List (List (Text × Tree)))
  deriving Inhabited

/-- The entries of a table while the document is read. -/
abbrev Entries := List (Text × Tree)

namespace Tree

mutual

/-- The value of a tree. -/
def value : Tree → Value
  | leaf v => v
  | table _ es => .table (entryValues es)
  | tables items => .array (tableValues items)

def entryValues : List (Text × Tree) → List (Text × Value)
  | [] => []
  | (k, t) :: r => (k, value t) :: entryValues r

def tableValues : List (List (Text × Tree)) → List Value
  | [] => []
  | es :: r => .table (entryValues es) :: tableValues r

end

end Tree

namespace Entries

/-- Sets what a key holds. -/
def set (es : Entries) (k : Text) (t : Tree) : Entries :=
  if es.any fun e => e.1 = k then es.map fun e => if e.1 = k then (k, t) else e
  else es ++ [(k, t)]

/-- Changes the table at a path. Tables that are missing are made with the given
origin; `enter` says which of the tables there may be entered, by their origin.
Of an array of tables the last is entered. -/
def changeAt (origin : Origin) (enter : Origin → Bool)
    (change : Option Origin → Entries → Option Entries) :
    Option Origin → List Text → Entries → Option Entries
  | here, [], es => change here es
  | _, k :: path, es =>
    match es.lookup k with
    | none => (changeAt origin enter change (some origin) path []).map fun inner =>
        es.set k (.table origin inner)
    | some (.table o inner) =>
      if enter o then
        (changeAt origin enter change (some o) path inner).map fun inner =>
          es.set k (.table o inner)
      else none
    | some (.tables items) =>
      match items.getLast? with
      | some last => (changeAt origin enter change none path last).map fun last =>
          es.set k (.tables (items.dropLast ++ [last]))
      | none => none
    | some (.leaf _) => none

/-- Adds a value at a key, which must be new, of the table that a dotted key leads
to. That table must be one that dotted keys made. -/
def addValue (es : Entries) (path : List Text) (k : Text) (v : Value) : Option Entries :=
  let add (here : Option Origin) (es : Entries) : Option Entries :=
    if path ≠ [] ∧ here ≠ some .dottedKey then none
    else if es.any fun e => e.1 = k then none
    else some (es ++ [(k, .leaf v)])
  changeAt .dottedKey (· != .header) add none path es

/-- Opens the table of a header. -/
def openTable (es : Entries) (path : List Text) (k : Text) : Option Entries :=
  let add (_ : Option Origin) (es : Entries) : Option Entries :=
    match es.lookup k with
    | none => some (es ++ [(k, .table .header [])])
    | some (.table .onTheWay inner) => some (es.set k (.table .header inner))
    | some _ => none
  changeAt .onTheWay (fun _ => true) add none path es

/-- Appends a table to the array of a header. -/
def appendTable (es : Entries) (path : List Text) (k : Text) : Option Entries :=
  let add (_ : Option Origin) (es : Entries) : Option Entries :=
    match es.lookup k with
    | none => some (es ++ [(k, .tables [[]])])
    | some (.tables items) => some (es.set k (.tables (items ++ [[]])))
    | some _ => none
  changeAt .onTheWay (fun _ => true) add none path es

end Entries

/-! ## Reading -/

/-- Drops blanks. -/
def skipBlanks (s : Text) : Text := s.dropWhile fun c => c == ' ' || c == '\t'

/-- Drops blanks and a comment. -/
def skipComment? (s : Text) : Option Text :=
  match skipBlanks s with
  | '#' :: r =>
    let (comment, rest) := r.span fun c => c != '\n' && c != '\r'
    if comment.all isAllowed then some rest else none
  | r => some r

/-- Drops blanks, comments and line ends; `fuel` bounds the lines. -/
def skipLines? : Nat → Text → Option Text
  | 0, _ => none
  | fuel + 1, s => do
    match ← skipComment? s with
    | '\n' :: r => skipLines? fuel r
    | '\r' :: '\n' :: r => skipLines? fuel r
    | r => pure r

/-- Reads one part of a key. -/
def keyPart? (s : Text) : Option (Text × Text) :=
  match s with
  | '"' :: _ => line? s
  | '\'' :: _ => line? s
  | s => Text.run? (fun c => c.isAlphanum || c == '_' || c == '-') s

/-- Reads a key: parts between dots, at least one; `fuel` bounds the parts. -/
def key? : Nat → Text → Option (List Text × Text)
  | 0, _ => none
  | fuel + 1, s => do
    let (part, rest) ← keyPart? (skipBlanks s)
    match skipBlanks rest with
    | '.' :: rest => (key? fuel rest).map fun p => (part :: p.1, p.2)
    | rest => pure ([part], rest)

/-- Splits the last part off a key. -/
def splitKey? (key : List Text) : Option (List Text × Text) :=
  key.getLast?.map fun k => (key.dropLast, k)

/-- How deeply arrays and inline tables may be nested. -/
def depthLimit : Nat := 80

mutual

/-- Reads a value; `depth` bounds the nesting and `fuel` the length. -/
def value? (depth fuel : Nat) (s : Text) : Option (Value × Text) :=
  match depth, fuel with
  | depth, fuel + 1 =>
    match s with
    | '[' :: r =>
      match depth with
      | 0 => none
      | depth + 1 => (items? depth fuel r).map fun p => (.array p.1, p.2)
    | '{' :: r =>
      match depth with
      | 0 => none
      | depth + 1 => (inline? depth fuel [] r).map fun p => (.table (Tree.entryValues p.1), p.2)
    | '"' :: _ => (string? s).map fun p => (.string p.1, p.2)
    | '\'' :: _ => (string? s).map fun p => (.string p.1, p.2)
    | s => atom? s
  | _, 0 => none
  termination_by fuel

/-- Reads the items of an array up to its bracket. -/
def items? (depth fuel : Nat) (s : Text) : Option (List Value × Text) :=
  match fuel with
  | 0 => none
  | fuel + 1 => do
    match ← skipLines? (s.length + 1) s with
    | ']' :: rest => pure ([], rest)
    | s =>
      let (v, rest) ← value? depth fuel s
      match ← skipLines? (rest.length + 1) rest with
      | ',' :: rest =>
        let (vs, rest) ← items? depth fuel rest
        pure (v :: vs, rest)
      | ']' :: rest => pure ([v], rest)
      | _ => none
  termination_by fuel

/-- Reads the entries of an inline table up to its brace. -/
def inline? (depth fuel : Nat) (es : Entries) (s : Text) : Option (Entries × Text) :=
  match fuel with
  | 0 => none
  | fuel + 1 => do
    match ← skipLines? (s.length + 1) s with
    | '}' :: rest => pure (es, rest)
    | s =>
      let (key, rest) ← key? (s.length + 1) s
      let rest ← Text.after? ['='] rest
      let (v, rest) ← value? depth fuel (skipBlanks rest)
      let (path, k) ← splitKey? key
      let es ← es.addValue path k v
      match ← skipLines? (rest.length + 1) rest with
      | ',' :: rest => inline? depth fuel es rest
      | '}' :: rest => pure (es, rest)
      | _ => none
  termination_by fuel

end

/-- Reads the end of a line. -/
def lineEnd? (s : Text) : Option Text := do
  match ← skipComment? s with
  | [] => pure []
  | '\n' :: r => pure r
  | '\r' :: '\n' :: r => pure r
  | _ => none

/-- Reads the entries and headers of a document. `here` is the key of the table
opened last and `fuel` bounds the lines. -/
def lines? : Nat → List Text → Entries → Text → Option Entries
  | 0, _, _, _ => none
  | fuel + 1, here, root, s => do
    match ← skipLines? (s.length + 1) s with
    | [] => pure root
    | '[' :: '[' :: s =>
      let (key, rest) ← key? (s.length + 1) s
      let rest ← lineEnd? (← Text.after? "]]".toList rest)
      let (path, k) ← splitKey? key
      lines? fuel key (← root.appendTable path k) rest
    | '[' :: s =>
      let (key, rest) ← key? (s.length + 1) s
      let rest ← lineEnd? (← Text.after? [']'] rest)
      let (path, k) ← splitKey? key
      lines? fuel key (← root.openTable path k) rest
    | s =>
      let (key, rest) ← key? (s.length + 1) s
      let rest ← Text.after? ['='] rest
      let (v, rest) ← value? depthLimit (rest.length + 1) (skipBlanks rest)
      let rest ← lineEnd? rest
      let (path, k) ← splitKey? key
      let add (_ : Option Origin) (es : Entries) := es.addValue path k v
      lines? fuel here (← Entries.changeAt .header (fun _ => true) add none here root) rest

/-- Reads a document: the entries of its root. -/
def parse? (s : Text) : Option (List (Text × Value)) := do
  let s := (Text.after? [Char.ofNat 0xFEFF] s).getD s
  Tree.entryValues <$> lines? (s.length + 1) [] [] s

end Toml

end ModuleDocs

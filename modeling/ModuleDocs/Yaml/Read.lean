import ModuleDocs.Yaml.Node
import ModuleDocs.Yaml.Scalar

/-!
# Reading values from nodes

A node is read as what is asked for: a text takes any scalar as it was written,
whatever it would mean by itself; an optional thing is absent where the scalar
is null; anything else gives the value the node means. Aliases are followed. How
deeply collections nest is limited, which also ends an alias that is part of the
node it stands for.
-/

namespace ModuleDocs

namespace Yaml

/-- The tag of the core schema with a given name. -/
def coreTag (n : Text) : Text := "tag:yaml.org,2002:".toList ++ n

/-- How many collections may be nested in each other. -/
def depthLimit : Nat := 128

/-- The value of a scalar without a tag of its own. -/
def Meaning.value? (s : Text) : Meaning → Option Value
  | null => some .null
  | bool b => some (.bool b)
  | integer n => some (.number (.integer n))
  | tooLarge => none
  | float x => some (.number (.float x))
  | text => some (.string s)

/-- The tag that a value carries, if it has one of its own: it starts with an
exclamation mark, which does not belong to it and may be doubled, or is one. -/
def ownTag? : Option Text → Option Text
  | some ['!'] => some ['!']
  | some ('!' :: '!' :: c :: r) => some (c :: r)
  | some ('!' :: t) => some t
  | _ => none

/-- The value of a scalar: what a tag of the core schema asks for, else what it
means if it is plain, else its text. -/
def scalarValue? (tag : Option Text) (style : ScalarStyle) (s : Text) : Option Value :=
  let untagged := if style = .plain then (Meaning.ofPlain s).value? s else some (.string s)
  match ownTag? tag, tag with
  | some t, _ => untagged.map (.tagged t)
  | none, none => untagged
  | none, some t =>
    if t = coreTag "bool".toList then (Meaning.bool? s).map .bool
    else if t = coreTag "int".toList then
      ((Meaning.integer? s).bind Meaning.ofInteger?).bind (Meaning.value? s)
    else if t = coreTag "float".toList then
      (Meaning.float? s).map fun x => .number (.float x)
    else if t = coreTag "null".toList then if Meaning.isNull s then some .null else none
    else some (.string s)

/-- Puts a collection's own tag around its value. -/
def withTag (tag : Option Text) (v : Value) : Value :=
  match ownTag? tag with
  | some t => .tagged t v
  | none => v

namespace Document

/-- The node itself, or the one an alias stands for. -/
def deref (d : Document) : Node → Node
  | .alias n => (d.anchored.lookup n).getD .missing
  | n => n

/-- Adds an entry to a mapping whose keys have to differ. -/
def addEntry? (entries : List (Value × Value)) (k v : Value) : Option (List (Value × Value)) :=
  if entries.any fun e => e.1.same k then none else some (entries ++ [(k, v)])

/-- The value of a node, with at most `depth` collections in each other. -/
def value? (d : Document) (depth : Nat) (n : Node) : Option Value :=
  match d.deref n, depth with
  | .scalar tag style s, _ => scalarValue? tag style s
  | .sequence tag items, depth + 1 => do
    pure (withTag tag (.sequence (← items.mapM fun item => value? d depth item)))
  | .mapping tag entries, depth + 1 => do
    let read ← entries.foldlM (fun read e => do
      addEntry? read (← value? d depth e.1) (← value? d depth e.2)) []
    pure (withTag tag (.mapping read))
  | _, _ => none
  termination_by depth

/-- The text of a scalar, as it was written. -/
def text? (d : Document) (n : Node) : Option Text :=
  match d.deref n with
  | .scalar _ _ s => some s
  | _ => none

/-- Whether a node is there where one may be left out; none if it is tagged as
null and is not. -/
def present? (d : Document) (n : Node) : Option Bool :=
  match d.deref n with
  | .scalar tag style s =>
    if style ≠ .plain then some true
    else
      match tag with
      | some t =>
        if t = coreTag "null".toList then if Meaning.isNull s then some false else none
        else some true
      | none => some (s ≠ [] ∧ !Meaning.isNull s)
  | _ => some true

/-- Reads a node that may be left out. -/
def optional? {α : Type} (d : Document) (read : Node → Option α) (n : Node) :
    Option (Option α) := do
  if ← d.present? n then pure (some (← read n)) else pure none

/-- The truth value of a node. -/
def bool? (d : Document) (n : Node) : Option Bool :=
  match d.deref n with
  | .scalar tag style s =>
    if style = .plain ∨ (style = .literal ∧ tag = some (coreTag "bool".toList)) then
      Meaning.bool? s
    else none
  | _ => none

/-- Whether a node is nothing: a plain scalar without text. -/
def isNothing : Node → Bool
  | .scalar _ .plain [] => true
  | _ => false

/-- The items of a sequence; nothing is the empty one. -/
def items? (d : Document) (n : Node) : Option (List Node) :=
  match d.deref n with
  | .sequence _ items => some items
  | n => if isNothing n then some [] else none

/-- The entries of a mapping with texts for keys; nothing is the empty one. -/
def fields? (d : Document) (n : Node) : Option (List (Text × Node)) :=
  match d.deref n with
  | .mapping _ entries => entries.mapM fun e => do pure (← d.text? e.1, e.2)
  | n => if isNothing n then some [] else none

end Document

/-- The only value at a key, if there is one; a key must not come twice. -/
def onlyAt? (fields : List (Text × Node)) (key : Text) : Option (Option Node) :=
  match fields.filter fun f => f.1 = key with
  | [] => some none
  | [f] => some (some f.2)
  | _ => none

end Yaml

end ModuleDocs

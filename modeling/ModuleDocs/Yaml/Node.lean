import ModuleDocs.Yaml.Token

/-!
# YAML nodes

Tokens form a tree of nodes. A node may be named by an anchor; an alias stands
for the node named last before it, which may be one that the alias is part of —
so an alias stays a reference in the tree (`Node.alias`) and is looked up in the
document when its value is wanted.

Every rule below reads at least one token, or hands on to one that does, so
twice the number of tokens bounds the depth of the recursion.
-/

namespace ModuleDocs

namespace Yaml

/-- A node of a document. Tags are written out in full. -/
inductive Node where
  | scalar (tag : Option Text) (style : ScalarStyle) (text : Text)
  | sequence (tag : Option Text) (items : List Node)
  | mapping (tag : Option Text) (entries : List (Node × Node))
  /-- A reference to an anchored node, by the number of its anchor. -/
  | alias (number : Nat)
  deriving Inhabited

namespace Node

/-- A scalar that is not there. -/
def missing : Node := .scalar none .plain []

end Node

/-- The state of building nodes. -/
structure Builder where
  tokens : List Token
  /-- The tag handles that the document declares. -/
  handles : List (Text × Text) := []
  /-- The anchors met so far with their numbers, the latest first. -/
  anchors : List (Text × Nat) := []
  /-- For each number the serial number of its node, the latest first. -/
  latest : List (Nat × Nat) := []
  /-- The anchored nodes by serial number. -/
  nodes : List (Nat × Node) := []

namespace Builder

def peek (b : Builder) : Option Token := b.tokens.head?

def skip (b : Builder) : Builder := { b with tokens := b.tokens.tail }

/-- Whether the next token is one of a list. -/
def isAt (b : Builder) (ts : List Token) : Bool := b.peek.any fun t => ts.contains t

/-- Number of different anchor names met so far. -/
def anchorCount (b : Builder) : Nat := (b.anchors.map Prod.fst).eraseDups.length

/-- Names the node that starts here; gives its serial number. -/
def nameNode (n : Text) (b : Builder) : Nat × Builder :=
  let number := b.anchorCount
  let serial := b.latest.length
  (serial, { b with
    anchors := (n, number) :: b.anchors.filter fun a => a.1 ≠ n
    latest := (number, serial) :: b.latest })

/-- Stores a named node once it is built. -/
def storeNode (serial : Option Nat) (n : Node) (b : Builder) : Node × Builder :=
  match serial with
  | some s => (n, { b with nodes := (s, n) :: b.nodes })
  | none => (n, b)

/-- The full form of a tag. -/
def fullTag? (handle suffix : Text) (b : Builder) : Option Text :=
  if handle = [] then some suffix
  else
    match b.handles.lookup handle with
    | some lead => some (lead ++ suffix)
    | none =>
      if handle = ['!'] then some ('!' :: suffix)
      else if handle = ['!', '!'] then some ("tag:yaml.org,2002:".toList ++ suffix)
      else none

/-- What stands in front of a node. -/
structure Properties where
  anchor : Option Text := none
  tag : Option (Text × Text) := none

/-- Reads the anchor and the tag of a node, in either order. -/
def properties (b : Builder) : Properties × Builder :=
  match b.tokens with
  | .anchor n :: .tag h s :: r => (⟨some n, some (h, s)⟩, { b with tokens := r })
  | .tag h s :: .anchor n :: r => (⟨some n, some (h, s)⟩, { b with tokens := r })
  | .anchor n :: r => (⟨some n, none⟩, { b with tokens := r })
  | .tag h s :: r => (⟨none, some (h, s)⟩, { b with tokens := r })
  | _ => (⟨none, none⟩, b)

/-- The tag a written scalar keeps: the bare `!` only says that there is none. -/
def scalarTag (tag : Option Text) : Option Text := if tag = some ['!'] then none else tag

mutual

/-- Reads a node. `block` allows block collections, `indentless` a sequence that
is not indented further than the key in front of it. -/
def node (fuel : Nat) (block indentless : Bool) (b : Builder) : Option (Node × Builder) :=
  match fuel with
  | 0 => none
  | fuel + 1 =>
    match b.tokens with
    | .alias n :: r =>
      match b.anchors.lookup n with
      | some number => some (.alias number, { b with tokens := r })
      | none => none
    | _ =>
      let (props, b) := b.properties
      let tag? := match props.tag with
        | some (h, s) => (b.fullTag? h s).map some
        | none => some none
      match tag? with
      | none => none
      | some tag =>
        let (serial, b) := match props.anchor with
          | some n => let (serial, b) := b.nameNode n; (some serial, b)
          | none => (none, b)
        let bare := props.anchor.isNone && props.tag.isNone
        match b.peek with
        | some .blockEntry =>
          if indentless then
            (indentlessItems fuel b).map fun p => storeNode serial (.sequence tag p.1) p.2
          else if bare then none
          else some (storeNode serial (.scalar tag .plain []) b)
        | some (.scalar style text) =>
          some (storeNode serial (.scalar (scalarTag tag) style text) b.skip)
        | some .flowSequenceStart =>
          (flowItems fuel true b.skip).map fun p => storeNode serial (.sequence tag p.1) p.2
        | some .flowMappingStart =>
          (flowEntries fuel true b.skip).map fun p => storeNode serial (.mapping tag p.1) p.2
        | some .blockSequenceStart =>
          if block then
            (blockItems fuel b.skip).map fun p => storeNode serial (.sequence tag p.1) p.2
          else if bare then none
          else some (storeNode serial (.scalar tag .plain []) b)
        | some .blockMappingStart =>
          if block then
            (blockEntries fuel b.skip).map fun p => storeNode serial (.mapping tag p.1) p.2
          else if bare then none
          else some (storeNode serial (.scalar tag .plain []) b)
        | _ =>
          if bare then none
          else some (storeNode serial (.scalar tag .plain []) b)

/-- Reads a node unless one of the given tokens comes, in which case there is
none. -/
def nodeUnless (fuel : Nat) (ends : List Token) (block indentless : Bool) (b : Builder) :
    Option (Node × Builder) :=
  match fuel with
  | 0 => none
  | fuel + 1 => if b.isAt ends then some (.missing, b) else node fuel block indentless b

/-- Reads the items of a block sequence up to its end. -/
def blockItems (fuel : Nat) (b : Builder) : Option (List Node × Builder) :=
  match fuel with
  | 0 => none
  | fuel + 1 =>
    match b.peek with
    | some .blockEntry => do
      let (item, b) ← nodeUnless fuel [.blockEntry, .blockEnd] true false b.skip
      let (items, b) ← blockItems fuel b
      pure (item :: items, b)
    | some .blockEnd => some ([], b.skip)
    | _ => none

/-- Reads the items of a sequence that is not indented. -/
def indentlessItems (fuel : Nat) (b : Builder) : Option (List Node × Builder) :=
  match fuel with
  | 0 => none
  | fuel + 1 =>
    match b.peek with
    | some .blockEntry => do
      let (item, b) ← nodeUnless fuel [.blockEntry, .key, .value, .blockEnd] true false b.skip
      let (items, b) ← indentlessItems fuel b
      pure (item :: items, b)
    | _ => some ([], b)

/-- Reads the entries of a block mapping up to its end. -/
def blockEntries (fuel : Nat) (b : Builder) : Option (List (Node × Node) × Builder) :=
  match fuel with
  | 0 => none
  | fuel + 1 =>
    match b.peek with
    | some .key => do
      let (key, b) ← nodeUnless fuel [.key, .value, .blockEnd] true true b.skip
      let (value, b) ←
        if b.isAt [.value] then nodeUnless fuel [.key, .value, .blockEnd] true true b.skip
        else some (.missing, b)
      let (entries, b) ← blockEntries fuel b
      pure ((key, value) :: entries, b)
    | some .blockEnd => some ([], b.skip)
    | _ => none

/-- Reads the items of a bracketed sequence up to its end. An item may be a
single entry, `key: value`. -/
def flowItems (fuel : Nat) (first : Bool) (b : Builder) : Option (List Node × Builder) :=
  match fuel with
  | 0 => none
  | fuel + 1 =>
    if b.isAt [.flowSequenceEnd] then some ([], b.skip)
    else if !first && !b.isAt [.flowEntry] then none
    else
      let b := if first then b else b.skip
      if b.isAt [.flowSequenceEnd] then some ([], b.skip)
      else do
        let (item, b) ← if b.isAt [.key] then flowPair fuel b.skip else node fuel false false b
        let (items, b) ← flowItems fuel false b
        pure (item :: items, b)

/-- Reads a single entry behind its key token. -/
def flowPair (fuel : Nat) (b : Builder) : Option (Node × Builder) :=
  match fuel with
  | 0 => none
  | fuel + 1 => do
    let (key, b) ←
      if b.isAt [.value, .flowEntry, .flowSequenceEnd] then some (.missing, b.skip)
      else node fuel false false b
    let (value, b) ←
      if b.isAt [.value] then
        nodeUnless fuel [.flowEntry, .flowSequenceEnd] false false b.skip
      else some (.missing, b)
    pure (.mapping none [(key, value)], b)

/-- Reads the entries of a bracketed mapping up to its end. -/
def flowEntries (fuel : Nat) (first : Bool) (b : Builder) :
    Option (List (Node × Node) × Builder) :=
  match fuel with
  | 0 => none
  | fuel + 1 =>
    if b.isAt [.flowMappingEnd] then some ([], b.skip)
    else if !first && !b.isAt [.flowEntry] then none
    else
      let b := if first then b else b.skip
      if b.isAt [.flowMappingEnd] then some ([], b.skip)
      else do
        let (key, value, b) ←
          if b.isAt [.key] then do
            let (key, b) ←
              nodeUnless fuel [.value, .flowEntry, .flowMappingEnd] false false b.skip
            let (value, b) ←
              if b.isAt [.value] then
                nodeUnless fuel [.flowEntry, .flowMappingEnd] false false b.skip
              else some (.missing, b)
            some (key, value, b)
          else do
            let (key, b) ← node fuel false false b
            some (key, .missing, b)
        let (entries, b) ← flowEntries fuel false b
        pure ((key, value) :: entries, b)

end

end Builder

/-- A document: its root, if it has one, and its anchored nodes by number. -/
structure Document where
  root : Option Node
  anchored : List (Nat × Node)

namespace Document

/-- Reads the directives in front of a document. -/
def directives : List Token → Bool → List (Text × Text) →
    Option (List (Text × Text) × List Token)
  | .versionDirective major minor :: r, versioned, handles =>
    if versioned ∨ major ≠ 1 ∨ (minor ≠ 1 ∧ minor ≠ 2) then none
    else directives r true handles
  | .tagDirective handle lead :: r, versioned, handles =>
    if (handles.lookup handle).isSome then none
    else directives r versioned ((handle, lead) :: handles)
  | r, _, handles => some (handles, r)

/-- Whether a document that starts with `---` has nothing in it. -/
def isEmptyContent : List Token → Bool
  | [] => true
  | .versionDirective _ _ :: _ => true
  | .tagDirective _ _ :: _ => true
  | .documentStart :: _ => true
  | .documentEnd :: _ => true
  | _ => false

/-- Reads the content of a document behind its directives and start; nothing may
follow it but end marks. -/
def content (handles : List (Text × Text)) (implicit : Bool) (tokens : List Token) :
    Option Document := do
  let b : Builder := { tokens, handles }
  let (root, b) ←
    if !implicit && isEmptyContent tokens then some (Node.missing, b)
    else b.node (2 * tokens.length + 4) true false
  if (b.tokens.dropWhile (· == .documentEnd)) = [] then
    let anchored := b.latest.filterMap fun p => (b.nodes.lookup p.2).map fun n => (p.1, n)
    pure ⟨some root, anchored⟩
  else none

/-- Reads a text as a single document. A text without tokens is a document
without a root. -/
def parse? (s : Text) : Option Document := do
  match ← Token.ofText? s with
  | [] => pure ⟨none, []⟩
  | tokens =>
    let (handles, rest) ← directives tokens false []
    match rest with
    | .documentStart :: r => content handles false r
    | r => if r.length = tokens.length then content handles true r else none

end Document

end Yaml

end ModuleDocs

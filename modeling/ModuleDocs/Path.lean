import ModuleDocs.Text.Basic

/-!
# Paths

A path is kept as it was spelled, because answers show it so: joining never
tidies what is there. What a path *means* is its list of components, in which
empty segments and inner `.` segments have no part. Paths compare by their
components, so `docs/a.md` and `docs//./a.md` are one key, while `docs/x/../a.md`
is another: `..` is resolved by the file system only.
-/

namespace ModuleDocs

/-- A path, as spelled. -/
structure Path where
  text : Text
  deriving DecidableEq

/-- A component of a path. -/
inductive Component where
  /-- The leading `/`. -/
  | root
  /-- A leading `.`. -/
  | current
  | parent
  | name (n : Text)
  deriving DecidableEq

namespace Component

/-- The component as it is written. -/
def text : Component → Text
  | root => ['/']
  | current => ['.']
  | parent => ['.', '.']
  | name n => n

/-- The component that a segment between separators stands for, if any. -/
def ofSegment? (s : Text) : Option Component :=
  if s = [] ∨ s = ['.'] then none
  else if s = ['.', '.'] then some parent
  else some (name s)

/-- Kinds of components come in the order root, current, parent, names; names
among themselves by their texts. -/
def order : Component → Component → Ordering
  | root, root => .eq
  | root, _ => .lt
  | _, root => .gt
  | current, current => .eq
  | current, _ => .lt
  | _, current => .gt
  | parent, parent => .eq
  | parent, _ => .lt
  | _, parent => .gt
  | name a, name b => compare a b

end Component

namespace Path

instance : Inhabited Path := ⟨⟨[]⟩⟩

instance : Coe Text Path := ⟨Path.mk⟩

/-- Whether the path starts at the root. -/
def isAbsolute (p : Path) : Bool := p.text.head? == some '/'

/-- Appends a path below this one; an absolute one takes its place. A separator
is written unless this path is empty or ends in one. -/
def join (p : Path) (t : Text) : Path :=
  if t.head? = some '/' then ⟨t⟩
  else if p.text = [] ∨ p.text.getLast? = some '/' then ⟨p.text ++ t⟩
  else ⟨p.text ++ '/' :: t⟩

/-- The components of a path. -/
def components (p : Path) : List Component :=
  match p.text with
  | '/' :: r => .root :: (r.splitOn '/').filterMap Component.ofSegment?
  | s =>
    match s.splitOn '/' with
    | ['.'] :: fs => .current :: fs.filterMap Component.ofSegment?
    | fs => fs.filterMap Component.ofSegment?

/-- Lexicographic order of lists of components. -/
def orderComponents : List Component → List Component → Ordering
  | [], [] => .eq
  | [], _ :: _ => .lt
  | _ :: _, [] => .gt
  | a :: as, b :: bs => (Component.order a b).then (orderComponents as bs)

/-- The order of paths. -/
def order (p q : Path) : Ordering := orderComponents p.components q.components

/-- Sorts paths; paths with the same components keep their order. -/
def sort (ps : List Path) : List Path := ps.mergeSort fun p q => (order p q).isLE

/-- The last component, if it is a name. -/
def name? (p : Path) : Option Text :=
  match p.components.getLast? with
  | some (.name n) => some n
  | _ => none

/-- What follows the last dot of the path's name. A name without a dot, or with
none but a leading one, has no extension. -/
def extension? (p : Path) : Option Text := do
  let n ← p.name?
  let (after, before) ← Text.splitFirst? '.' n.reverse
  if before = [] then none else some after.reverse

/-- Whether a segment stands for no component. -/
def isFiller (s : Text) : Bool := (Component.ofSegment? s).isNone

/-- Drops the last component from segments in reverse order, together with the
fillers on both sides of it. -/
def dropLastSegment? (reversed : List Text) : Option (List Text) :=
  match reversed.dropWhile isFiller with
  | [] => none
  | _ :: r => some (r.dropWhile isFiller).reverse

/-- The path without its last component. -/
def parent? (p : Path) : Option Path :=
  match p.text with
  | '/' :: r => (dropLastSegment? (r.splitOn '/').reverse).map fun fs =>
      ⟨'/' :: List.intercalate ['/'] fs⟩
  | s =>
    match s.splitOn '/' with
    | ['.'] :: fs =>
      match dropLastSegment? fs.reverse with
      | none => some ⟨[]⟩
      | some fs => some ⟨List.intercalate ['/'] (['.'] :: fs)⟩
    | fs => (dropLastSegment? fs.reverse).map fun fs => ⟨List.intercalate ['/'] fs⟩

/-- The components below a base, if the path is at or below it. -/
def below? (base p : Path) : Option (List Component) :=
  base.components.isPrefixOf? p.components

/-- The components below a base joined by `/`. -/
def relativeTo? (base p : Path) : Option Text :=
  (below? base p).map fun cs => List.intercalate ['/'] (cs.map Component.text)

/-- The segments, in reverse order, that spell the last `n` components. -/
def spelling : Nat → List Text → List Text
  | 0, _ => []
  | _, [] => []
  | n + 1, s :: r => if isFiller s then s :: spelling (n + 1) r else s :: spelling n r

/-- The path below a base as it is spelled, without fillers at its ends; a path
that is not below the base stays as it is. -/
def displayBelow (base p : Path) : Text :=
  match below? base p with
  | none => p.text
  | some cs =>
    let last := ((p.text.splitOn '/').reverse.dropWhile isFiller)
    if base.components = [] then
      match p.text with
      | '/' :: r =>
        '/' :: List.intercalate ['/'] ((r.splitOn '/').reverse.dropWhile isFiller).reverse
      | s =>
        match s.splitOn '/' with
        | ['.'] :: fs => List.intercalate ['/'] (['.'] :: (fs.reverse.dropWhile isFiller).reverse)
        | _ => List.intercalate ['/'] last.reverse
    else List.intercalate ['/'] (spelling cs.length last).reverse

end Path

end ModuleDocs

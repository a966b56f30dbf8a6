import ModuleDocs.Path
import ModuleDocs.Text.Utf8

/-!
# A store of files, directories and links

The library reads a source tree and a documentation checkout, and updates
documents. `Store` is what it sees of them: a finite list of nodes, each at a
*location* — the names that lead to it from the root — and the location relative
paths start from.

A path is resolved against the store segment by segment (`Store.resolve`).
A symbolic link is replaced by its target, at most `linkLimit` times, so that
resolution ends on every store, whatever its links do. The list of nodes is also
the order in which a directory's entries are enumerated.

What a store has no room for limits what is said of the walks through it. Names
are Unicode text, so there is no entry with a name that is not. There are no
permissions: every directory can be enumerated, and every file be read. A path
that does not resolve can be neither, so a walk has nothing to go on with below
it.
-/

namespace ModuleDocs

/-- The names that lead from the root to a node. -/
abbrev Location := List Text

/-- Contents are compared by their bytes; named, as libraries bring comparisons too. -/
local instance decidableEqContent : DecidableEq ByteArray := ByteArray.instDecidableEq

/-- What a location holds. -/
inductive Node where
  | file (content : ByteArray)
  | directory
  /-- A symbolic link, with its target as spelled. -/
  | link (target : Path)
  deriving DecidableEq

/-- Why a path could not be used as asked. -/
inductive FileError where
  | notFound
  | notADirectory
  | isADirectory
  | directoryNotEmpty
  | tooManyLinks
  /-- The content is not well-formed UTF-8. -/
  | notText
  deriving DecidableEq, Repr

/-- The nodes of a file system and the location relative paths start from. -/
structure Store where
  home : Location
  nodes : List (Location × Node)

namespace Store

/-- How many links one resolution may follow. -/
def linkLimit : Nat := 40

/-- The node at a location; the root is always a directory. -/
def node? (s : Store) (loc : Location) : Option Node :=
  if loc = [] then some .directory
  else (s.nodes.find? fun e => e.1 = loc).map Prod.snd

/-- Where resolution ended: at a node, or in a directory that lacks the last
name of the path. -/
inductive Place where
  | at (loc : Location)
  | missing (dir : Location) (name : Text)
  deriving DecidableEq

/-- Follows segments from a location. `.` and empty segments stay, but only in
a directory; `..` goes up; a name goes to the entry of that name, through a link
if it is one — the last name too, unless `keepLast` is set. -/
def follow (s : Store) (keepLast : Bool) : Nat → Location → List Text → Except FileError Place
  | _, loc, [] => .ok (.at loc)
  | links, loc, seg :: rest =>
    match s.node? loc with
    | none => .error .notFound
    | some (.file _) => .error .notADirectory
    | some (.link _) => .error .notADirectory
    | some .directory =>
      if seg = [] ∨ seg = ['.'] then follow s keepLast links loc rest
      else if seg = ['.', '.'] then follow s keepLast links loc.dropLast rest
      else
        match s.node? (loc ++ [seg]) with
        | none => if rest = [] then .ok (.missing loc seg) else .error .notFound
        | some (.link target) =>
          if keepLast ∧ rest = [] then .ok (.at (loc ++ [seg]))
          else
            match links with
            | 0 => .error .tooManyLinks
            | left + 1 =>
              follow s keepLast left (if target.isAbsolute then [] else loc)
                (target.text.splitOn '/' ++ rest)
        | some _ => follow s keepLast links (loc ++ [seg]) rest
  termination_by links _ segs => (links, segs.length)

/-- Resolves a path from the home location or the root. -/
def resolve (s : Store) (p : Path) : Except FileError Place :=
  if p.text = [] then .error .notFound
  else follow s false linkLimit (if p.isAbsolute then [] else s.home) (p.text.splitOn '/')

/-- The location a path denotes, with every link on the way resolved. -/
def canonical? (s : Store) (p : Path) : Option Location :=
  match s.resolve p with
  | .ok (.at loc) => some loc
  | _ => none

/-- The node a path denotes. -/
def lookup? (s : Store) (p : Path) : Option Node := (s.canonical? p).bind s.node?

def isDirectory (s : Store) (p : Path) : Bool := s.lookup? p == some .directory

def isFile (s : Store) (p : Path) : Bool :=
  match s.lookup? p with
  | some (.file _) => true
  | _ => false

def exists? (s : Store) (p : Path) : Bool := (s.lookup? p).isSome

/-- The name of an entry directly in a directory. -/
def entryName? (dir loc : Location) : Option Text :=
  match dir.isPrefixOf? loc with
  | some [n] => some n
  | _ => none

/-- The names of a directory's entries, in enumeration order. -/
def entriesAt (s : Store) (dir : Location) : List Text :=
  s.nodes.filterMap fun e => entryName? dir e.1

/-- The names of the entries of the directory a path denotes. -/
def entries? (s : Store) (p : Path) : Option (List Text) :=
  match s.canonical? p with
  | some loc => if s.node? loc = some .directory then some (s.entriesAt loc) else none
  | none => none

/-- The locations of all directories. -/
def directories (s : Store) : List Location :=
  [] :: s.nodes.filterMap fun e => if e.2 = .directory then some e.1 else none

/-- The bytes of the file a path denotes. -/
def read (s : Store) (p : Path) : Except FileError ByteArray := do
  match ← s.resolve p with
  | .missing _ _ => .error .notFound
  | .at loc =>
    match s.node? loc with
    | some (.file b) => .ok b
    | some .directory => .error .isADirectory
    | _ => .error .notFound

/-- The text of the file a path denotes. -/
def readText (s : Store) (p : Path) : Except FileError Text := do
  match Text.decode? (← s.read p) with
  | some t => .ok t
  | none => .error .notText

/-- Sets the node at a location, in its old place if it has one. -/
def setNode (s : Store) (loc : Location) (n : Node) : Store :=
  if s.nodes.any fun e => e.1 = loc then
    { s with nodes := s.nodes.map fun e => if e.1 = loc then (loc, n) else e }
  else { s with nodes := s.nodes ++ [(loc, n)] }

/-- Writes a file, through links, making it if its directory is there. -/
def write (s : Store) (p : Path) (content : ByteArray) : Except FileError Store := do
  match ← s.resolve p with
  | .missing dir name => .ok (s.setNode (dir ++ [name]) (.file content))
  | .at loc =>
    match s.node? loc with
    | some (.file _) => .ok (s.setNode loc (.file content))
    | _ => .error .isADirectory

/-- Makes the directories along segments, from a location. -/
def makeDirectoriesFrom (s : Store) (base : Path) : List Text → Except FileError Store
  | [] => .ok s
  | seg :: rest => do
    let p := base.join seg
    match ← s.resolve p with
    | .missing dir name =>
      makeDirectoriesFrom (s.setNode (dir ++ [name]) .directory) p rest
    | .at loc =>
      match s.node? loc with
      | some .directory => makeDirectoriesFrom s p rest
      | _ => .error .notADirectory

/-- Makes a directory and those it lies in, as far as they are missing. -/
def makeDirectories (s : Store) (p : Path) : Except FileError Store :=
  makeDirectoriesFrom s (if p.isAbsolute then ⟨['/']⟩ else ⟨['.']⟩)
    ((p.text.splitOn '/').filter fun seg => !seg.isEmpty)

/-- Puts a node at a path, making the directories it lies in. -/
def place (s : Store) (p : Path) (n : Node) : Except FileError Store := do
  match n with
  | .directory => s.makeDirectories p
  | _ =>
    let s ← match p.parent? with
      | some dir => if dir.text = [] then pure s else s.makeDirectories dir
      | none => pure s
    match n with
    | .file content => s.write p content
    | _ =>
      match ← follow s true linkLimit (if p.isAbsolute then [] else s.home)
          (p.text.splitOn '/') with
      | .missing dir name => .ok (s.setNode (dir ++ [name]) n)
      | .at loc => .ok (s.setNode loc n)

/-- Removes a node, and what lies in it if it is a directory. -/
def remove (s : Store) (p : Path) : Except FileError Store := do
  match ← follow s true linkLimit (if p.isAbsolute then [] else s.home)
      (p.text.splitOn '/') with
  | .missing _ _ => .error .notFound
  | .at loc => .ok { s with nodes := s.nodes.filter fun e => !loc.isPrefixOf e.1 }

/-- A store with nothing in it but the directories that lead to its home. -/
def empty (home : Location) : Store :=
  { home
    nodes := (List.range home.length).map fun n => (home.take (n + 1), .directory) }

end Store

end ModuleDocs

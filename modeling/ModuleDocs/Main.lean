import ModuleDocs.CommandLine.Run

/-!
# The executable

The outer layer of the program: it takes the files that an invocation names from
the file system into a store, runs the program on it, writes the files that differ
afterwards, and prints.
-/

namespace ModuleDocs

namespace CommandLine

/-- The location of an absolute path. -/
def locationOf (p : String) : Location := (p.toList.splitOn '/').filter fun s => s != []

/-- The absolute path of a location. -/
def pathOf (loc : Location) : String := String.ofList ('/' :: List.intercalate ['/'] loc)

/-- Adds the node at a location unless there is one. -/
def addNode (s : Store) (loc : Location) (n : Node) : Store :=
  if (s.node? loc).isSome then s else s.setNode loc n

/-- Adds what stands at a location and, if asked for, below it. Links are followed;
a version control directory is left out. -/
partial def load (deep : Bool) (s : Store) (loc : Location) : IO Store := do
  if (s.node? loc).isSome && loc != [] then return s
  let path := (← IO.currentDir) / pathOf loc
  if ← path.isDir then
    let mut s := addNode s loc .directory
    if !deep then return s
    for entry in ← path.readDir do
      if entry.fileName == ".git" then continue
      let here := loc ++ [entry.fileName.toList]
      let real := locationOf (← IO.FS.realPath (pathOf here)).toString
      if real == here then s ← load deep s here
      else
        s := s.setNode here (.link ⟨(pathOf real).toList⟩)
        for n in List.range (real.length - 1) do
          s := addNode s (real.take (n + 1)) .directory
        s ← load deep s real
    return s
  else if ← path.pathExists then
    return addNode s loc (.file (← IO.FS.readBinFile path))
  else return s

/-- Adds what a path of the user names, with everything that leads to it. -/
def loadPath (deep : Bool) (s : Store) (p : Text) : IO Store := do
  let mut s := s
  let mut here : Location := if p.head? == some '/' then [] else s.home
  for segment in (p.splitOn '/').filter fun s => s != [] do
    let next := here ++ [segment]
    let real := locationOf (← IO.FS.realPath (pathOf next)).toString
    if segment != ".".toList && segment != "..".toList && real != next then
      s := s.setNode next (.link ⟨(pathOf real).toList⟩)
    for n in List.range (real.length - 1) do
      s := addNode s (real.take (n + 1)) .directory
    here := real
    if (s.node? here).isNone then s ← load false s here
  -- the last directory was entered without its content
  if deep && s.node? here == some .directory then
    load true { s with nodes := s.nodes.filter fun e => e.1 != here } here
  else return s

/-- The paths that an invocation reads, and those it only writes. -/
def pathsOf (i : Invocation) : List Text × List Text :=
  let root := i.root.getD []
  match i.command with
  | some (.list _ output) => ([root], output.toList)
  | some (.update docs _ _) => ([root, docs], [])
  | some (.check docs _ _ _) => ([root, docs], [])
  | none => ([], [])

/-- The store that a run with these arguments sees. -/
def snapshot (args : List Text) : IO Store := do
  let home := locationOf (← IO.currentDir).toString
  let mut s := Store.empty home
  match parse args with
  | .error _ => return s
  | .ok i =>
    let (reads, writes) := pathsOf i
    for p in reads do s ← loadPath true s p
    for p in writes do s ← loadPath false s p
    return s

/-- Writes the files in which a store differs from an earlier one. -/
def writeBack (before after : Store) : IO Unit := do
  for (loc, n) in after.nodes do
    match n with
    | .file content =>
      if before.node? loc != some n then IO.FS.writeBinFile (pathOf loc) content
    | _ => pure ()

end CommandLine

end ModuleDocs

open ModuleDocs ModuleDocs.CommandLine in
/-- Runs the program on the file system. -/
def main (args : List String) : IO UInt32 := do
  let args := args.map String.toList
  let before ← snapshot args
  let o := run before args
  writeBack before o.store
  IO.print (String.ofList o.output)
  IO.eprint (String.ofList o.errors)
  return o.exit.toUInt32

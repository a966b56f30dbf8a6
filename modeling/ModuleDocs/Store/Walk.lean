import ModuleDocs.Store

/-!
# Walking directories

`Store.walk` goes through the directories below a path, depth first, links
included. A directory is opened once, under the first path that reaches it: the
locations opened so far are remembered, so a cycle of links ends the walk
instead of prolonging it. Each step either opens a location not opened before or
shortens the list of paths still to visit, which is why the walk is total on
every store.
-/

namespace ModuleDocs

namespace Store

/-- The entries of a directory as paths, in enumeration order. -/
def children (s : Store) (p : Path) : List Path :=
  ((s.entries? p).getD []).map p.join

/-- A directory met on a walk; `opened` tells the first meeting from later ones. -/
structure Visit where
  path : Path
  opened : Bool

/-- The locations that have not been opened. -/
def unopened (s : Store) (opened : List Location) : List Location :=
  s.directories.filter fun d => !opened.contains d

/-- Opening a location takes it out of those left to open. -/
theorem unopened_cons (s : Store) (opened : List Location) (d : Location) :
    s.unopened (d :: opened) = (s.unopened opened).filter (· != d) := by
  simp only [unopened, List.filter_filter, List.contains_cons, Bool.not_or, bne]

/-- So there is one less, if it was not opened before. -/
theorem unopened_cons_lt {s : Store} {opened : List Location} {d : Location}
    (hd : d ∈ s.directories) (hn : d ∉ opened) :
    (s.unopened (d :: opened)).length < (s.unopened opened).length := by
  have hmem : d ∈ s.unopened opened := List.mem_filter.mpr ⟨hd, by simpa using hn⟩
  rw [unopened_cons]
  exact List.length_filter_lt_length_iff_exists.mpr ⟨d, hmem, by simp⟩

/-- Visits the paths of a list and, depth first, the directories below them.
`below` gives the directories to go on with in an opened one. -/
def walk (s : Store) (below : Path → List Path) (opened : List Location) :
    (paths : List Path) → List Visit
  | [] => []
  | p :: rest =>
    match s.canonical? p with
    | none => ⟨p, false⟩ :: walk s below opened rest
    | some loc =>
      if _h : loc ∈ s.directories ∧ loc ∉ opened then
        ⟨p, true⟩ :: walk s below (loc :: opened) (below p ++ rest)
      else ⟨p, false⟩ :: walk s below opened rest
  termination_by paths => ((s.unopened opened).length, paths.length)
  decreasing_by
    · exact Prod.Lex.right _ (by simp)
    · exact Prod.Lex.left _ _ (unopened_cons_lt _h.1 _h.2)
    · exact Prod.Lex.right _ (by simp)

end Store

end ModuleDocs

import Mathlib.Algebra.BigOperators.Group.Finset.Piecewise
import Mathlib.Algebra.Order.BigOperators.Group.Finset
import ModuleDocs.Proofs.Module.Discovery
import ModuleDocs.Proofs.Module.Files

/-!
# Traversals end

A traversal makes calls: the call for a path opens the directory there, if no call has opened it
before, and then makes the calls for what is below it, one after the other (`Calls`). What has
been opened is handed on from each call to the next, whether that is below it or beside it. On
a cycle of links the paths get longer and longer, so it is no matter of the paths that the calls
come to an end: each of them that goes on opens another location, and a store has finitely many.
The calls are those of `Store.walk`, and no others are possible (`calls_iff`).

A location is opened once, so what a traversal finds are different entries of the store
(`FoundAmong.length_le`). What an entry leads to does not depend on the path by which its
directory was reached (`LeadsTo.unique`), so modules and files are different entries, too.
-/

namespace ModuleDocs

namespace Store

open ModuleDocs.Path

variable {s : Store} {below : Path → List Path} {opened opened' : List Location}
  {paths rest : List Path} {visits visits' : List Visit} {p root : Path} {loc d : Location}
  {n : Text} {node node' : Node} {found found' : Path → List Path}
  {names : Location → List Text} {P Q : Node → Prop}

/-! ## Calls -/

/-- The calls for the paths of a list, one after the other, with the locations opened before and
after them. -/
inductive Calls (s : Store) (below : Path → List Path) :
    List Location → List Path → List Visit → List Location → Prop where
  | done {opened : List Location} : Calls s below opened [] [] opened
  /-- The path denotes no directory that is still to be opened. -/
  | pass {opened opened' : List Location} {p : Path} {rest : List Path} {visits : List Visit}
      (hclosed : ∀ loc, s.canonical? p = some loc → loc ∈ s.directories → loc ∈ opened)
      (hrest : Calls s below opened rest visits opened') :
      Calls s below opened (p :: rest) (⟨p, false⟩ :: visits) opened'
  /-- The directory is opened, and what is below it comes before the rest. -/
  | enter {opened inner opened' : List Location} {p : Path} {loc : Location} {rest : List Path}
      {visits visits' : List Visit}
      (hloc : s.canonical? p = some loc) (hdir : loc ∈ s.directories) (hnew : loc ∉ opened)
      (hbelow : Calls s below (loc :: opened) (below p) visits inner)
      (hrest : Calls s below inner rest visits' opened') :
      Calls s below opened (p :: rest) (⟨p, true⟩ :: (visits ++ visits')) opened'

/-- The calls for a list are those for its parts. -/
theorem Calls.split (h : Calls s below opened (paths ++ rest) visits opened') :
    ∃ us vs inner, visits = us ++ vs ∧ Calls s below opened paths us inner ∧
      Calls s below inner rest vs opened' := by
  induction paths generalizing opened visits with
  | nil => exact ⟨[], visits, opened, rfl, .done, h⟩
  | cons p paths ih =>
    cases h with
    | pass hclosed hrest =>
      obtain ⟨us, vs, inner, rfl, hfirst, hlast⟩ := ih hrest
      exact ⟨_, vs, inner, rfl, hfirst.pass hclosed, hlast⟩
    | enter hloc hdir hnew hbelow hrest =>
      obtain ⟨us, vs, inner, rfl, hfirst, hlast⟩ := ih hrest
      exact ⟨_, vs, inner, by simp, .enter hloc hdir hnew hbelow hfirst, hlast⟩

/-- **The calls come to an end**, with the visits of the walk. -/
theorem exists_calls (s : Store) (below : Path → List Path) (opened : List Location)
    (paths : List Path) :
    ∃ opened', Calls s below opened paths (walk s below opened paths) opened' := by
  fun_induction walk s below opened paths with
  | case1 opened => exact ⟨opened, .done⟩
  | case2 opened p rest hp ih =>
    obtain ⟨opened', hrest⟩ := ih
    exact ⟨opened', hrest.pass fun loc hloc => by rw [hp] at hloc; cases hloc⟩
  | case3 opened p rest loc hp hloc ih =>
    -- the walk goes through what is below and the rest as one list
    obtain ⟨opened', hcalls⟩ := ih
    obtain ⟨us, vs, inner, heq, hbelow, hrest⟩ := hcalls.split
    rw [heq]
    exact ⟨opened', .enter hp hloc.1 hloc.2 hbelow hrest⟩
  | case4 opened p rest loc hp hloc ih =>
    obtain ⟨opened', hrest⟩ := ih
    refine ⟨opened', hrest.pass fun l hl hdir => ?_⟩
    rw [hp, Option.some.injEq] at hl
    subst hl
    by_contra hnew
    exact hloc ⟨hdir, hnew⟩

/-- One sequence of calls is possible. -/
theorem Calls.unique {inner inner' : List Location} (h : Calls s below opened paths visits inner)
    (h' : Calls s below opened paths visits' inner') : visits = visits' ∧ inner = inner' := by
  induction h generalizing visits' inner' with
  | done =>
    cases h'
    exact ⟨rfl, rfl⟩
  | pass hclosed hrest ih =>
    cases h' with
    | pass _ hrest' =>
      obtain ⟨rfl, rfl⟩ := ih hrest'
      exact ⟨rfl, rfl⟩
    | enter hloc hdir hnew _ _ => exact absurd (hclosed _ hloc hdir) hnew
  | enter hloc hdir hnew hbelow hrest ihbelow ihrest =>
    cases h' with
    | pass hclosed _ => exact absurd (hclosed _ hloc hdir) hnew
    | enter hloc' _ _ hbelow' hrest' =>
      obtain rfl := Option.some.inj (hloc.symm.trans hloc')
      obtain ⟨rfl, rfl⟩ := ihbelow hbelow'
      obtain ⟨rfl, rfl⟩ := ihrest hrest'
      exact ⟨rfl, rfl⟩

theorem calls_iff :
    (∃ opened', Calls s below opened paths visits opened') ↔
      visits = walk s below opened paths := by
  obtain ⟨inner, hcalls⟩ := exists_calls s below opened paths
  constructor
  · rintro ⟨opened', h⟩
    exact (h.unique hcalls).1
  · rintro rfl
    exact ⟨inner, hcalls⟩

/-! ## What is read -/

/-- The number of entries in the directories of a store. -/
def entryCount (s : Store) : Nat := ∑ d ∈ s.directories.toFinset, (s.entriesAt d).length

/-- An entry is a node with a name below the directory. -/
theorem length_entriesAt (hs : s.IsTree) (d : Location) :
    (s.entriesAt d).length = s.nodes.countP fun e => decide (e.1.dropLast = d) := by
  have hentry : ∀ e ∈ s.nodes, (entryName? d e.1).isSome = true ↔ e.1.dropLast = d := by
    intro e he
    simp only [Option.isSome_iff_exists, entryName?_eq_some_iff]
    constructor
    · rintro ⟨n, hn⟩
      rw [hn, List.dropLast_concat]
    · rintro rfl
      exact ⟨e.1.getLast (hs.parent e he).1, (List.dropLast_append_getLast _).symm⟩
  rw [entriesAt, List.length_filterMap_eq_countP]
  exact List.countP_congr fun e he => by rw [hentry e he, decide_eq_true_iff]

/-- What has its key in a set is counted under one of the keys. -/
theorem sum_countP_eq_length {α β : Type} [DecidableEq β] {key : α → β} {t : Finset β} {l : List α}
    (h : ∀ x ∈ l, key x ∈ t) : ∑ d ∈ t, l.countP (fun x => decide (key x = d)) = l.length := by
  induction l with
  | nil => simp
  | cons x l ih =>
    obtain ⟨hx, hl⟩ := List.forall_mem_cons.mp h
    simp only [List.countP_cons, decide_eq_true_eq, Finset.sum_add_distrib, ih hl,
      Finset.sum_ite_eq, if_pos hx, List.length_cons]

/-- **Of a tree, every node is one entry.** -/
theorem entryCount_eq_length (hs : s.IsTree) : s.entryCount = s.nodes.length := by
  rw [entryCount, Finset.sum_congr rfl fun d _ => length_entriesAt hs d]
  refine sum_countP_eq_length fun e he => ?_
  rw [List.mem_toFinset, mem_directories_iff hs]
  exact (hs.parent e he).2

/-- The directories whose entries a traversal reads, in this order. -/
def reads (s : Store) (visits : List Visit) : List Location :=
  (openedPaths visits).filterMap s.canonical?

/-- **No directory is read twice.** -/
theorem nodup_reads : (s.reads (walk s below opened paths)).Nodup := by
  rw [reads, List.Nodup, List.pairwise_filterMap]
  refine nodup_openedPaths.imp_of_mem fun hp hq hne loc hloc loc' hloc' heq => ?_
  exact hne (opened_unique hp hq (by rw [hloc, hloc', heq]))

theorem mem_directories_of_mem_reads (h : loc ∈ s.reads (walk s below opened paths)) :
    loc ∈ s.directories := by
  obtain ⟨p, hp, hloc⟩ := List.mem_filterMap.mp h
  obtain ⟨loc', hdir, hloc'⟩ := canonical?_of_mem_openedPaths hp
  rwa [← Option.some.inj (hloc'.symm.trans hloc)]

/-! ## What is found -/

/-- Of the children of a path are found as many as there are names for in the directory that it
denotes. -/
def FoundAmong (s : Store) (found : Path → List Path) (names : Location → List Text) : Prop :=
  ∀ p, (found p).length ≤ ((s.canonical? p).elim [] names).length

theorem FoundAmong.length_flatMap_le (h : s.FoundAmong found names) (paths : List Path) :
    (paths.flatMap found).length ≤ ((paths.filterMap s.canonical?).flatMap names).length := by
  induction paths with
  | nil => exact le_rfl
  | cons p paths ih =>
    have hp := h p
    rw [List.flatMap_cons, List.length_append, List.filterMap_cons]
    cases hc : s.canonical? p with
    | none =>
      rw [hc] at hp
      exact (Nat.add_le_add hp ih).trans_eq (Nat.zero_add _)
    | some loc =>
      rw [hc] at hp
      rw [List.flatMap_cons, List.length_append]
      exact Nat.add_le_add hp ih

/-- **What is found in the directories that a walk opens** is no more than there are names for in
all directories. -/
theorem FoundAmong.length_le (h : s.FoundAmong found names) :
    ((openedPaths (walk s below opened paths)).flatMap found).length ≤
      ∑ d ∈ s.directories.toFinset, (names d).length := by
  have hsub : (s.reads (walk s below opened paths)).toFinset ⊆ s.directories.toFinset :=
    fun loc hloc => List.mem_toFinset.mpr
      (mem_directories_of_mem_reads (List.mem_toFinset.mp hloc))
  calc ((openedPaths (walk s below opened paths)).flatMap found).length
      ≤ ((s.reads (walk s below opened paths)).flatMap names).length := h.length_flatMap_le _
    _ = ∑ d ∈ (s.reads (walk s below opened paths)).toFinset, (names d).length := by
        rw [List.length_flatMap, List.sum_toFinset _ nodup_reads]
    _ ≤ ∑ d ∈ s.directories.toFinset, (names d).length := Finset.sum_le_sum_of_subset hsub

/-- A traversal visits what it starts from and what is found below the directories it opens. -/
theorem FoundAmong.length_walk_le (h : s.FoundAmong below names) :
    (walk s below opened paths).length ≤
      paths.length + ∑ d ∈ s.directories.toFinset, (names d).length := by
  have hperm := (perm_walk s below opened paths).length_eq
  rw [List.length_map, List.length_append] at hperm
  rw [hperm]
  exact Nat.add_le_add_left h.length_le _

theorem FoundAmong.mono (h : s.FoundAmong found names)
    (hle : ∀ p, (found' p).length ≤ (found p).length) : s.FoundAmong found' names :=
  fun p => (hle p).trans (h p)

/-- Children are entries of the directory. -/
theorem foundAmong_children (s : Store) : s.FoundAmong s.children s.entriesAt := by
  intro p
  rw [Store.children, entries?, List.length_map]
  cases s.canonical? p with
  | none => exact le_rfl
  | some d =>
    dsimp only [Option.elim]
    split
    · exact le_rfl
    · exact Nat.zero_le _

/-! ## What an entry leads to -/

/-- The entry of a directory leads to a node, as long as enough links may be followed. -/
def LeadsTo (s : Store) (d : Location) (n : Text) (node : Node) : Prop :=
  ∃ links l, follow s false links d [n] = .ok (.at l) ∧ s.node? l = some node

theorem LeadsTo.unique (h : LeadsTo s d n node) (h' : LeadsTo s d n node') : node = node' := by
  obtain ⟨links, l, hl, hnode⟩ := h
  obtain ⟨links', l', hl', hnode'⟩ := h'
  rw [follow_unique links links' [n] [n] d rfl hl hl', hnode'] at hnode
  exact (Option.some.inj hnode).symm

/-- What a joined name denotes, the entry of that name leads to, under whatever path the
directory was reached. -/
theorem leadsTo_of_lookup? (hp : s.canonical? p = some d) (hn : IsEntryName n)
    (h : s.lookup? (p.join n) = some node) : LeadsTo s d n node := by
  obtain ⟨l, hl, hnode⟩ := Option.bind_eq_some_iff.mp h
  obtain ⟨links, hlinks⟩ := resolve_join hp hn
  rw [canonical?_eq_some_iff, hlinks] at hl
  exact ⟨links, l, hl, hnode⟩

open scoped Classical in
/-- The entries of a directory that lead to a node of some kind. -/
noncomputable def namesOf (s : Store) (P : Node → Prop) (d : Location) : List Text :=
  (s.entriesAt d).filter fun n => decide (∃ node, LeadsTo s d n node ∧ P node)

/-- No entry leads to nodes of two kinds. -/
theorem length_namesOf_add_le (hPQ : ∀ node, P node → ¬ Q node) (d : Location) :
    (s.namesOf P d).length + (s.namesOf Q d).length ≤ (s.entriesAt d).length := by
  classical
  rw [namesOf, namesOf, List.length_eq_length_filter_add
    (fun n => decide (∃ node, LeadsTo s d n node ∧ P node)) (l := s.entriesAt d)]
  refine Nat.add_le_add_left ?_ _
  rw [← List.countP_eq_length_filter, ← List.countP_eq_length_filter]
  refine List.countP_mono_left fun n _ hQ => ?_
  obtain ⟨node, hnode, hQ⟩ := of_decide_eq_true hQ
  rw [Bool.not_eq_true', decide_eq_false_iff_not]
  rintro ⟨node', hnode', hP⟩
  rw [hnode'.unique hnode] at hP
  exact hPQ node hP hQ

/-- Children that denote a node of some kind are among the entries that lead to one. -/
theorem foundAmong_filter (hs : s.IsTree) {keep : Path → Bool}
    (hkeep : ∀ p, keep p = true → ∃ node, s.lookup? p = some node ∧ P node) :
    s.FoundAmong (fun p => (s.children p).filter keep) (s.namesOf P) := by
  classical
  intro p
  dsimp only
  rw [Store.children, entries?]
  cases hp : s.canonical? p with
  | none => exact le_rfl
  | some d =>
    dsimp only [Option.elim]
    split
    · rw [Option.getD_some, List.filter_map, List.length_map, namesOf,
        ← List.countP_eq_length_filter, ← List.countP_eq_length_filter]
      refine List.countP_mono_left fun n hn hnode => decide_eq_true ?_
      obtain ⟨_, hentry⟩ := mem_entriesAt.mp hn
      obtain ⟨node, hlookup, hP⟩ := hkeep _ hnode
      exact ⟨node, leadsTo_of_lookup? hp (names_of_node? hs hentry n (by simp)) hlookup, hP⟩
    · exact Nat.zero_le _

/-! ## Traversals from a root -/

/-- A traversal from a path comes to an end and reads no directory twice. -/
structure Ends (s : Store) (below : Path → List Path) (root : Path) : Prop where
  /-- The calls of the walk are possible, and no others. -/
  calls_iff : ∀ visits, (∃ opened, Calls s below [] [root] visits opened) ↔
    visits = tour s below root
  reads_nodup : (s.reads (tour s below root)).Nodup
  /-- Each call but the root's is for an entry of a directory. -/
  length_le : (tour s below root).length ≤ s.entryCount + 1

theorem ends_of_foundAmong (h : s.FoundAmong below s.entriesAt) : Ends s below root where
  calls_iff _ := calls_iff
  reads_nodup := nodup_reads
  length_le := by
    rw [Nat.add_comm]
    exact h.length_walk_le

end Store

namespace Module

open ModuleDocs.Path ModuleDocs.Store

variable {s : Store} {root : Path} {skip : Path → Bool} {names : Location → List Text}

theorem length_subdirectories_le (s : Store) (skip : Path → Bool) (p : Path) :
    (subdirectories s skip p).length ≤ ((s.children p).filter s.isDirectory).length := by
  refine (List.length_filter_le _ _).trans ?_
  rw [length_sort]

theorem foundAmong_subdirectories (s : Store) (skip : Path → Bool) :
    s.FoundAmong (subdirectories s skip) s.entriesAt :=
  (foundAmong_children s).mono fun p =>
    (length_subdirectories_le s skip p).trans (List.length_filter_le _ _)

theorem foundAmong_openSubdirectories (s : Store) :
    s.FoundAmong (openSubdirectories s) s.entriesAt :=
  (foundAmong_children s).mono fun _ =>
    (List.length_filter_le _ _).trans (List.length_filter_le _ _)

/-- A module is found in a directory that is read. -/
theorem length_discoverWhere_le (h : s.FoundAmong (subdirectories s skip) names)
    (container : Text) : (discoverWhere s skip root container).length ≤
      ∑ d ∈ s.directories.toFinset, (names d).length := by
  have hbelow : (directoriesBelow s skip root).length ≤
      ∑ d ∈ s.directories.toFinset, (names d).length := by
    have htour : (tour s (subdirectories s skip) root).length =
        (directoriesBelow s skip root).length + 1 := by
      rw [← List.length_map (f := Visit.path), map_path_tour, List.length_cons]
    have hvisits : (tour s (subdirectories s skip) root).length ≤
        1 + ∑ d ∈ s.directories.toFinset, (names d).length := h.length_walk_le
    omega
  rw [discoverWhere, (List.mergeSort_perm _ _).length_eq]
  exact (List.length_filterMap_le _ _).trans hbelow

/-- A file is found in a directory that is read. -/
theorem length_filesBelow_le (h : s.FoundAmong (fun p => (s.children p).filter s.isFile) names) :
    (filesBelow s root).length ≤ ∑ d ∈ s.directories.toFinset, (names d).length := by
  rw [filesBelow_eq, length_sort]
  exact h.length_le

/-- Modules and files are found at different entries, as no entry leads to a directory and to a
file. -/
theorem length_discoverWhere_add_le (hs : s.IsTree) (root root' : Path) (skip : Path → Bool)
    (container : Text) :
    (discoverWhere s skip root container).length + (filesBelow s root').length ≤
      s.entryCount := by
  have hdirectories : s.FoundAmong (subdirectories s skip) (s.namesOf (· = .directory)) :=
    (foundAmong_filter (P := (· = .directory)) hs fun p hp =>
      ⟨.directory, by simpa [isDirectory] using hp, rfl⟩).mono (length_subdirectories_le s skip)
  have hfiles : s.FoundAmong (fun p => (s.children p).filter s.isFile)
      (s.namesOf fun node => ∃ b, node = .file b) := by
    refine foundAmong_filter hs fun p hp => ?_
    obtain ⟨l, b, hl, hnode⟩ := isFile_iff.mp hp
    exact ⟨.file b, by rw [lookup?, hl, Option.bind_some, hnode], b, rfl⟩
  refine (Nat.add_le_add (length_discoverWhere_le hdirectories container)
    (length_filesBelow_le hfiles)).trans ?_
  rw [← Finset.sum_add_distrib]
  refine Finset.sum_le_sum fun d _ => length_namesOf_add_le ?_ d
  rintro _ rfl ⟨b, hb⟩
  cases hb

/-- **Traversals end, whatever the links of a store do.** Both of them, the one for modules and
the one for files, have one possible sequence of calls and read no directory twice. What they
find is no more than the store has entries, in a tree even when modules and files are counted
together. -/
theorem traversals_end (s : Store) (root : Path) :
    (∀ skip, Ends s (subdirectories s skip) root) ∧
      Ends s (openSubdirectories s) root ∧
      (∀ skip container, (discoverWhere s skip root container).length ≤ s.entryCount) ∧
      (∀ settings modules, discover s root settings = .ok modules →
        modules.length ≤ s.entryCount) ∧
      (filesBelow s root).length ≤ s.entryCount ∧
      (s.IsTree → ∀ root' skip container,
        (discoverWhere s skip root container).length + (filesBelow s root').length ≤
          s.entryCount) := by
  have hmodules (skip : Path → Bool) (container : Text) :
      (discoverWhere s skip root container).length ≤ s.entryCount :=
    length_discoverWhere_le (foundAmong_subdirectories s skip) container
  refine ⟨fun skip => ends_of_foundAmong (foundAmong_subdirectories s skip),
    ends_of_foundAmong (foundAmong_openSubdirectories s), hmodules,
    fun settings modules h => ?_,
    length_filesBelow_le ((foundAmong_children s).mono fun p => List.length_filter_le _ _),
    fun hs root' skip container => length_discoverWhere_add_le hs root root' skip container⟩
  obtain ⟨-, rules, -, rfl⟩ := exists_rules_of_discover h
  exact hmodules _ _

namespace Sample

/-- A module whose directory leads back to the root, a directory in itself, two links to each
other, and one to nothing. -/
def looped : Store where
  home := []
  nodes := ["c", "c/foo", "c/foo/library"].map folder ++
    [(["c".toList, "foo".toList, "library".toList, "up".toList], .link ⟨"../../..".toList⟩),
      (["c".toList, "foo".toList, "self".toList], .link ⟨['.']⟩),
      (["c".toList, ['x']], .link ⟨['y']⟩), (["c".toList, ['y']], .link ⟨['x']⟩),
      (["c".toList, "lost".toList], .link ⟨"nowhere".toList⟩)]

end Sample

open Module.Sample in
/-- In the sample the calls for files end, and discovery finds at most as many modules as there
are entries. -/
theorem traversals_end_sample :
    (∃ visits opened, Calls looped (openSubdirectories looped) [] [⟨['.']⟩] visits opened) ∧
      (∃ modules, discover looped ⟨['.']⟩ { disableGitignore := true } = .ok modules ∧
        modules.length ≤ 8) ∧
      looped.IsTree ∧
      (discoverWhere looped (fun _ => false) ⟨['.']⟩ ['c']).length +
        (filesBelow looped ⟨['c']⟩).length ≤ 8 := by
  obtain ⟨-, hfiles, -, hdiscover, -, hboth⟩ := traversals_end looped ⟨['.']⟩
  have hroot : looped.isDirectory ⟨['.']⟩ = true :=
    isDirectory_iff.mpr ⟨[], canonical?_current node?_nil, node?_nil⟩
  have htree : looped.IsTree := by decide +kernel
  have hcount : looped.entryCount = 8 := entryCount_eq_length htree
  rw [← hcount]
  exact ⟨⟨_, (hfiles.calls_iff _).mpr rfl⟩,
    ⟨_, discover_eq hroot rfl, hdiscover _ _ (discover_eq hroot rfl)⟩, htree, hboth htree _ _ _⟩

end Module

end ModuleDocs

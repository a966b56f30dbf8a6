import Mathlib.Data.Option.Basic
import ModuleDocs.Module.Discovery
import ModuleDocs.Proofs.Store.Walk

/-!
# The modules a walk discovers

Below a source root without links the discovered modules are settled by the tree alone:
a directory counts if it and all directories on the way to it are entered, and its path
has the shape of a module directory (`mem_discoverWhere_iff`). Each is listed once, under
the path relative to the root, in the order of these paths (`discover_exact`). What the
ignore rules are plays no part; they are any predicate on paths.
-/

namespace ModuleDocs

namespace Module

open ModuleDocs.Path ModuleDocs.Store

variable {s : Store} {root p q : Path} {base : Location} {skip : Path → Bool} {container : Text}
  {ns ms : List Text} {m : ModuleDir}

/-! ## Reading a path as a module directory -/

/-- Joined segments are read back. -/
theorem segments_intercalate_of_solid (hne : ns ≠ []) (h : ∀ n ∈ ns, n ≠ [] ∧ '/' ∉ n) :
    segments (List.intercalate ['/'] ns) = ns := by
  rw [segments, List.splitOn_intercalate '/' (fun n hn => (h n hn).2) hne, List.filter_eq_self]
  intro n hn
  simpa using (h n hn).1

theorem segments_intercalate (hne : ns ≠ []) (h : ∀ n ∈ ns, IsEntryName n) :
    segments (List.intercalate ['/'] ns) = ns :=
  segments_intercalate_of_solid hne fun n hn => ⟨(h n hn).ne_nil, (h n hn).solid⟩

/-- What a module directory is read as. -/
theorem classifyPath_eq_some {relative : Text} (h : classifyPath s root relative container = some m) :
    m.relative = List.intercalate ['/'] (segments relative) ∧
      m.path = root.join m.relative ∧
      (segments relative).getLast?.bind ModuleKind.ofSegment? = some m.kind ∧
      (segments relative).dropLast.getLast? = some m.name ∧
      m.nameSpace = family m.name ∧ m.group = family m.name := by
  simp only [classifyPath, bind, Option.bind_eq_some_iff] at h
  obtain ⟨kind, ⟨last, hlast, hkind⟩, name, hname, _, _, _, _, hm⟩ := h
  cases hm
  exact ⟨rfl, rfl, by rw [hlast]; exact hkind, hname, rfl, rfl⟩

theorem not_denied_of_classifyPath {relative : Text}
    (h : classifyPath s root relative container = some m) :
    hasDeniedSegment (segments relative) = false := by
  simp only [classifyPath, bind, Option.bind_eq_some_iff, Option.guard_eq_some',
    Bool.not_eq_true'] at h
  obtain ⟨_, _, _, _, _, _, _, ⟨_, hdenied⟩, _⟩ := h
  exact hdenied

/-- A path with a segment `testing` is denied. -/
theorem hasDeniedSegment_of_testing (h : "testing".toList ∈ ns) : hasDeniedSegment ns = true := by
  induction ns with
  | nil => cases h
  | cons n ns ih =>
    rw [hasDeniedSegment]
    rcases List.mem_cons.mp h with rfl | h
    · simp
    · simp [ih h]

theorem relative_of_classifyPath (hne : ns ≠ []) (hns : ∀ n ∈ ns, IsEntryName n)
    (h : classifyPath s root (List.intercalate ['/'] ns) container = some m) :
    m.relative = List.intercalate ['/'] ns := by
  rw [(classifyPath_eq_some h).1, segments_intercalate hne hns]

/-- What a path is read as depends on where the root leads, at most. -/
theorem classifyPath_congr {s' : Store} {relative : Text}
    (hroot : s'.canonical? root = s.canonical? root) :
    classifyPath s' root relative container = classifyPath s root relative container := by
  have hunder (segs : List Text) (i : Nat) : underContainer s' root container segs i =
      underContainer s root container segs i := by
    rw [underContainer, underContainer, rootIsContainer, rootIsContainer, hroot]
  simp only [classifyPath, hunder]

/-! ## The directories a walk meets -/

/-- Whether a walk goes into a directory. -/
def isEntered (skip : Path → Bool) (p : Path) : Bool :=
  match p.name? with
  | some n => !(isSkippedName n || skip p)
  | none => false

theorem selects_subdirectories (s : Store) (skip : Path → Bool) :
    Selects s (isEntered skip) (subdirectories s skip) := by
  intro p q
  rw [subdirectories, List.mem_filter, mem_sort, List.mem_filter, and_assoc]
  rfl

theorem ordered_subdirectories (hs : s.IsTree) (skip : Path → Bool) :
    Ordered (subdirectories s skip) where
  descends := (selects_subdirectories s skip).descends hs
  increasing p := by
    refine List.Pairwise.sublist List.filter_sublist (increasing_sort ?_)
    exact (nodup_children hs p).sublist (List.filter_sublist.map _)

/-- A directory below a root that a walk meets: neither it nor a directory on the way
is passed over. -/
structure IsMet (s : Store) (root : Path) (base : Location) (skip : Path → Bool)
    (ns : List Text) : Prop where
  proper : ns ≠ []
  directory : s.node? (base ++ ns) = some .directory
  entered : ∀ ms n, ms ++ [n] <+: ns →
    isSkippedName n = false ∧ skip (root.descend (ms ++ [n])) = false

instance : Decidable (IsMet s root base skip ns) :=
  decidable_of_iff (ns ≠ [] ∧ s.node? (base ++ ns) = some .directory ∧
      ∀ k (hk : k < ns.length), isSkippedName ns[k] = false ∧
        skip (root.descend (ns.take k ++ [ns[k]])) = false)
    ⟨fun h => ⟨h.1, h.2.1, forall_step_iff.mpr h.2.2⟩,
      fun h => ⟨h.proper, h.directory, forall_step_iff.mp h.entered⟩⟩

theorem IsMet.named (h : IsMet s root base skip ns) (hs : s.IsTree) : ∀ n ∈ ns, IsEntryName n :=
  fun n hn => names_of_node? hs h.directory n (by simp [hn])

theorem keptAlong_isEntered (hns : ∀ n ∈ ns, IsEntryName n) :
    KeptAlong (isEntered skip) root ns ↔ ∀ ms n, ms ++ [n] <+: ns →
      isSkippedName n = false ∧ skip (root.descend (ms ++ [n])) = false := by
  refine forall_congr' fun ms => forall_congr' fun n => imp_congr_right fun hpre => ?_
  have hn := hns n (hpre.subset (by simp))
  rw [isEntered, name?_descend _ _ hn]
  simp

/-- The root is the first visit of a walk. -/
theorem map_path_tour (s : Store) (skip : Path → Bool) (root : Path) :
    (tour s (subdirectories s skip) root).map Visit.path = root :: directoriesBelow s skip root := by
  have hfirst : ∃ v vs, tour s (subdirectories s skip) root = v :: vs ∧ v.path = root := by
    rw [tour, walk]
    split
    · exact ⟨_, _, rfl, rfl⟩
    · split
      · exact ⟨_, _, rfl, rfl⟩
      · exact ⟨_, _, rfl, rfl⟩
  obtain ⟨v, vs, hvs, hv⟩ := hfirst
  rw [directoriesBelow, ← tour, hvs, List.map_cons, hv, List.tail_cons]

theorem increasing_tour (hs : s.IsTree) (skip : Path → Bool) (root : Path) :
    Increasing Path.components ((tour s (subdirectories s skip) root).map Visit.path) :=
  List.pairwise_map.mpr (increasing_walk (ordered_subdirectories hs skip)
    (List.pairwise_singleton _ _))

/-- What is visited earlier is smaller. -/
theorem lt_of_tour (hs : s.IsTree) {a b : List Visit} {u v : Visit}
    (h : tour s (subdirectories s skip) root = a ++ v :: b) (hu : u ∈ a) :
    orderComponents u.path.components v.path.components = .lt := by
  have hsorted := List.pairwise_map.mp (increasing_tour hs skip root)
  rw [h] at hsorted
  exact (List.pairwise_append.mp hsorted).2.2 u hu v List.mem_cons_self

theorem increasing_directoriesBelow (hs : s.IsTree) (skip : Path → Bool) (root : Path) :
    Increasing Path.components (directoriesBelow s skip root) := by
  have h := increasing_tour hs skip root
  rw [map_path_tour] at h
  exact (List.pairwise_cons.mp h).2

/-- The paths met below the root are those with a way of at least one name. -/
theorem mem_directoriesBelow_iff (hs : s.IsTree) :
    p ∈ directoriesBelow s skip root ↔
      ∃ ns, ns ≠ [] ∧ p = root.descend ns ∧ IsWay s (subdirectories s skip) root ns := by
  have hirrefl : root ∉ directoriesBelow s skip root := by
    intro hmem
    have h := increasing_tour hs skip root
    rw [map_path_tour] at h
    simpa using (List.pairwise_cons.mp h).1 root hmem
  constructor
  · intro hp
    have hvisited : p ∈ (tour s (subdirectories s skip) root).map Visit.path := by
      rw [map_path_tour]
      exact List.mem_cons_of_mem _ hp
    obtain ⟨ns, rfl, hway⟩ := exists_way ((selects_subdirectories s skip).descends hs) p hvisited
    refine ⟨ns, ?_, rfl, hway⟩
    rintro rfl
    exact hirrefl hp
  · rintro ⟨ns, hne, rfl, hway⟩
    have hvisited := hway.visited
    rw [map_path_tour] at hvisited
    refine (List.mem_cons.mp hvisited).resolve_left fun h => hne ?_
    exact descend_inj hway.named (by simp) (congrArg Path.components h)

/-- The modules are the paths met below the root that have the shape of one. -/
theorem mem_discoverWhere_iff_way (hs : s.IsTree) : m ∈ discoverWhere s skip root container ↔
    ∃ ns, ns ≠ [] ∧ IsWay s (subdirectories s skip) root ns ∧
      classifyPath s root (List.intercalate ['/'] ns) container = some m := by
  simp only [discoverWhere, (List.mergeSort_perm _ _).mem_iff, List.mem_filterMap, bind,
    mem_directoriesBelow_iff hs]
  constructor
  · rintro ⟨p, ⟨ns, hne, rfl, hway⟩, hm⟩
    rw [relativeTo?_descend hway.named] at hm
    exact ⟨ns, hne, hway, hm⟩
  · rintro ⟨ns, hne, hway, hm⟩
    refine ⟨_, ⟨ns, hne, rfl, hway⟩, ?_⟩
    rw [relativeTo?_descend hway.named]
    exact hm

section LinkFree

variable (hs : s.IsTree) (hbase : s.LinkFree base) (hroot : s.canonical? root = some base)
  (hdir : s.node? base = some .directory)

include hs hbase hroot hdir

theorem isMet_iff : IsMet s root base skip ns ↔
    ns ≠ [] ∧ IsWay s (subdirectories s skip) root ns := by
  have hsel := selects_subdirectories s skip
  rw [isWay_iff hs hbase hroot hdir hsel]
  constructor
  · intro h
    exact ⟨h.proper, h.directory, (keptAlong_isEntered (h.named hs)).mpr h.entered⟩
  · rintro ⟨hne, hnode, hkept⟩
    refine ⟨hne, hnode, (keptAlong_isEntered fun n hn => ?_).mp hkept⟩
    exact names_of_node? hs hnode n (by simp [hn])

/-- **The modules below a root are the directories met that have the shape of one.** -/
theorem mem_discoverWhere_iff : m ∈ discoverWhere s skip root container ↔
    ∃ ns, IsMet s root base skip ns ∧
      classifyPath s root (List.intercalate ['/'] ns) container = some m := by
  simp only [mem_discoverWhere_iff_way hs, isMet_iff hs hbase hroot hdir, and_assoc]

end LinkFree

/-! ## The list of modules -/

/-- The modules come in strict order of their relative paths, links or not. -/
theorem increasing_discoverWhere (hs : s.IsTree) :
    (discoverWhere s skip root container).Pairwise
      fun a b => compare a.relative b.relative = .lt := by
  let read (p : Path) : Option ModuleDir := do
    classifyPath s root (← relativeTo? root p) container
  let found := (directoriesBelow s skip root).filterMap read
  have hread {ns : List Text} (hne : ns ≠ []) (hns : ∀ n ∈ ns, IsEntryName n) {m : ModuleDir}
      (hm : read (root.descend ns) = some m) : m.relative = List.intercalate ['/'] ns := by
    simp only [read, bind, relativeTo?_descend hns, Option.bind_some] at hm
    exact relative_of_classifyPath hne hns hm
  -- different paths have different names and so different relative paths
  have hdistinct : (found.map (·.relative)).Nodup := by
    rw [List.Nodup, List.pairwise_map, List.pairwise_filterMap]
    refine (increasing_directoriesBelow hs skip root).imp_of_mem ?_
    intro p q hp hq hlt a ha b hb hab
    obtain ⟨ns, hns, rfl, hway⟩ := (mem_directoriesBelow_iff hs).mp hp
    obtain ⟨ms, hms, rfl, hway'⟩ := (mem_directoriesBelow_iff hs).mp hq
    rw [hread hns hway.named ha, hread hms hway'.named hb] at hab
    obtain rfl := Text.intercalate_inj hns hms (fun n hn => (hway.named n hn).solid)
      (fun n hn => (hway'.named n hn).solid) hab
    simp at hlt
  have hsorted : (discoverWhere s skip root container).Pairwise
      fun a b => (compare a.relative b.relative).isLE = true := by
    refine List.pairwise_mergeSort ?_ ?_ _
    · exact fun _ _ _ => Std.TransCmp.isLE_trans
    · intro a b
      cases h : compare a.relative b.relative with
      | gt => rw [Std.OrientedCmp.lt_of_gt h]; rfl
      | lt | eq => rfl
  have hnodup : (discoverWhere s skip root container).Pairwise
      fun a b => a.relative ≠ b.relative :=
    List.pairwise_map.mp (((List.mergeSort_perm found _).map ModuleDir.relative).nodup_iff.mpr hdistinct)
  refine (hsorted.and hnodup).imp fun {a b} hab => ?_
  cases h : compare a.relative b.relative with
  | lt => rfl
  | eq => exact absurd (Std.LawfulEqCmp.eq_of_compare h) hab.2
  | gt => simp [h] at hab

/-- A list in strict order of the relative paths holds one module of each. -/
theorem filter_relative_eq {l : List ModuleDir}
    (hl : l.Pairwise fun a b => compare a.relative b.relative = .lt) {relative : Text}
    {o : Option ModuleDir} (h : ∀ m, o = some m ↔ m ∈ l ∧ m.relative = relative) :
    l.filter (fun m => m.relative = relative) = o.toList := by
  have hmem (m : ModuleDir) : m ∈ l.filter (fun m => m.relative = relative) ↔ o = some m := by
    rw [h, List.mem_filter, decide_eq_true_eq]
  have hpair := hl.filter (fun m => decide (m.relative = relative))
  cases hf : l.filter (fun m => m.relative = relative) with
  | nil =>
    cases o with
    | none => rfl
    | some m => simpa [hf] using (hmem m).mpr rfl
  | cons m ms =>
    rw [hf] at hpair hmem
    have hm := (hmem m).mp List.mem_cons_self
    rw [hm]
    refine congrArg (m :: ·) (List.eq_nil_iff_forall_not_mem.mpr fun k hk => ?_)
    have hk' := (hmem k).mp (List.mem_cons_of_mem _ hk)
    rw [hm, Option.some.injEq] at hk'
    have hlt := (List.pairwise_cons.mp hpair).1 k hk
    simp [hk'] at hlt

/-- The directories that the ignore file and the exclude rules pass over. -/
def isPassedOver (s : Store) (root : Path) (settings : ScanSettings) (rules : IgnoreRules)
    (p : Path) : Bool :=
  (if settings.disableGitignore then .none root else ignoreFile s root).ignoresDirectory p ||
    rules.ignoresDirectory p

/-- A discovery with settings is a walk, once the patterns are read. -/
theorem discover_eq {settings : ScanSettings} {rules : IgnoreRules}
    (hroot : s.isDirectory root = true) (hrules : excludeRules root settings.exclude = .ok rules) :
    discover s root settings =
      .ok (discoverWhere s (isPassedOver s root settings rules) root settings.container) := by
  simp only [discover, hroot, hrules, bind, Except.bind, pure, Except.pure, Bool.not_true,
    Bool.false_eq_true, if_false]
  rfl

/-- A discovery that succeeds is such a walk. -/
theorem exists_rules_of_discover {settings : ScanSettings} {modules : List ModuleDir}
    (h : discover s root settings = .ok modules) :
    s.isDirectory root = true ∧ ∃ rules, excludeRules root settings.exclude = .ok rules ∧
      modules = discoverWhere s (isPassedOver s root settings rules) root settings.container := by
  by_cases hroot : s.isDirectory root = true
  · cases hrules : excludeRules root settings.exclude with
    | ok rules =>
      rw [discover_eq hroot hrules, Except.ok.injEq] at h
      exact ⟨hroot, rules, rfl, h.symm⟩
    | error e => simp [discover, hroot, hrules, bind, Except.bind] at h
  · simp [discover, hroot, bind, Except.bind, throw, throwThe, MonadExceptOf.throw] at h

/-- **The walk is exact**: below a root without links, whatever the ignore rules are, the
discovered modules are in strict order of their relative paths; each is what its relative
path is read as; and of every directory met there is exactly one, if its path can be read,
and none else. A discovery with settings is such a walk, once its patterns are read. -/
theorem discover_exact (hs : s.IsTree) (hroot : s.canonical? root = some base)
    (hdir : s.node? base = some .directory) (hbase : s.LinkFree base) :
    (∀ (ignored excluded : Path → Bool) (container : Text),
      let found := discoverWhere s (fun p => ignored p || excluded p) root container
      (found.Pairwise fun a b => compare a.relative b.relative = .lt) ∧
      (∀ m ∈ found, classifyPath s root m.relative container = some m ∧
        ∃ ns, IsMet s root base (fun p => ignored p || excluded p) ns ∧
          m.relative = List.intercalate ['/'] ns) ∧
      ∀ ns, IsMet s root base (fun p => ignored p || excluded p) ns →
        found.filter (fun m => m.relative = List.intercalate ['/'] ns) =
          (classifyPath s root (List.intercalate ['/'] ns) container).toList) ∧
    ∀ (settings : ScanSettings) (rules : IgnoreRules),
      excludeRules root settings.exclude = .ok rules →
      discover s root settings =
        .ok (discoverWhere s (isPassedOver s root settings rules) root settings.container) := by
  refine ⟨?_, ?_⟩
  · intro ignored excluded container found
    have hread {ns : List Text} (hmet : IsMet s root base (fun p => ignored p || excluded p) ns)
        {m : ModuleDir} (hm : classifyPath s root (List.intercalate ['/'] ns) container = some m) :
        m.relative = List.intercalate ['/'] ns :=
      relative_of_classifyPath hmet.proper (hmet.named hs) hm
    refine ⟨increasing_discoverWhere hs, ?_, ?_⟩
    · intro m hm
      obtain ⟨ns, hmet, hm⟩ := (mem_discoverWhere_iff hs hbase hroot hdir).mp hm
      have hrel := hread hmet hm
      exact ⟨hrel ▸ hm, ns, hmet, hrel⟩
    · intro ns hmet
      refine filter_relative_eq (increasing_discoverWhere hs) fun m => ?_
      rw [mem_discoverWhere_iff hs hbase hroot hdir]
      constructor
      · exact fun hm => ⟨⟨ns, hmet, hm⟩, hread hmet hm⟩
      · rintro ⟨⟨ms, hmet', hm⟩, hrel⟩
        rw [hread hmet' hm] at hrel
        obtain rfl := Text.intercalate_inj hmet'.proper hmet.proper
          (fun n hn => (hmet'.named hs n hn).solid) (fun n hn => (hmet.named hs n hn).solid) hrel
        exact hm
  · exact fun _ _ hrules => discover_eq (isDirectory_iff.mpr ⟨base, hroot, hdir⟩) hrules

namespace Sample

/-- A directory, by the names that lead to it. -/
def folder (names : String) : Location × Node := (names.toList.splitOn '/', .directory)

/-- A module below another one, and one in a directory that is passed over. -/
def nested : Store where
  home := []
  nodes := ["c", "c/a", "c/a/library", "c/a/library/b", "c/a/library/b/javaagent", "c/old",
    "c/old/library"].map folder

theorem linkFree_folders {home : Location} {names : List String} :
    Store.LinkFree ⟨home, names.map folder⟩ base := by
  refine linkFree_of_nodes fun e he t => ?_
  obtain ⟨n, _, rfl⟩ := List.mem_map.mp he
  simp [folder]

/-- The directories of the name `old` are passed over. -/
def isOld (p : Path) : Bool := p.name? == some "old".toList

end Sample

open Module.Sample in
/-- In the sample the module below another one is listed once, and the one in a directory
that is passed over is not. -/
theorem discover_exact_sample :
    let found := discoverWhere nested (fun p => isOld p || false) ⟨['.']⟩ ['c']
    found.filter (fun m => m.relative = "c/a/library/b/javaagent".toList) =
        [⟨⟨"./c/a/library/b/javaagent".toList⟩, "c/a/library/b/javaagent".toList, ['b'], ['b'],
          ['b'], .agent⟩] ∧
      ∀ m ∈ found, m.relative ≠ "c/old/library".toList := by
  obtain ⟨hexact, -⟩ := discover_exact (by decide +kernel : nested.IsTree)
    (canonical?_current node?_nil : nested.canonical? ⟨['.']⟩ = some []) node?_nil linkFree_folders
  obtain ⟨-, hof, hfound⟩ := hexact isOld (fun _ => false) ['c']
  refine ⟨?_, fun m hm hrel => ?_⟩
  · have hmet : IsMet nested ⟨['.']⟩ [] (fun p => isOld p || false)
        ["c".toList, "a".toList, "library".toList, "b".toList, "javaagent".toList] := by
      decide +kernel
    exact (hfound _ hmet).trans (by decide +kernel)
  · obtain ⟨-, ns, hmet, hns⟩ := hof m hm
    have hsolid : ∀ n ∈ ["c".toList, "old".toList, "library".toList], '/' ∉ n := by decide +kernel
    obtain rfl := Text.intercalate_inj hmet.proper
      (by simp : ["c".toList, "old".toList, "library".toList] ≠ []) (fun n hn => (hmet.named (by decide +kernel) n hn).solid) hsolid
      (hns.symm.trans hrel)
    have hpassed := (hmet.entered ["c".toList] "old".toList (by decide +kernel)).2
    exact absurd hpassed (by decide +kernel)

end Module

end ModuleDocs

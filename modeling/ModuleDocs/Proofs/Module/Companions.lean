import ModuleDocs.Proofs.Module.Files
import ModuleDocs.Proofs.Text.Joined

/-!
# The companion files of a module

Of the files below a module's directory, the sources and the build descriptors are chosen by
their names and by the segments that lead to them (`listsFiles_filter`). Without links this is
a matter of the tree alone: names below the root that lead to a file, through
directories that are neither hidden nor named `build`. The telemetry declarations are sorted
into groups by their names, of which no two share a name (`TelemetryGroup.accepts_unique`); the
group of the scope keeps the last file only, and no directory has two of them.
-/

namespace ModuleDocs

namespace Path

/-- The name ends in a dot and the extension, and something stands in front of the dot. -/
def HasExtension (n e : Text) : Prop := ∃ stem, stem ≠ [] ∧ n = stem ++ '.' :: e ∧ '.' ∉ e

theorem extension?_eq_some_iff {p : Path} {n e : Text} (hp : p.name? = some n) :
    p.extension? = some e ↔ HasExtension n e := by
  simp only [extension?, hp, bind, Option.bind_some, Option.bind_eq_some_iff]
  constructor
  · rintro ⟨⟨after, before⟩, hsplit, h⟩
    have hn : n.reverse = after ++ '.' :: before := Text.splitFirst?_eq_some hsplit
    have hafter := Text.not_mem_of_splitFirst? hsplit
    split at h
    · cases h
    · next hbefore =>
      obtain rfl := Option.some.inj h
      refine ⟨before.reverse, by simpa using hbefore, ?_, by simpa using hafter⟩
      rw [← List.reverse_reverse n, hn]
      simp
  · rintro ⟨stem, hstem, rfl, he⟩
    refine ⟨(e.reverse, stem.reverse), ?_, ?_⟩
    · rw [List.reverse_append, List.reverse_cons, List.append_assoc, List.singleton_append]
      exact Text.splitFirst?_append (by simpa using he)
    · rw [if_neg (by simpa using hstem), List.reverse_reverse]

end Path

/-! ## The groups of telemetry declarations -/

/-- What a telemetry declaration is about. -/
inductive TelemetryGroup where
  | scope
  | metrics
  | spans
  deriving DecidableEq

/-- The files of a group. -/
def TelemetryFiles.members (t : TelemetryFiles) : TelemetryGroup → List Path
  | .scope => t.scope.toList
  | .metrics => t.metrics
  | .spans => t.spans

namespace TelemetryGroup

variable {g h : TelemetryGroup} {n : Text}

/-- The file names of a group. -/
def Accepts : TelemetryGroup → Text → Prop
  | scope, n => n = "scope.yaml".toList
  | metrics, n => "metrics-".toList <+: n
  | spans, n => "spans-".toList <+: n

instance (g : TelemetryGroup) (n : Text) : Decidable (g.Accepts n) :=
  match g with
  | scope => inferInstanceAs (Decidable (n = "scope.yaml".toList))
  | metrics => inferInstanceAs (Decidable ("metrics-".toList <+: n))
  | spans => inferInstanceAs (Decidable ("spans-".toList <+: n))

/-- The first two characters of the file names of a group. -/
def mark : TelemetryGroup → Text
  | scope => ['s', 'c']
  | metrics => ['m', 'e']
  | spans => ['s', 'p']

theorem Accepts.take_two (hg : g.Accepts n) : n.take 2 = g.mark := by
  cases g with
  | scope =>
    rw [hg]
    rfl
  | metrics | spans =>
    obtain ⟨r, rfl⟩ := hg
    rfl

/-- **No name belongs to two groups.** -/
theorem accepts_unique (hg : g.Accepts n) (hh : h.Accepts n) : g = h := by
  have hmark : g.mark = h.mark := hg.take_two.symm.trans hh.take_two
  cases g <;> cases h <;> first | rfl | exact absurd hmark (by decide)

/-- How a group takes a file: the scope is the last one, the others are listed. -/
def add : TelemetryGroup → List Path → Path → List Path
  | scope, _, p => [p]
  | metrics, l, p => l ++ [p]
  | spans, l, p => l ++ [p]

theorem foldl_add {l : List Path} (hscope : g = scope → l.length ≤ 1) : l.foldl g.add [] = l := by
  have hlist (l : List Path) : l.foldl (fun l p => l ++ [p]) [] = l := by
    rw [List.foldl_append_eq_append, ← List.flatMap_def, List.nil_append]
    exact List.flatMap_singleton' l
  cases g with
  | scope =>
    match l, hscope rfl with
    | [], _ => rfl
    | [p], _ => rfl
  | metrics => exact hlist l
  | spans => exact hlist l

end TelemetryGroup

namespace Module

open ModuleDocs.Path ModuleDocs.Store

variable {s : Store} {root p : Path} {base loc : Location} {ns : List Text} {n dir : Text}
  {g : TelemetryGroup}

/-- Whether the name of a path is one of the group. -/
def isOfGroup (g : TelemetryGroup) (p : Path) : Bool := p.name?.any fun n => decide (g.Accepts n)

theorem isOfGroup_iff (hp : p.name? = some n) : isOfGroup g p = true ↔ g.Accepts n := by
  rw [isOfGroup, hp, Option.any_some, decide_eq_true_iff]

/-- A file changes the group of its name, and no other. -/
theorem members_addTelemetryFile (t : TelemetryFiles) (p : Path) :
    (addTelemetryFile t p).members g =
      if isOfGroup g p = true then g.add (t.members g) p else t.members g := by
  rw [addTelemetryFile]
  split
  · next hp => simp [isOfGroup, hp]
  · next n hp =>
    -- the group that takes the file is the only one that the name belongs to
    have hgroup {h : TelemetryGroup} (hh : h.Accepts n) : isOfGroup g p = true ↔ g = h := by
      rw [isOfGroup_iff hp]
      exact ⟨fun hg => TelemetryGroup.accepts_unique hg hh, fun hg => hg ▸ hh⟩
    split
    · next hscope =>
      rw [if_congr (hgroup (h := .scope) hscope) rfl rfl]
      cases g <;> rfl
    · next hscope =>
      split
      · next hmetrics =>
        rw [if_congr (hgroup (h := .metrics) (List.isPrefixOf_iff_prefix.mp hmetrics)) rfl rfl]
        cases g <;> rfl
      · next hmetrics =>
        split
        · next hspans =>
          rw [if_congr (hgroup (h := .spans) (List.isPrefixOf_iff_prefix.mp hspans)) rfl rfl]
          cases g <;> rfl
        · next hspans =>
          have hnone : ¬ g.Accepts n := by
            cases g with
            | scope => exact hscope
            | metrics => exact fun h => hmetrics (List.isPrefixOf_iff_prefix.mpr h)
            | spans => exact fun h => hspans (List.isPrefixOf_iff_prefix.mpr h)
          rw [if_neg (mt (isOfGroup_iff hp).mp hnone)]

theorem members_foldl_addTelemetryFile (t : TelemetryFiles) (ps : List Path) :
    (ps.foldl addTelemetryFile t).members g =
      (ps.filter (isOfGroup g)).foldl g.add (t.members g) := by
  rw [List.foldl_filter]
  exact (List.foldl_hom (TelemetryFiles.members · g) fun t p =>
    (members_addTelemetryFile t p).symm).symm

/-- The files of a directory that are sorted into a group. -/
def groupBelow (s : Store) (root : Path) (dir : Text) (g : TelemetryGroup) : List Path :=
  (Path.sort ((s.children (root.join dir)).filter s.isFile)).filter (isOfGroup g)

theorem mem_groupBelow : p ∈ groupBelow s root dir g ↔
    p ∈ s.children (root.join dir) ∧ s.isFile p = true ∧ isOfGroup g p = true := by
  rw [groupBelow, List.mem_filter, mem_sort, List.mem_filter, and_assoc]

theorem increasing_groupBelow (hs : s.IsTree) (root : Path) (dir : Text) (g : TelemetryGroup) :
    Increasing Path.components (groupBelow s root dir g) :=
  List.Pairwise.filter _
    (increasing_sort ((nodup_children hs _).sublist (List.filter_sublist.map _)))

/-- A directory has one file of the scope's name. -/
theorem length_groupBelow_scope (hs : s.IsTree) :
    (groupBelow s root dir .scope).length ≤ 1 := by
  have hone : ∀ p ∈ groupBelow s root dir .scope, p = (root.join dir).join "scope.yaml".toList := by
    intro p hp
    obtain ⟨hchild, -, hgroup⟩ := mem_groupBelow.mp hp
    obtain ⟨n, hn, rfl⟩ := exists_name_of_mem_children hs hchild
    rw [isOfGroup_iff (name?_join _ hn)] at hgroup
    rw [show n = "scope.yaml".toList from hgroup]
  have hincreasing := increasing_groupBelow hs root dir .scope
  cases hl : groupBelow s root dir .scope with
  | nil => simp
  | cons p l =>
    cases l with
    | nil => simp
    | cons q l =>
      rw [hl] at hone hincreasing
      have hlt := List.rel_of_pairwise_cons hincreasing (List.mem_cons_self (a := q) (l := l))
      rw [hone p (by simp), hone q (by simp), orderComponents_self] at hlt
      cases hlt

/-- **The groups of telemetry declarations** are the files of the directory with the names of
the group, in order. -/
theorem members_telemetryFiles (hs : s.IsTree) (root : Path) (dir : Text) (g : TelemetryGroup) :
    (telemetryFiles s root dir).members g = groupBelow s root dir g := by
  rw [telemetryFiles, members_foldl_addTelemetryFile]
  have hempty : (({} : TelemetryFiles)).members g = [] := by cases g <;> rfl
  rw [hempty]
  refine TelemetryGroup.foldl_add fun hg => ?_
  subst hg
  exact length_groupBelow_scope hs

/-- A file directly in the directory is in the groups that its name belongs to. -/
theorem mem_members_telemetryFiles (hs : s.IsTree) {b : ByteArray}
    (hdir : s.canonical? (root.join dir) = some loc)
    (hfile : s.node? (loc ++ [n]) = some (.file b)) :
    (root.join dir).join n ∈ (telemetryFiles s root dir).members g ↔ g.Accepts n := by
  have hn : IsEntryName n := names_of_node? hs hfile n (by simp)
  have hloc : s.node? loc = some .directory := directory_of_append hs (by simp) hfile
  have hpath := canonical?_join hdir hloc hn hfile (by simp)
  rw [members_telemetryFiles hs, mem_groupBelow, isOfGroup_iff (name?_join _ hn)]
  refine ⟨fun h => h.2.2, fun hg => ⟨?_, isFile_iff.mpr ⟨_, b, hpath, hfile⟩, hg⟩⟩
  exact mem_children.mpr ⟨loc, n, hdir, hloc, mem_entriesAt.mpr ⟨_, hfile⟩, rfl⟩

/-! ## Files below a root -/

/-- The names `ns ++ [n]` lead from a location to a file, through directories that are neither
hidden nor named `build`. -/
structure IsCollectedFile (s : Store) (base : Location) (ns : List Text) (n : Text) : Prop where
  file : ∃ b, s.node? (base ++ (ns ++ [n])) = some (.file b)
  entered : ∀ m ∈ ns, m.head? ≠ some '.' ∧ m ≠ "build".toList

theorem isClosedName_eq_false_iff :
    isClosedName n = false ↔ n.head? ≠ some '.' ∧ n ≠ "build".toList := by
  simp [isClosedName]

theorem IsCollectedFile.named (hs : s.IsTree) (h : IsCollectedFile s base ns n) :
    ∀ m ∈ ns ++ [n], IsEntryName m := by
  obtain ⟨b, hnode⟩ := h.file
  exact fun m hm => names_of_node? hs hnode m (List.mem_append_right _ hm)

/-- Files below a root lie in a directory that the root denotes. -/
theorem exists_directory_of_mem_filesBelow (hs : s.IsTree) (hp : p ∈ filesBelow s root) :
    ∃ base, s.canonical? root = some base ∧ s.node? base = some .directory := by
  obtain ⟨ns, n, hnames, hopen, -, -⟩ := (mem_filesBelow_iff hs).mp hp
  obtain ⟨ms, hms, hway⟩ := exists_names_of_collectedIn hs hopen
  rw [hms] at hopen
  obtain ⟨base, hbase, hroot⟩ :=
    canonical?_of_mem_openedPaths (hway.opened_initial hopen (List.nil_prefix (l := ms)))
  exact ⟨base, hroot, (mem_directories_iff hs).mp hbase⟩

/-- **Without links, the files below a root are those the tree has there**, whatever the root
denotes. -/
theorem mem_filesBelow_iff_isCollectedFile (hs : s.IsTree)
    (hlink : ∀ base, s.canonical? root = some base → s.LinkFree base) :
    p ∈ filesBelow s root ↔ ∃ base ns n, s.canonical? root = some base ∧
      IsCollectedFile s base ns n ∧ p = root.descend (ns ++ [n]) := by
  constructor
  · intro hp
    obtain ⟨base, hroot, hdir⟩ := exists_directory_of_mem_filesBelow hs hp
    obtain ⟨ns, n, b, hnode, hopen, hpath⟩ :=
      (mem_filesBelow_iff_node hs (hlink base hroot) hroot hdir).mp hp
    exact ⟨base, ns, n, hroot,
      ⟨⟨b, hnode⟩, fun m hm => isClosedName_eq_false_iff.mp (hopen m hm)⟩, hpath⟩
  · rintro ⟨base, ns, n, hroot, ⟨⟨b, hnode⟩, hopen⟩, hpath⟩
    have hdir := directory_of_append hs (by simp) hnode
    exact (mem_filesBelow_iff_node hs (hlink base hroot) hroot hdir).mpr
      ⟨ns, n, b, hnode, fun m hm => isClosedName_eq_false_iff.mpr (hopen m hm), hpath⟩

/-- The list holds, in strict order of the paths, the files below a root that have a name in `P`
and no segment in `names`, their own name included. -/
structure ListsFiles (s : Store) (root : Path) (P : Text → Prop) (names : List Text)
    (l : List Path) : Prop where
  mem_iff : ∀ p, p ∈ l ↔ ∃ base ns n, s.canonical? root = some base ∧
    IsCollectedFile s base ns n ∧ P n ∧ (∀ m ∈ ns ++ [n], m ∉ names) ∧
    p = root.descend (ns ++ [n])
  increasing : Increasing Path.components l

/-- A choice among the files below a root by their names and segments. -/
theorem listsFiles_filter (hs : s.IsTree)
    (hlink : ∀ base, s.canonical? root = some base → s.LinkFree base) {choose : Path → Bool}
    {P : Text → Prop} (hchoose : ∀ p n, p.name? = some n → (choose p = true ↔ P n))
    (names : List Text) :
    ListsFiles s root P names
      ((filesBelow s root).filter fun p => choose p && !hasSegmentBelow root names p) := by
  have hread {base : Location} {ns : List Text} {n : Text} (h : IsCollectedFile s base ns n) :
      (choose (root.descend (ns ++ [n])) &&
          !hasSegmentBelow root names (root.descend (ns ++ [n]))) = true ↔
        P n ∧ ∀ m ∈ ns ++ [n], m ∉ names := by
    have hnames := h.named hs
    rw [Bool.and_eq_true, hchoose _ n (name?_descend _ _ (hnames n (by simp))),
      Bool.not_eq_true', Bool.eq_false_iff, Ne, hasSegmentBelow_descend (by simp) hnames]
    simp only [not_exists, not_and]
  refine ⟨fun p => ?_, List.Pairwise.filter _ (increasing_filesBelow hs root)⟩
  rw [List.mem_filter, mem_filesBelow_iff_isCollectedFile hs hlink]
  constructor
  · rintro ⟨⟨base, ns, n, hroot, hfile, rfl⟩, hkeep⟩
    obtain ⟨hP, hsegments⟩ := (hread hfile).mp hkeep
    exact ⟨base, ns, n, hroot, hfile, hP, hsegments, rfl⟩
  · rintro ⟨base, ns, n, hroot, hfile, hP, hsegments, rfl⟩
    exact ⟨⟨base, ns, n, hroot, hfile, rfl⟩, (hread hfile).mpr ⟨hP, hsegments⟩⟩

/-! ## All companion files -/

/-- **Companion files are found exactly.** Sources and descriptors are the files below the root
with the names and on the ways that count, and a declaration in the telemetry directory is in the
one group of its name. -/
theorem files_exact (hs : s.IsTree)
    (hlink : ∀ base, s.canonical? root = some base → s.LinkFree base) (settings : ScanSettings) :
    let found := files s root settings
    let dir := root.join settings.telemetryDir
    ListsFiles s root (HasExtension · settings.sourceExtension) ["build".toList, "test".toList]
        found.sources ∧
      ListsFiles s root (· = settings.descriptor) ["testing".toList] found.descriptors ∧
      (∀ g, Increasing Path.components (found.telemetry.members g)) ∧
      ∀ loc n b, s.canonical? dir = some loc → s.node? (loc ++ [n]) = some (.file b) →
        (∀ g, dir.join n ∈ found.telemetry.members g ↔ TelemetryGroup.Accepts g n) ∧
          (n = "scope.yaml".toList ∨ "metrics-".toList <+: n ∨ "spans-".toList <+: n →
            ∃! g, dir.join n ∈ found.telemetry.members g) := by
  intro found dir
  refine ⟨listsFiles_filter hs hlink (fun p n hp => ?_) _,
    listsFiles_filter hs hlink (fun p n hp => ?_) _, fun g => ?_, ?_⟩
  · rw [beq_iff_eq, extension?_eq_some_iff hp]
  · rw [beq_iff_eq, hp, Option.some.injEq]
  · show Increasing _ ((telemetryFiles s root _).members g)
    rw [members_telemetryFiles hs]
    exact increasing_groupBelow hs _ _ _
  · intro loc n b hdir hfile
    have hmem (g : TelemetryGroup) : dir.join n ∈ found.telemetry.members g ↔ g.Accepts n :=
      mem_members_telemetryFiles hs hdir hfile
    refine ⟨hmem, fun hname => ?_⟩
    have haccepts : ∃ g : TelemetryGroup, g.Accepts n := by
      rcases hname with h | h | h
      · exact ⟨.scope, h⟩
      · exact ⟨.metrics, h⟩
      · exact ⟨.spans, h⟩
    obtain ⟨g, hg⟩ := haccepts
    exact ⟨g, (hmem g).mpr hg, fun h hh => TelemetryGroup.accepts_unique ((hmem h).mp hh) hg⟩

namespace Sample

/-- A module with a source file, one of its tests, and a telemetry declaration. -/
def companions : Store where
  home := []
  nodes := [(["main".toList], .directory), (["test".toList], .directory),
    ([".telemetry".toList], .directory),
    (["main".toList, "A.java".toList], .file .empty),
    (["test".toList, "T.java".toList], .file .empty),
    ([".telemetry".toList, "spans-db.yaml".toList], .file .empty)]

theorem isTree_companions : companions.IsTree := by decide +kernel

theorem linkFree_companions : companions.LinkFree base :=
  linkFree_of_nodes (by simp [companions])

end Sample

open Module.Sample in
/-- In the sample the source file is found, the one of the tests is not, and the telemetry
declaration is in the group of its name only. -/
theorem files_exact_sample :
    let found := files companions ⟨['.']⟩ {}
    ⟨"./main/A.java".toList⟩ ∈ found.sources ∧ ⟨"./test/T.java".toList⟩ ∉ found.sources ∧
      ∃! g, ⟨"./.telemetry/spans-db.yaml".toList⟩ ∈ found.telemetry.members g := by
  obtain ⟨hsources, -, -, htelemetry⟩ := files_exact isTree_companions
    (fun _ _ => linkFree_companions : ∀ base, companions.canonical? ⟨['.']⟩ = some base → _) {}
  have hroot : companions.canonical? ⟨['.']⟩ = some [] := canonical?_current node?_nil
  refine ⟨?_, fun h => ?_, ?_⟩
  · exact (hsources.mem_iff _).mpr ⟨[], ["main".toList], "A.java".toList, hroot,
      ⟨⟨.empty, by decide +kernel⟩, by decide +kernel⟩,
      ⟨['A'], by decide +kernel, by decide +kernel, by decide +kernel⟩,
      by decide +kernel, by decide +kernel⟩
  · obtain ⟨base, ns, n, -, hfile, -, hsegments, hpath⟩ := (hsources.mem_iff _).mp h
    have hnames : ns ++ [n] = ["test".toList, "T.java".toList] :=
      descend_inj (p := ⟨['.']⟩) (hfile.named isTree_companions) (by decide +kernel)
        (congrArg Path.components hpath.symm)
    exact hsegments "test".toList (by simp [hnames]) (by simp)
  · have hdir : companions.canonical? (Path.join ⟨['.']⟩ ".telemetry".toList) =
        some [".telemetry".toList] :=
      canonical?_join hroot node?_nil (by decide +kernel)
        (by decide +kernel : companions.node? ([] ++ [".telemetry".toList]) = some .directory)
        (by simp)
    exact (htelemetry _ "spans-db.yaml".toList .empty hdir (by decide +kernel)).2
      (Or.inr (Or.inr (by decide +kernel)))

end Module

end ModuleDocs

import ModuleDocs.Module.Files
import ModuleDocs.Proofs.Store.Walk

/-!
# The files below a directory

The files of a module are those in the directories that a walk opens
(`mem_filesBelow_iff`), each under the path by which its directory was opened, in strict
order of their paths (`increasing_filesBelow`). So lists of files are equal as soon as
they have the same members, and what is in them is a matter of the directories opened.
Where there are no links the directories opened are those that are there
(`mem_filesBelow_iff_node`).
-/

namespace ModuleDocs

namespace Module

open ModuleDocs.Path ModuleDocs.Store

variable {s : Store} {root p : Path} {base : Location} {ns ms : List Text} {n : Text}

/-! ## Directories that are not entered -/

/-- Directories whose files belong to no module. -/
def isClosedName (n : Text) : Bool := n.head? == some '.' || n == "build".toList

/-- Whether files are collected in a directory. -/
def isCollected (p : Path) : Bool :=
  match p.name? with
  | some n => !isClosedName n
  | none => false

theorem isCollected_descend (hn : IsEntryName n) :
    isCollected (root.descend (ns ++ [n])) = !isClosedName n := by
  rw [isCollected, name?_descend _ _ hn]

theorem keptAlong_isCollected (hns : ∀ n ∈ ns, IsEntryName n) :
    KeptAlong isCollected root ns ↔ ∀ n ∈ ns, isClosedName n = false := by
  constructor
  · intro h n hn
    obtain ⟨front, rest, rfl⟩ := List.append_of_mem hn
    have hkept := h front n ⟨rest, by simp⟩
    rw [isCollected_descend (hns n hn)] at hkept
    simpa using hkept
  · intro h ms n hpre
    have hn : n ∈ ns := hpre.subset (by simp)
    rw [isCollected_descend (hns n hn), h n hn]
    rfl

theorem openSubdirectories_eq (s : Store) (dir : Path) :
    openSubdirectories s dir = ((s.children dir).filter s.isDirectory).filter isCollected := rfl

theorem selects_openSubdirectories (s : Store) :
    Selects s isCollected (openSubdirectories s) := by
  intro p q
  rw [openSubdirectories_eq, List.mem_filter, List.mem_filter, and_assoc]

/-- The directories in which the files below a root are collected. -/
def collectedIn (s : Store) (root : Path) : List Path :=
  openedPaths (tour s (openSubdirectories s) root)

/-- Files are collected under paths that names lead to. -/
theorem exists_names_of_collectedIn (hs : s.IsTree) (h : p ∈ collectedIn s root) :
    ∃ ns, p = root.descend ns ∧ IsWay s (openSubdirectories s) root ns :=
  exists_way ((selects_openSubdirectories s).descends hs) p (mem_tour_of_mem_openedPaths h)

/-- The segments below a root are the names that lead there. -/
theorem hasSegmentBelow_descend {names : List Text} (hne : ns ≠ [])
    (hns : ∀ n ∈ ns, IsEntryName n) :
    hasSegmentBelow root names (root.descend ns) = true ↔ ∃ n ∈ ns, n ∈ names := by
  simp only [hasSegmentBelow, relativeTo?_descend hns,
    List.splitOn_intercalate '/' (fun n hn => (hns n hn).solid) hne, List.any_eq_true,
    List.contains_iff_mem]

/-! ## The list of files -/

theorem filesBelow_eq (s : Store) (root : Path) :
    filesBelow s root =
      Path.sort ((collectedIn s root).flatMap fun p => (s.children p).filter s.isFile) := by
  rw [filesBelow, collectedIn, openedPaths, List.flatMap_map]
  rfl

/-- **The files below a root are the files in the directories opened.** -/
theorem mem_filesBelow_iff (hs : s.IsTree) : p ∈ filesBelow s root ↔
    ∃ ns n, (∀ m ∈ ns ++ [n], IsEntryName m) ∧ root.descend ns ∈ collectedIn s root ∧
      p = root.descend (ns ++ [n]) ∧ s.isFile p = true := by
  simp only [filesBelow_eq, mem_sort, List.mem_flatMap, List.mem_filter]
  constructor
  · rintro ⟨dir, hdir, hp, hfile⟩
    obtain ⟨ns, rfl, hway⟩ := exists_names_of_collectedIn hs hdir
    obtain ⟨n, hn, rfl⟩ := exists_name_of_mem_children hs hp
    exact ⟨ns, n, List.forall_mem_append.mpr ⟨hway.named, List.forall_mem_singleton.mpr hn⟩, hdir,
      by simp, hfile⟩
  · rintro ⟨ns, n, hnames, hdir, rfl, hfile⟩
    obtain ⟨loc, -, hloc⟩ := canonical?_of_mem_openedPaths hdir
    obtain ⟨l, b, hl, -⟩ := isFile_iff.mp hfile
    rw [descend_append] at hl
    obtain ⟨hnode, node, hentry⟩ := exists_node?_of_canonical?_join hloc (hnames n (by simp)) hl
    exact ⟨_, hdir, mem_children.mpr ⟨loc, n, hloc, hnode, mem_entriesAt.mpr ⟨node, hentry⟩,
      by simp⟩, hfile⟩

/-- Files are listed in strict order of their paths. -/
theorem increasing_filesBelow (hs : s.IsTree) (root : Path) :
    Increasing Path.components (filesBelow s root) := by
  rw [filesBelow_eq]
  refine increasing_sort ?_
  rw [List.map_flatMap, List.nodup_flatMap]
  refine ⟨fun p _ => (nodup_children hs p).sublist (List.filter_sublist.map _), ?_⟩
  refine (nodup_openedPaths).imp_of_mem fun {p q} hp hq hne => ?_
  -- files of one path would lie in directories of one path
  intro c hcp hcq
  obtain ⟨f, hf, rfl⟩ := List.mem_map.mp hcp
  obtain ⟨g, hg, hfg⟩ := List.mem_map.mp hcq
  obtain ⟨n, hn, rfl⟩ := exists_name_of_mem_children hs (List.mem_filter.mp hf).1
  obtain ⟨m, hm, rfl⟩ := exists_name_of_mem_children hs (List.mem_filter.mp hg).1
  rw [components_join p hn, components_join q hm] at hfg
  obtain ⟨ns, rfl, hns⟩ := exists_names_of_collectedIn hs hp
  obtain ⟨ms, rfl, hms⟩ := exists_names_of_collectedIn hs hq
  rw [descend_inj hms.named hns.named (List.append_inj_left' hfg rfl)] at hne
  exact hne rfl

section LinkFree

variable (hs : s.IsTree) (hbase : s.LinkFree base) (hroot : s.canonical? root = some base)
  (hdir : s.node? base = some .directory)

include hs hbase hroot hdir

/-- **Without links, the files below a root are those in the tree below it.** -/
theorem mem_filesBelow_iff_node : p ∈ filesBelow s root ↔
    ∃ ns n b, s.node? (base ++ (ns ++ [n])) = some (.file b) ∧
      (∀ m ∈ ns, isClosedName m = false) ∧ p = root.descend (ns ++ [n]) := by
  have hsel := selects_openSubdirectories s
  rw [mem_filesBelow_iff hs]
  constructor
  · rintro ⟨ns, n, hnames, hopen, rfl, hfile⟩
    have hns : ∀ m ∈ ns, IsEntryName m := fun m hm => hnames m (by simp [hm])
    obtain ⟨hnode, hkept⟩ := (mem_openedPaths_iff hs hbase hroot hdir hsel hns).mp hopen
    obtain ⟨l, b, hl, hb⟩ := isFile_iff.mp hfile
    have hloc := canonical?_descend hs hbase hroot hnode
    have hentry := hl
    rw [descend_append] at hentry
    obtain ⟨-, node, hnode'⟩ := exists_node?_of_canonical?_join hloc (hnames n (by simp)) hentry
    rw [List.append_assoc] at hnode'
    rw [canonical?_descend hs hbase hroot hnode', Option.some.injEq] at hl
    exact ⟨ns, n, b, hl ▸ hb, (keptAlong_isCollected hns).mp hkept, rfl⟩
  · rintro ⟨ns, n, b, hnode, hopen, rfl⟩
    have hnames : ∀ m ∈ ns ++ [n], IsEntryName m :=
      fun m hm => names_of_node? hs hnode m (List.mem_append_right _ hm)
    have hns : ∀ m ∈ ns, IsEntryName m := fun m hm => hnames m (by simp [hm])
    have hparent : s.node? (base ++ ns) = some .directory := by
      rw [← List.append_assoc] at hnode
      exact directory_of_append hs (by simp) hnode
    refine ⟨ns, n, hnames, (mem_openedPaths_iff hs hbase hroot hdir hsel hns).mpr
      ⟨hparent, (keptAlong_isCollected hns).mpr hopen⟩, rfl, ?_⟩
    exact isFile_iff.mpr ⟨_, b, canonical?_descend hs hbase hroot hnode, hnode⟩

end LinkFree

end Module

end ModuleDocs

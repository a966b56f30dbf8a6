import ModuleDocs.Instrumentation.Analysis
import ModuleDocs.Proofs.Module.Discovery
import ModuleDocs.Proofs.Module.Files
import ModuleDocs.Proofs.Store.Enumeration

/-!
# What depends on the order of enumeration

The walk that discovers modules sorts the entries of a directory before it goes on, so it
finds the same modules in whatever order directories are enumerated. The walk that
collects the files of a module goes on in the order of enumeration and sorts what it has
found. That is the same only where every directory with a file that counts is reached by
one route (`Unambiguous`): where links lead to it by two, the first one taken is the one
its files are listed under, and with it what their paths say.

The condition is exact (`analysis_reordered`). A route that is the only one is taken in
any order, since what a walk opens is reached by a route (`isRoute_of_collectedIn`). And
any route is taken in some order, one that lists its names first
(`IsRoute.exists_reordered`); then other routes to where it passes are not.
-/

namespace ModuleDocs

namespace Module

open ModuleDocs.Path ModuleDocs.Store

variable {s s' : Store} {root p : Path} {base loc : Location} {ns ms ks : List Text} {n : Text}
  {settings : ScanSettings}

/-! ## Routes -/

/-- Names that lead from the root through directories in which files are collected, to
none of them twice. -/
structure IsRoute (s : Store) (root : Path) (ns : List Text) : Prop where
  named : ∀ n ∈ ns, IsEntryName n
  directory : ∀ ms, ms <+: ns → s.isDirectory (root.descend ms) = true
  entered : ∀ n ∈ ns, isClosedName n = false
  simple : ∀ ms ks, ms <+: ns → ks <+: ns →
    s.canonical? (root.descend ms) = s.canonical? (root.descend ks) → ms = ks

/-- No other route leads to a directory on the way. -/
def IsForced (s : Store) (root : Path) (ns : List Text) : Prop :=
  ∀ ms, ms <+: ns → ∀ ks, IsRoute s root ks →
    s.canonical? (root.descend ks) = s.canonical? (root.descend ms) → ks = ms

theorem IsRoute.initial (h : IsRoute s root ns) (hpre : ms <+: ns) : IsRoute s root ms where
  named n hn := h.named n (hpre.subset hn)
  directory ks hks := h.directory ks (hks.trans hpre)
  entered n hn := h.entered n (hpre.subset hn)
  simple ks ls hks hls := h.simple ks ls (hks.trans hpre) (hls.trans hpre)

theorem IsRoute.exists_location (hs : s.IsTree) (h : IsRoute s root ns) (hpre : ms <+: ns) :
    ∃ loc ∈ s.directories, s.canonical? (root.descend ms) = some loc := by
  obtain ⟨loc, hloc, hdir⟩ := isDirectory_iff.mp (h.directory ms hpre)
  exact ⟨loc, (mem_directories_iff hs).mpr hdir, hloc⟩

/-- The last name of a route is an entry of the directory before it. -/
theorem IsRoute.mem_entriesAt (h : IsRoute s root ns) (hpre : ms ++ [n] <+: ns)
    (hloc : s.canonical? (root.descend ms) = some loc) :
    s.node? loc = some .directory ∧ n ∈ s.entriesAt loc := by
  obtain ⟨l, hl, -⟩ := isDirectory_iff.mp (h.directory _ hpre)
  rw [descend_append] at hl
  obtain ⟨hdir, hentry⟩ :=
    exists_node?_of_canonical?_join hloc (h.named n (hpre.subset (by simp))) hl
  exact ⟨hdir, Store.mem_entriesAt.mpr hentry⟩

/-- The steps of a route are ones that a walk goes on with. -/
theorem IsRoute.mem_openSubdirectories (hs : s.IsTree) (h : IsRoute s root ns)
    (hpre : ms ++ [n] <+: ns) :
    root.descend (ms ++ [n]) ∈ openSubdirectories s (root.descend ms) := by
  obtain ⟨loc, -, hloc⟩ := h.exists_location hs ((List.prefix_append _ _).trans hpre)
  obtain ⟨hdir, hn⟩ := h.mem_entriesAt hpre hloc
  refine (selects_openSubdirectories s _ _).mpr
    ⟨mem_children.mpr ⟨loc, n, hloc, hdir, hn, by simp⟩, h.directory _ hpre, ?_⟩
  have hmem : n ∈ ns := hpre.subset (by simp)
  rw [isCollected_descend (h.named n hmem), h.entered n hmem]
  rfl

/-- **What a walk opens is reached by a route.** -/
theorem isRoute_of_collectedIn (hs : s.IsTree) (hns : ∀ n ∈ ns, IsEntryName n)
    (h : root.descend ns ∈ collectedIn s root) : IsRoute s root ns := by
  obtain ⟨ks, hks, hway⟩ := exists_names_of_collectedIn hs h
  obtain rfl := descend_inj hns hway.named (congrArg Path.components hks)
  refine ⟨hns, fun ms hms => ?_, ?_, fun ms ks hms hks heq => ?_⟩
  · obtain ⟨loc, hdir, hloc⟩ := canonical?_of_mem_openedPaths (hway.opened_initial h hms)
    exact isDirectory_iff.mpr ⟨loc, hloc, (mem_directories_iff hs).mp hdir⟩
  · exact (keptAlong_isCollected hns).mp (hway.keptAlong (selects_openSubdirectories s))
  · exact names_unique (hway.initial hms).named (hway.initial hks).named (hway.opened_initial h hms)
      (hway.opened_initial h hks) heq

/-- **A walk takes a route that is the only one.** -/
theorem IsRoute.mem_collectedIn (hs : s.IsTree) (h : IsRoute s root ns)
    (hforced : IsForced s root ns) : root.descend ns ∈ collectedIn s root := by
  -- whatever opens the directory got there by a route, and so by this one
  have hvisited (ms : List Text) (hms : ms <+: ns)
      (hv : root.descend ms ∈ (tour s (openSubdirectories s) root).map Visit.path) :
      root.descend ms ∈ collectedIn s root := by
    obtain ⟨loc, hdir, hloc⟩ := h.exists_location hs hms
    obtain ⟨p, hp, hploc⟩ := exists_opened_of_tour hv hloc hdir
    obtain ⟨ks, rfl, hks⟩ := exists_names_of_collectedIn hs hp
    have hroute := isRoute_of_collectedIn hs hks.named hp
    rwa [← hforced ms hms ks hroute (hploc.trans hloc.symm)]
  induction ns using List.reverseRecOn with
  | nil => exact hvisited [] List.prefix_rfl (mem_tour_iff.mpr (Or.inl rfl))
  | append_singleton ns n ih =>
    have hpre : ns <+: ns ++ [n] := List.prefix_append _ _
    have hparent := ih (h.initial hpre) (fun ms hms => hforced ms (hms.trans hpre))
      fun ms hms => hvisited ms (hms.trans hpre)
    exact hvisited _ List.prefix_rfl (mem_tour_iff.mpr
      (Or.inr ⟨_, hparent, h.mem_openSubdirectories hs List.prefix_rfl⟩))

/-! ## Routes in other orders of enumeration -/

theorem isRoute_reordered (h : Reordered s s') (hs : s.IsTree) :
    IsRoute s' root ns ↔ IsRoute s root ns := by
  have hiff (t : Store) : IsRoute t root ns ↔ (∀ n ∈ ns, IsEntryName n) ∧
      (∀ ms, ms <+: ns → t.isDirectory (root.descend ms) = true) ∧
      (∀ n ∈ ns, isClosedName n = false) ∧ ∀ ms ks, ms <+: ns → ks <+: ns →
        t.canonical? (root.descend ms) = t.canonical? (root.descend ks) → ms = ks :=
    ⟨fun h => ⟨h.named, h.directory, h.entered, h.simple⟩, fun h => ⟨h.1, h.2.1, h.2.2.1, h.2.2.2⟩⟩
  rw [hiff, hiff]
  simp only [h.canonical?_eq hs, h.isDirectory_eq hs]

theorem isForced_reordered (h : Reordered s s') (hs : s.IsTree) :
    IsForced s' root ns ↔ IsForced s root ns := by
  simp only [IsForced, isRoute_reordered h hs, h.canonical?_eq hs]

/-- A route goes through an entry. -/
def Passes (s : Store) (root : Path) (ns : List Text) (loc : Location) : Prop :=
  ∃ ms n dir, ms ++ [n] <+: ns ∧ s.canonical? (root.descend ms) = some dir ∧ loc = dir ++ [n]

/-- A route goes through one entry of a directory. -/
theorem IsRoute.passes_iff {dir : Location} (h : IsRoute s root ns) (hpre : ms ++ [n] <+: ns)
    (hdir : s.canonical? (root.descend ms) = some dir) (m : Text) :
    Passes s root ns (dir ++ [m]) ↔ m = n := by
  constructor
  · rintro ⟨ks, k, dir', hks, hdir', heq⟩
    obtain ⟨rfl, rfl⟩ := List.append_singleton_inj.mp heq
    obtain rfl := h.simple ks ms ((List.prefix_append _ _).trans hks)
      ((List.prefix_append _ _).trans hpre) (hdir'.trans hdir.symm)
    have hsame := List.prefix_of_prefix_length_le hks hpre (by simp)
    have heq := hsame.eq_of_length (by simp)
    exact (List.append_singleton_inj.mp heq).2
  · rintro rfl
    exact ⟨ms, m, dir, hpre, hdir, rfl⟩

open scoped Classical in
/-- **Every route is taken in some order of enumeration**, one that lists its names
first. -/
theorem IsRoute.exists_reordered (hs : s.IsTree) (h : IsRoute s root ns) :
    ∃ s', Reordered s s' ∧ root.descend ns ∈ collectedIn s' root := by
  obtain ⟨s', hr, hfirst⟩ := exists_reordered_head hs fun loc => decide (Passes s root ns loc)
  have h' := (isRoute_reordered hr hs).mpr h
  refine ⟨s', hr, mem_openedPaths_of_head ?_ ?_ h'.simple⟩
  · intro ms n hpre
    obtain ⟨dir, -, hdir⟩ := h.exists_location hs ((List.prefix_append _ _).trans hpre)
    obtain ⟨hnode, hn⟩ := h.mem_entriesAt hpre hdir
    obtain ⟨others, hothers⟩ := List.head?_eq_some_iff.mp
      (hfirst dir n hn fun m => by simpa using h.passes_iff hpre hdir m)
    have hchildren : s'.children (root.descend ms) =
        root.descend (ms ++ [n]) :: others.map (root.descend ms).join := by
      rw [children, entries?, hr.canonical?_eq hs, hdir]
      simp [hr.node?_eq hs, hnode, hothers]
    have hopen := h'.mem_openSubdirectories (hr.isTree hs) hpre
    obtain ⟨-, hisdir, hkept⟩ := (selects_openSubdirectories s' _ _).mp hopen
    rw [openSubdirectories_eq, hchildren, List.filter_cons_of_pos hisdir, List.filter_cons_of_pos hkept,
      List.head?_cons]
  · intro ms hms
    obtain ⟨loc, hdir, hloc⟩ := h'.exists_location (hr.isTree hs) hms
    exact ⟨loc, hdir, hloc, by simp⟩

/-- Where another route leads to a directory on the way, there is an order of enumeration
in which a route is not taken. -/
theorem IsRoute.exists_reordered_not_mem (hs : s.IsTree) (h : IsRoute s root ns)
    (hforced : ¬ IsForced s root ns) :
    ∃ s', Reordered s s' ∧ root.descend ns ∉ collectedIn s' root := by
  simp only [IsForced, not_forall] at hforced
  obtain ⟨ms, hms, ks, hks, heq, hne⟩ := hforced
  obtain ⟨s', hr, hopen⟩ := hks.exists_reordered hs
  refine ⟨s', hr, fun hmem => hne ?_⟩
  -- the directory on the way was opened by the other route
  obtain ⟨ls, hls, hway⟩ := exists_names_of_collectedIn (hr.isTree hs) hmem
  obtain rfl := descend_inj h.named hway.named (congrArg Path.components hls)
  exact names_unique hks.named (h.initial hms).named hopen (hway.opened_initial hmem hms)
    (by rw [hr.canonical?_eq hs, hr.canonical?_eq hs, heq])

/-! ## The files of a module -/

/-- A file that counts as a source or a build descriptor of the module in a directory. -/
def isCompanion (root : Path) (settings : ScanSettings) (p : Path) : Bool :=
  (p.extension? == some settings.sourceExtension &&
      !hasSegmentBelow root ["build".toList, "test".toList] p) ||
    (p.name? == some settings.descriptor && !hasSegmentBelow root ["testing".toList] p)

/-- Every directory with a file that counts is reached by one route, and so are those on
the way to it. -/
def Unambiguous (s : Store) (root : Path) (settings : ScanSettings) : Prop :=
  ∀ ns n, IsRoute s root ns → IsEntryName n → s.isFile (root.descend (ns ++ [n])) = true →
    isCompanion root settings (root.descend (ns ++ [n])) = true → IsForced s root ns

/-- A file is listed below a root if its directory is opened, and only then. -/
theorem mem_filesBelow_descend (hs : s.IsTree) (hnames : ∀ m ∈ ns ++ [n], IsEntryName m)
    (hfile : s.isFile (root.descend (ns ++ [n])) = true) :
    root.descend (ns ++ [n]) ∈ filesBelow s root ↔ root.descend ns ∈ collectedIn s root := by
  rw [mem_filesBelow_iff hs]
  constructor
  · rintro ⟨ms, m, hnames', hopen, heq, -⟩
    have hsame := descend_inj hnames hnames' (congrArg Path.components heq)
    rwa [(List.append_singleton_inj.mp hsame).1]
  · exact fun hopen => ⟨ns, n, hnames, hopen, rfl, hfile⟩

theorem Unambiguous.reordered (h : Unambiguous s root settings) (hr : Reordered s s')
    (hs : s.IsTree) : Unambiguous s' root settings := by
  intro ns n hroute hn hfile hcompanion
  rw [isForced_reordered hr hs]
  rw [isRoute_reordered hr hs] at hroute
  rw [hr.isFile_eq hs] at hfile
  exact h ns n hroute hn hfile hcompanion

theorem Unambiguous.mem_filesBelow (h : Unambiguous s root settings) (hr : Reordered s s')
    (hs : s.IsTree) (hp : p ∈ filesBelow s root) (hcompanion : isCompanion root settings p = true) :
    p ∈ filesBelow s' root := by
  obtain ⟨ns, n, hnames, hopen, rfl, hfile⟩ := (mem_filesBelow_iff hs).mp hp
  have hroute := isRoute_of_collectedIn hs (fun m hm => hnames m (by simp [hm])) hopen
  have hforced := h ns n hroute (hnames n (by simp)) hfile hcompanion
  refine (mem_filesBelow_descend (hr.isTree hs) hnames (by rwa [hr.isFile_eq hs])).mpr ?_
  exact ((isRoute_reordered hr hs).mpr hroute).mem_collectedIn (hr.isTree hs)
    ((isForced_reordered hr hs).mpr hforced)

/-- Files that count are the same in every order of enumeration. -/
theorem Unambiguous.filter_eq (h : Unambiguous s root settings) (hr : Reordered s s')
    (hs : s.IsTree) (keep : Path → Bool)
    (hkeep : ∀ p, keep p = true → isCompanion root settings p = true) :
    (filesBelow s' root).filter keep = (filesBelow s root).filter keep := by
  have hsorted {t : Store} (ht : t.IsTree) :
      Increasing Path.components ((filesBelow t root).filter keep) :=
    List.Pairwise.sublist List.filter_sublist (increasing_filesBelow ht root)
  refine Increasing.ext (hsorted (hr.isTree hs)) (hsorted hs) fun p => ?_
  rw [List.mem_filter, List.mem_filter]
  refine and_congr_left fun hk => ⟨fun hp => ?_, fun hp => ?_⟩
  · exact (h.reordered hr hs).mem_filesBelow hr.symm (hr.isTree hs) hp (hkeep p hk)
  · exact h.mem_filesBelow hr hs hp (hkeep p hk)

theorem mem_companions (hp : isCompanion root settings p = true) :
    p ∈ (files s root settings).sources ∨ p ∈ (files s root settings).descriptors ↔
      p ∈ filesBelow s root := by
  rw [isCompanion, Bool.or_eq_true] at hp
  simp only [files, sourcesAmong, descriptorsAmong, List.mem_filter, ← and_or_left, hp, and_true]

theorem descriptionFile?_reordered (hr : Reordered s s') (hs : s.IsTree) (root : Path)
    (name : Text) : descriptionFile? s' root name = descriptionFile? s root name := by
  rw [descriptionFile?, descriptionFile?, hr.isFile_eq hs]

theorem telemetryFiles_reordered (hr : Reordered s s') (hs : s.IsTree) (root : Path)
    (dir : Text) : telemetryFiles s' root dir = telemetryFiles s root dir := by
  rw [telemetryFiles, telemetryFiles, hr.isFile_eq hs, hr.sort_children_eq hs]

/-- **The files of a module are the same in every order of enumeration** exactly if one
route leads to those that count. -/
theorem files_reordered_iff (hs : s.IsTree) :
    (∀ s', Reordered s s' → files s' root settings = files s root settings) ↔
      Unambiguous s root settings := by
  constructor
  · intro hsame ns n hroute hn hfile hcompanion
    by_contra hforced
    have hnames : ∀ m ∈ ns ++ [n], IsEntryName m :=
      List.forall_mem_append.mpr ⟨hroute.named, List.forall_mem_singleton.mpr hn⟩
    -- the file is listed in one order, and so in all
    have hlisted {t : Store} (hr : Reordered s t) :
        root.descend ns ∈ collectedIn t root ↔
          root.descend (ns ++ [n]) ∈ (files s root settings).sources ∨
            root.descend (ns ++ [n]) ∈ (files s root settings).descriptors := by
      rw [← hsame t hr, mem_companions hcompanion]
      exact (mem_filesBelow_descend (hr.isTree hs) hnames (by rwa [hr.isFile_eq hs])).symm
    obtain ⟨t, ht, hopen⟩ := hroute.exists_reordered hs
    obtain ⟨t', ht', hclosed⟩ := hroute.exists_reordered_not_mem hs hforced
    exact hclosed ((hlisted ht').mpr ((hlisted ht).mp hopen))
  · intro h s' hr
    rw [files, files, descriptionFile?_reordered hr hs, telemetryFiles_reordered hr hs]
    have hsources := h.filter_eq hr hs
      (fun p => p.extension? == some settings.sourceExtension &&
        !hasSegmentBelow root ["build".toList, "test".toList] p)
      fun p hp => by simp only [isCompanion, hp, Bool.true_or]
    have hdescriptors := h.filter_eq hr hs
      (fun p => p.name? == some settings.descriptor && !hasSegmentBelow root ["testing".toList] p)
      fun p hp => by simp only [isCompanion, hp, Bool.or_true]
    exact congrArg₂ (fun sources descriptors => ModuleFiles.mk sources descriptors _ _)
      hsources hdescriptors

/-- Below a root without links, names lead to where they spell. -/
theorem IsRoute.canonical?_eq (hs : s.IsTree) (hbase : s.LinkFree base)
    (hroot : s.canonical? root = some base) (h : IsRoute s root ns) :
    s.canonical? (root.descend ns) = some (base ++ ns) := by
  induction ns using List.reverseRecOn with
  | nil => simpa using hroot
  | append_singleton ns n ih =>
    obtain ⟨-, hn⟩ := h.mem_entriesAt List.prefix_rfl (ih (h.initial (List.prefix_append _ _)))
    obtain ⟨node, hnode⟩ := Store.mem_entriesAt.mp hn
    rw [List.append_assoc] at hnode
    exact canonical?_descend hs hbase hroot hnode

/-- Without links, one route leads to every directory. -/
theorem unambiguous_of_linkFree (hs : s.IsTree) (hbase : s.LinkFree base)
    (hroot : s.canonical? root = some base) (settings : ScanSettings) :
    Unambiguous s root settings := by
  intro ns n hroute _ _ _ ms hms ks hks heq
  rw [hks.canonical?_eq hs hbase hroot, (hroute.initial hms).canonical?_eq hs hbase hroot,
    Option.some.injEq] at heq
  exact List.append_cancel_left heq

/-! ## Discovery and analysis -/

theorem subdirectories_reordered (hr : Reordered s s') (hs : s.IsTree) (skip : Path → Bool) :
    subdirectories s' skip = subdirectories s skip := by
  funext p
  rw [subdirectories, subdirectories, hr.isDirectory_eq hs, hr.sort_children_eq hs]

/-- **The discovered modules are the same in every order of enumeration.** -/
theorem discover_reordered (hr : Reordered s s') (hs : s.IsTree) (root : Path)
    (settings : ScanSettings) : discover s' root settings = discover s root settings := by
  have hignore : ignoreFile s' root = ignoreFile s root := by
    rw [ignoreFile, ignoreFile, hr.read_eq hs]
  have hwhere (skip : Path → Bool) (container : Text) :
      discoverWhere s' skip root container = discoverWhere s skip root container := by
    have hread (relative : Text) :
        classifyPath s' root relative container = classifyPath s root relative container :=
      classifyPath_congr (hr.canonical?_eq hs root)
    simp only [discoverWhere, directoriesBelow, subdirectories_reordered hr hs, hr.walk_eq hs, hread]
  simp only [discover, hr.isDirectory_eq hs, hignore, hwhere]

end Module

namespace Instrumentation

open ModuleDocs.Store ModuleDocs.Module

variable {s s' : Store} {settings : ScanSettings}

/-- What is added to an instrumentation depends on the order by way of its files only. -/
theorem enrich_reordered (hr : Reordered s s') (hs : s.IsTree)
    (table : TextMap ConfigurationProperty) {e : Instrumentation}
    (hfiles : files s' e.path settings = files s e.path settings) :
    enrich s' settings s'.reader table e = enrich s settings s.reader table e := by
  have hreader : s'.reader = s.reader := by
    funext p
    rw [reader, reader, hr.read_eq hs]
  have hload : ModuleMetadata.load s' = ModuleMetadata.load s := by
    funext p
    simp only [ModuleMetadata.load, readText, hr.read_eq hs]
  simp only [enrich, hfiles, hreader, addDescription, hload]

end Instrumentation

namespace Module

open ModuleDocs.Store ModuleDocs.Instrumentation

variable {s : Store}

/-- **What depends on the order of enumeration.** The discovered modules do not, nor do
the description and the telemetry declarations of a module. Its sources and descriptors
do not, exactly if one route leads to each; if that is so for all modules, the analysis
does not. Without links it is so. -/
theorem analysis_reordered (hs : s.IsTree) (settings : ScanSettings) :
    (∀ s' root, Reordered s s' → discover s' root settings = discover s root settings ∧
      (files s' root settings).metadata = (files s root settings).metadata ∧
      (files s' root settings).telemetry = (files s root settings).telemetry) ∧
    (∀ root, (∀ s', Reordered s s' → files s' root settings = files s root settings) ↔
      Unambiguous s root settings) ∧
    (∀ root, (∀ modules, discover s root settings = .ok modules →
        ∀ e ∈ aggregate modules, Unambiguous s e.path settings) →
      ∀ s', Reordered s s' → analyze s' root settings = analyze s root settings) ∧
    ∀ root base, s.canonical? root = some base → s.LinkFree base →
      Unambiguous s root settings := by
  refine ⟨?_, fun root => files_reordered_iff hs, ?_, ?_⟩
  · intro s' root hr
    exact ⟨discover_reordered hr hs root settings, descriptionFile?_reordered hr hs _ _,
      telemetryFiles_reordered hr hs _ _⟩
  · intro root hall s' hr
    have htable : experimentalTable s' root settings = experimentalTable s root settings := by
      simp only [experimentalTable, readText, hr.read_eq hs]
    simp only [analyze, discover_reordered hr hs, htable]
    cases hd : discover s root settings with
    | error e => rfl
    | ok modules =>
      refine congrArg Except.ok (List.map_congr_left fun e he => ?_)
      exact enrich_reordered hr hs _ ((files_reordered_iff hs).mpr (hall modules hd e he) s' hr)
  · exact fun root base hroot hbase => unambiguous_of_linkFree hs hbase hroot settings

namespace Sample

/-- A module with a directory that a link leads to, too. -/
def aliased : Store where
  home := []
  nodes := [folder "a", ([['a'], "f.java".toList], .file .empty), (["b".toList], .link ⟨['a']⟩)]

theorem canonical?_aliased : aliased.canonical? ⟨"./a".toList⟩ = some [['a']] ∧
    aliased.canonical? ⟨"./b".toList⟩ = some [['a']] ∧
    aliased.canonical? ⟨"./a/f.java".toList⟩ = some [['a'], "f.java".toList] := by
  simp [aliased, folder, canonical?, resolve, Path.isAbsolute, follow, node?,
    List.splitOn_cons_eq_if_modifyHead, linkLimit]

theorem isRoute_aliased (hn : n = ['a'] ∨ n = ['b']) : IsRoute aliased ⟨['.']⟩ [n] := by
  obtain ⟨ha, hb, -⟩ := canonical?_aliased
  have hroot : aliased.canonical? ⟨['.']⟩ = some [] := canonical?_current node?_nil
  have hstep : aliased.canonical? (Path.join ⟨['.']⟩ n) = some [['a']] := by
    rcases hn with rfl | rfl
    · exact ha
    · exact hb
  have hinitial {ms : List Text} (hms : ms <+: [n]) : ms = [] ∨ ms = [n] := by
    rcases List.prefix_concat_iff.mp (List.nil_append [n] ▸ hms) with h | h
    · exact Or.inr h
    · exact Or.inl (List.prefix_nil.mp h)
  refine ⟨?_, fun ms hms => ?_, ?_, fun ms ks hms hks heq => ?_⟩
  · rcases hn with rfl | rfl <;> decide
  · rcases hinitial hms with rfl | rfl
    · exact isDirectory_iff.mpr ⟨_, hroot, node?_nil⟩
    · exact isDirectory_iff.mpr ⟨_, hstep, by decide⟩
  · rcases hn with rfl | rfl <;> decide
  · rcases hinitial hms with rfl | rfl <;> rcases hinitial hks with rfl | rfl
    · rfl
    · simp [hroot, hstep] at heq
    · simp [hroot, hstep] at heq
    · rfl

end Sample

open Module.Sample in
/-- In the sample the files found depend on the order of enumeration. -/
theorem analysis_reordered_sample :
    ∃ s', Reordered aliased s' ∧ files s' ⟨['.']⟩ {} ≠ files aliased ⟨['.']⟩ {} := by
  obtain ⟨-, hiff, -, -⟩ := analysis_reordered (s := aliased) (by decide +kernel) {}
  obtain ⟨ha, hb, hfile⟩ := canonical?_aliased
  have hambiguous : ¬ Unambiguous aliased ⟨['.']⟩ {} := by
    intro h
    have hforced := h [['a']] "f.java".toList (isRoute_aliased (Or.inl rfl)) (by decide +kernel)
      (isFile_iff.mpr ⟨_, .empty, hfile, by decide +kernel⟩) (by decide +kernel)
    have hsame := hforced [['a']] List.prefix_rfl [['b']] (isRoute_aliased (Or.inr rfl))
      (hb.trans ha.symm)
    exact absurd hsame (by decide)
  rw [← hiff] at hambiguous
  simpa only [not_forall, exists_prop] using hambiguous

end Module

end ModuleDocs

import ModuleDocs.Instrumentation.Analysis
import ModuleDocs.Proofs.Instrumentation.Aggregate
import ModuleDocs.Proofs.Module.Discovery
import ModuleDocs.Proofs.Module.Files

/-!
# Which descriptors an instrumentation gets its versions from

Modules are classified by their own directories, but facts are collected below the
directory that holds the kind directories of an instrumentation. What counts there is
settled by the names below that directory alone (`Declares`): a descriptor counts for
the kind whose segment is on its path, be it in a module directory of the instrumentation,
in one of another, or in none. So the versions of an instrumentation are those declared
below a directory that holds a module directory of its key (`exists_module_of_analyze`);
if only one does, none of them is missed (`versions_attributed`). A module nested below
another one is counted twice: `exists_version_of_nested`.
-/

namespace ModuleDocs

namespace Instrumentation

open ModuleDocs.Path ModuleDocs.Store ModuleDocs.Module

variable {s : Store} {settings : ScanSettings} {reader : Source.Reader} {e : Instrumentation}
  {t kind : ModuleKind} {v content : Text} {dir d root : Path} {base loc : Location}
  {ns : List Text}

/-! ## The versions of an instrumentation -/

/-- The versions known for a kind. -/
def versionsFor (e : Instrumentation) (t : ModuleKind) : TextSet :=
  (e.targetVersions.get? t).getD .empty

theorem mem_versionsFor_addDependencyInfo {info : DependencyInfo} :
    v ∈ (e.addDependencyInfo kind info).versionsFor t ↔
      v ∈ e.versionsFor t ∨ t = kind ∧ v ∈ info.versions := by
  rw [versionsFor, addDependencyInfo]
  by_cases hnone : info.versions.toList = []
  · have hno : ¬ v ∈ info.versions := by simp [TextSet.mem_def, hnone]
    simp [hnone, hno, versionsFor]
  · simp only [if_neg hnone, TargetVersions.add, TargetVersions.get?_set]
    by_cases ht : t = kind
    · simp [ht, versionsFor]
    · simp [ht, versionsFor]

@[simp] theorem path_addDescriptor : (addDescriptor reader e d).path = e.path := by
  rw [addDescriptor]
  split <;> rfl

@[simp] theorem key_addDescriptor : (addDescriptor reader e d).key = e.key := by
  rw [addDescriptor]
  split <;> rfl

/-- A descriptor adds the versions it declares for its kind. -/
theorem mem_versionsFor_addDescriptor :
    v ∈ (addDescriptor reader e d).versionsFor t ↔
      v ∈ e.versionsFor t ∨ descriptorKind? e.path d = some t ∧
        ∃ content, (reader d).bind Text.decode? = some content ∧
          v ∈ (Descriptor.resolve content t).versions := by
  rw [addDescriptor]
  split
  · next kind content hkind hread =>
    rw [mem_versionsFor_addDependencyInfo, hkind, hread]
    simp only [Option.some.injEq, exists_eq_left']
    refine or_congr_right ?_
    constructor
    · rintro ⟨rfl, hv⟩
      exact ⟨rfl, hv⟩
    · rintro ⟨rfl, hv⟩
      exact ⟨rfl, hv⟩
  · next hno =>
    refine (or_iff_left ?_).symm
    rintro ⟨hkind, content, hread, -⟩
    exact hno t content hkind hread

/-- Descriptors add up. -/
theorem foldl_addDescriptor (reader : Source.Reader) (e : Instrumentation) (ds : List Path) :
    (ds.foldl (addDescriptor reader) e).key = e.key ∧
      ∀ t v, v ∈ (ds.foldl (addDescriptor reader) e).versionsFor t ↔
        v ∈ e.versionsFor t ∨ ∃ d ∈ ds, descriptorKind? e.path d = some t ∧
          ∃ content, (reader d).bind Text.decode? = some content ∧
            v ∈ (Descriptor.resolve content t).versions := by
  induction ds generalizing e with
  | nil => simp
  | cons d ds ih =>
    obtain ⟨hkey, hversions⟩ := ih (addDescriptor reader e d)
    refine ⟨by rw [List.foldl_cons, hkey, key_addDescriptor], fun t v => ?_⟩
    rw [List.foldl_cons, hversions, mem_versionsFor_addDescriptor, path_addDescriptor, or_assoc]
    simp only [List.mem_cons, exists_eq_or_imp]

/-- Settings leave versions alone. -/
theorem foldl_addConfiguration (ps : List ConfigurationProperty) :
    (ps.foldl addConfiguration e).key = e.key ∧
      (ps.foldl addConfiguration e).targetVersions = e.targetVersions := by
  induction ps generalizing e with
  | nil => exact ⟨rfl, rfl⟩
  | cons p ps ih =>
    have hstep : (addConfiguration e p).key = e.key ∧
        (addConfiguration e p).targetVersions = e.targetVersions := by
      rw [addConfiguration]
      split <;> exact ⟨rfl, rfl⟩
    rw [List.foldl_cons, ih.1, ih.2]
    exact hstep

theorem addDescription_eq (store : Store) (e : Instrumentation) (file : Option Path) :
    (addDescription store e file).key = e.key ∧
      (addDescription store e file).targetVersions = e.targetVersions := by
  rw [addDescription]
  split <;> exact ⟨rfl, rfl⟩

/-- **What an instrumentation is enriched with** keeps its key; versions come from its
descriptors. -/
theorem enrich_spec (s : Store) (settings : ScanSettings) (reader : Source.Reader)
    (table : TextMap ConfigurationProperty) (e : Instrumentation) :
    (enrich s settings reader table e).key = e.key ∧
      ∀ t v, v ∈ (enrich s settings reader table e).versionsFor t ↔
        v ∈ e.versionsFor t ∨ ∃ d ∈ (files s e.path settings).descriptors,
          descriptorKind? e.path d = some t ∧
            ∃ content, (reader d).bind Text.decode? = some content ∧
              v ∈ (Descriptor.resolve content t).versions := by
  obtain ⟨hkey, hversions⟩ := foldl_addDescriptor reader e
    (files s e.path settings).descriptors
  have hsame : (enrich s settings reader table e).key =
        ((files s e.path settings).descriptors.foldl (addDescriptor reader) e).key ∧
      (enrich s settings reader table e).targetVersions =
        ((files s e.path settings).descriptors.foldl (addDescriptor reader) e).targetVersions :=
    ⟨(addDescription_eq _ _ _).1.trans (foldl_addConfiguration _).1,
      (addDescription_eq _ _ _).2.trans (foldl_addConfiguration _).2⟩
  refine ⟨hsame.1.trans hkey, fun t v => ?_⟩
  rw [← hversions, versionsFor, versionsFor, hsame.2]

/-! ## Descriptors below a directory -/

/-- A readable build descriptor in the directory with the names `ns` below a location,
outside directories that are left out. -/
structure IsDescriptor (s : Store) (settings : ScanSettings) (loc : Location) (ns : List Text)
    (content : Text) : Prop where
  reads : ∃ b, s.node? (loc ++ (ns ++ [settings.descriptor])) = some (.file b) ∧
    Text.decode? b = some content
  collected : ∀ n ∈ ns, isClosedName n = false
  outsideTesting : "testing".toList ∉ ns ++ [settings.descriptor]

/-- The kind whose segment is among names; the agent's if both are. -/
def kindAmong (names : List Text) : Option ModuleKind :=
  [ModuleKind.agent, ModuleKind.library].find? fun k => names.contains k.segment

/-- A descriptor belongs to the kind among the names that lead to it. -/
theorem descriptorKind?_descend (hne : ns ≠ []) (hns : ∀ n ∈ ns, IsEntryName n) :
    descriptorKind? root (root.descend ns) = kindAmong ns := by
  simp only [descriptorKind?, relativeTo?_descend hns, bind, Option.bind_some, kindAmong,
    List.splitOn_intercalate '/' (fun n hn => (hns n hn).solid) hne]

/-- A descriptor below a location declares a version for the kind on its path. -/
def Declares (s : Store) (settings : ScanSettings) (loc : Location) (t : ModuleKind) (v : Text) :
    Prop :=
  ∃ ns content, IsDescriptor s settings loc ns content ∧
    kindAmong (ns ++ [settings.descriptor]) = some t ∧ v ∈ (Descriptor.resolve content t).versions

section LinkFree

variable (hs : s.IsTree) (hbase : s.LinkFree base) (hroot : s.canonical? root = some base)
  (hdir : s.node? base = some .directory)

include hs hbase hroot hdir

/-- The descriptors of a module without links. -/
theorem mem_descriptors_iff : d ∈ (files s root settings).descriptors ↔
    ∃ ns b, s.node? (base ++ (ns ++ [settings.descriptor])) = some (.file b) ∧
      (∀ n ∈ ns, isClosedName n = false) ∧ "testing".toList ∉ ns ++ [settings.descriptor] ∧
      d = root.descend (ns ++ [settings.descriptor]) := by
  have hread {ns : List Text} {n : Text} {b : ByteArray}
      (hnode : s.node? (base ++ (ns ++ [n])) = some (.file b)) :
      (root.descend (ns ++ [n])).name? = some n ∧
        (hasSegmentBelow root ["testing".toList] (root.descend (ns ++ [n])) = false ↔
          "testing".toList ∉ ns ++ [n]) := by
    have hnames : ∀ m ∈ ns ++ [n], IsEntryName m :=
      fun m hm => names_of_node? hs hnode m (List.mem_append_right _ hm)
    refine ⟨name?_descend _ _ (hnames n (by simp)), ?_⟩
    rw [Bool.eq_false_iff, Ne, hasSegmentBelow_descend (by simp) hnames]
    simp only [List.mem_singleton, exists_eq_right]
  rw [files, descriptorsAmong, List.mem_filter,
    mem_filesBelow_iff_node hs hbase hroot hdir, Bool.and_eq_true, Bool.not_eq_true', beq_iff_eq]
  constructor
  · rintro ⟨⟨ns, n, b, hnode, hopen, rfl⟩, hname, htesting⟩
    obtain ⟨hn, hiff⟩ := hread hnode
    rw [hn, Option.some.injEq] at hname
    subst hname
    exact ⟨ns, b, hnode, hopen, hiff.mp htesting, rfl⟩
  · rintro ⟨ns, b, hnode, hopen, htesting, rfl⟩
    obtain ⟨hn, hiff⟩ := hread hnode
    exact ⟨⟨ns, _, b, hnode, hopen, rfl⟩, hn, hiff.mpr htesting⟩

/-- **What the descriptors of a module say** is what is declared below its directory. -/
theorem declares_iff : Declares s settings base t v ↔
    ∃ d ∈ (files s root settings).descriptors, descriptorKind? root d = some t ∧
      ∃ content, (s.reader d).bind Text.decode? = some content ∧
        v ∈ (Descriptor.resolve content t).versions := by
  have hread {ns : List Text} {b : ByteArray}
      (hnode : s.node? (base ++ (ns ++ [settings.descriptor])) = some (.file b)) :
      s.reader (root.descend (ns ++ [settings.descriptor])) = some b ∧
        descriptorKind? root (root.descend (ns ++ [settings.descriptor])) =
          kindAmong (ns ++ [settings.descriptor]) := by
    constructor
    · have hok := read_eq_ok_iff.mpr ⟨_, canonical?_descend hs hbase hroot hnode, hnode⟩
      rw [reader, hok]
      rfl
    · exact descriptorKind?_descend (by simp)
        fun m hm => names_of_node? hs hnode m (List.mem_append_right _ hm)
  constructor
  · rintro ⟨ns, content, ⟨⟨b, hnode, hb⟩, hopen, htesting⟩, hkind, hv⟩
    obtain ⟨hbytes, hkind'⟩ := hread hnode
    refine ⟨_, (mem_descriptors_iff hs hbase hroot hdir).mpr ⟨ns, b, hnode, hopen, htesting, rfl⟩,
      hkind'.trans hkind, content, ?_, hv⟩
    rw [hbytes, Option.bind_some, hb]
  · rintro ⟨d, hd, hkind, content, hcontent, hv⟩
    obtain ⟨ns, b, hnode, hopen, htesting, rfl⟩ :=
      (mem_descriptors_iff hs hbase hroot hdir).mp hd
    obtain ⟨hbytes, hkind'⟩ := hread hnode
    rw [hbytes, Option.bind_some] at hcontent
    exact ⟨ns, content, ⟨⟨b, hnode, hcontent⟩, hopen, htesting⟩, hkind'.symm.trans hkind, hv⟩

end LinkFree

/-! ## The directory of an instrumentation -/

/-- The names that lead from the root to the directory above a module directory. -/
def above (m : ModuleDir) : List Text := (Module.segments m.relative).dropLast

/-- An analysis enriches the instrumentations of the discovered modules. -/
theorem analyze_eq {modules : List ModuleDir} (hd : discover s root settings = .ok modules) :
    analyze s root settings = .ok ((aggregate modules).map
      (enrich s settings s.reader (experimentalTable s root settings))) := by
  simp only [analyze, hd, bind, Except.bind, pure, Except.pure]

theorem exists_modules_of_analyze {es : List Instrumentation}
    (h : analyze s root settings = .ok es) : ∃ modules, discover s root settings = .ok modules ∧
      es = (aggregate modules).map
        (enrich s settings s.reader (experimentalTable s root settings)) := by
  cases hd : discover s root settings with
  | error e => simp [analyze, hd, bind, Except.bind] at h
  | ok modules =>
    rw [analyze_eq hd, Except.ok.injEq] at h
    exact ⟨modules, rfl, h.symm⟩

section LinkFree

variable (hs : s.IsTree) (hbase : s.LinkFree base) (hroot : s.canonical? root = some base)

include hs hbase hroot

/-- Where a discovered module directory is. -/
theorem exists_met_of_discover {modules : List ModuleDir} {m : ModuleDir}
    (hd : discover s root settings = .ok modules) (hm : m ∈ modules) :
    ∃ skip k, IsMet s root base skip (above m ++ [k]) ∧
      classifyPath s root (List.intercalate ['/'] (above m ++ [k])) settings.container =
        some m := by
  obtain ⟨hisdir, rules, -, rfl⟩ := exists_rules_of_discover hd
  obtain ⟨loc, hloc, hdir⟩ := isDirectory_iff.mp hisdir
  rw [hroot, Option.some.injEq] at hloc
  subst hloc
  obtain ⟨ns, hmet, hread⟩ := (mem_discoverWhere_iff hs hbase hroot hdir).mp hm
  obtain ⟨front, k, rfl⟩ := (List.eq_nil_or_concat ns).resolve_left hmet.proper
  rw [List.concat_eq_append] at *
  have habove : above m = front := by
    rw [above, relative_of_classifyPath hmet.proper (hmet.named hs) hread,
      segments_intercalate hmet.proper (hmet.named hs), List.dropLast_concat]
  rw [habove]
  exact ⟨_, k, hmet, hread⟩

/-- An instrumentation lies above its module directory. -/
theorem path_ofModule {modules : List ModuleDir} {m : ModuleDir}
    (hd : discover s root settings = .ok modules) (hm : m ∈ modules) :
    (ofModule m).path = root.descend (above m) ∧ s.node? (base ++ above m) = some .directory := by
  obtain ⟨skip, k, hmet, hread⟩ := exists_met_of_discover hs hbase hroot hd hm
  have hnames := hmet.named hs
  obtain ⟨-, hpath, -, hname, -, -⟩ := classifyPath_eq_some hread
  rw [segments_intercalate hmet.proper hnames, List.dropLast_concat] at hname
  rw [relative_of_classifyPath hmet.proper hnames hread,
    join_intercalate hmet.proper hnames] at hpath
  have hne : above m ≠ [] := by
    intro hnil
    rw [hnil] at hname
    cases hname
  rw [ofModule, hpath, parent?_descend hne hnames]
  have hnode := hmet.directory
  rw [← List.append_assoc] at hnode
  exact ⟨rfl, directory_of_append hs (by simp) hnode⟩

/-- Nothing on the way to a module directory is left out when files are collected. -/
theorem collected_above {modules : List ModuleDir} {m : ModuleDir}
    (hd : discover s root settings = .ok modules) (hm : m ∈ modules) :
    (∀ n ∈ above m, isClosedName n = false) ∧ "testing".toList ∉ above m := by
  obtain ⟨skip, k, hmet, hread⟩ := exists_met_of_discover hs hbase hroot hd hm
  constructor
  · intro n hn
    obtain ⟨front, rest, hsplit⟩ := List.append_of_mem hn
    have hskipped := (hmet.entered front n ⟨rest ++ [k], by simp [hsplit]⟩).1
    simp only [isSkippedName, Bool.or_eq_false_iff] at hskipped
    simp only [isClosedName, Bool.or_eq_false_iff]
    exact ⟨hskipped.1.1.1, hskipped.1.1.2⟩
  · intro htesting
    have hdenied := not_denied_of_classifyPath hread
    rw [segments_intercalate hmet.proper (hmet.named hs),
      hasDeniedSegment_of_testing (List.mem_append_left _ htesting)] at hdenied
    cases hdenied

/-- A descriptor of one module counts for every module above whose directory it lies. -/
theorem IsDescriptor.of_above {modules : List ModuleDir} {m m' : ModuleDir} {ns' : List Text}
    (hd : discover s root settings = .ok modules) (hm' : m' ∈ modules)
    (h : IsDescriptor s settings (base ++ above m') ns' content)
    (hplace : above m' ++ ns' = above m ++ ns) :
    IsDescriptor s settings (base ++ above m) ns content := by
  obtain ⟨⟨b, hnode, hb⟩, hopen, htesting⟩ := h
  obtain ⟨hopen', htesting'⟩ := collected_above hs hbase hroot hd hm'
  have hsame : base ++ above m' ++ (ns' ++ [settings.descriptor]) =
      base ++ above m ++ (ns ++ [settings.descriptor]) := by
    simp only [List.append_assoc]
    rw [← List.append_assoc (above m'), hplace, List.append_assoc]
  -- what is below the one directory is below the other or on the way to it
  have hmem : ∀ n ∈ ns, n ∈ ns' ∨ n ∈ above m' := by
    intro n hn
    have hall : n ∈ above m' ++ ns' := hplace ▸ List.mem_append_right _ hn
    exact (List.mem_append.mp hall).symm
  refine ⟨⟨b, hsame ▸ hnode, hb⟩, fun n hn => ?_, fun hn => htesting ?_⟩
  · rcases hmem n hn with hn | hn
    · exact hopen n hn
    · exact hopen' n hn
  · rcases List.mem_append.mp hn with hn | hn
    · exact List.mem_append_left _ ((hmem _ hn).resolve_right htesting')
    · exact List.mem_append_right _ hn

/-- **The versions of an instrumentation** are those declared below the directory above a
module directory of its key. -/
theorem exists_module_of_analyze {modules : List ModuleDir} {es : List Instrumentation}
    (hd : discover s root settings = .ok modules) (h : analyze s root settings = .ok es)
    (he : e ∈ es) : ∃ m ∈ modules, (ofModule m).key = e.key ∧
      ∀ t v, v ∈ e.versionsFor t ↔ Declares s settings (base ++ above m) t v := by
  obtain ⟨modules', hd', rfl⟩ := exists_modules_of_analyze h
  rw [hd, Except.ok.injEq] at hd'
  subst hd'
  obtain ⟨e₀, he₀, rfl⟩ := List.mem_map.mp he
  obtain ⟨m, hm, hkey, hpath, hnone⟩ := (aggregated modules).starts e₀ he₀
  obtain ⟨hkey', hversions⟩ := enrich_spec s settings s.reader
    (experimentalTable s root settings) e₀
  obtain ⟨habove, hnode⟩ := path_ofModule hs hbase hroot hd hm
  refine ⟨m, hm, hkey.trans hkey'.symm, fun t v => ?_⟩
  have hempty : ¬ v ∈ e₀.versionsFor t := by
    rw [versionsFor, hnone]
    cases t <;> exact TextSet.mem_empty
  rw [hversions, or_iff_right hempty, ← hpath, habove,
    declares_iff hs (hbase.descend _) (canonical?_descend hs hbase hroot hnode) hnode]

/-- **Versions are attributed by directory.** Every module has one instrumentation of its
key, and every instrumentation has a module. A version of an instrumentation is declared
below a directory above a module directory of its key; if there is one such directory,
its versions are those declared below it. A descriptor that counts for a module counts for
all others above whose directories it lies. -/
theorem versions_attributed {es : List Instrumentation}
    (h : analyze s root settings = .ok es) :
    ∃ modules, discover s root settings = .ok modules ∧
      (∀ m ∈ modules, ∃! e, e ∈ es ∧ e.key = (ofModule m).key) ∧
      (∀ e ∈ es, (∃ m ∈ modules, (ofModule m).key = e.key) ∧
        (∀ t, ∀ v ∈ e.versionsFor t, ∃ m ∈ modules, (ofModule m).key = e.key ∧
          Declares s settings (base ++ above m) t v) ∧
        ∀ names, (∀ m ∈ modules, (ofModule m).key = e.key → above m = names) →
          ∀ t v, v ∈ e.versionsFor t ↔ Declares s settings (base ++ names) t v) ∧
      ∀ m ∈ modules, ∀ m' ∈ modules, ∀ ns ns' content,
        above m' ++ ns' = above m ++ ns →
        (IsDescriptor s settings (base ++ above m') ns' content ↔
          IsDescriptor s settings (base ++ above m) ns content) := by
  obtain ⟨modules, hd, hes⟩ := exists_modules_of_analyze h
  have hall := aggregated modules
  have hkeys : es.map key = (aggregate modules).map key := by
    rw [hes, List.map_map]
    exact List.map_congr_left fun e _ => (enrich_spec _ _ _ _ _).1
  refine ⟨modules, hd, fun m hm => ?_, fun e he => ?_, ?_⟩
  · obtain ⟨e, he, hkey⟩ := List.mem_map.mp (hkeys ▸ hall.covers m hm)
    refine ⟨e, ⟨he, hkey⟩, ?_⟩
    rintro e' ⟨he', hkey'⟩
    exact List.inj_on_of_nodup_map (hkeys ▸ hall.nodup) he' he (hkey'.trans hkey.symm)
  · obtain ⟨m, hm, hkey, hversions⟩ := exists_module_of_analyze hs hbase hroot hd h he
    refine ⟨⟨m, hm, hkey⟩, fun t v hv => ⟨m, hm, hkey, (hversions t v).mp hv⟩, ?_⟩
    intro names hone t v
    rw [hversions, hone m hm hkey]
  · intro m hm m' hm' ns ns' content hplace
    exact ⟨fun hdescriptor => hdescriptor.of_above hs hbase hroot hd hm' hplace,
      fun hdescriptor => hdescriptor.of_above hs hbase hroot hd hm hplace.symm⟩

end LinkFree

namespace Sample

open ModuleDocs.Module.Sample

/-- A module with another one below it, which has a descriptor. -/
def nestedModules : Store where
  home := []
  nodes := ["c", "c/foo", "c/foo/library", "c/foo/bar", "c/foo/bar/library"].map folder ++
    [(List.splitOn '/' "c/foo/bar/library/build.gradle.kts".toList,
      .file (Text.encode "library(\"g:a:1\")".toList))]

def plainScan : ScanSettings := { container := ['c'], disableGitignore := true }

def foo : ModuleDir :=
  ⟨⟨"./c/foo/library".toList⟩, "c/foo/library".toList, "foo".toList, "foo".toList, "foo".toList,
    .library⟩

def bar : ModuleDir :=
  ⟨⟨"./c/foo/bar/library".toList⟩, "c/foo/bar/library".toList, "bar".toList, "bar".toList,
    "bar".toList, .library⟩

theorem isTree_nestedModules : nestedModules.IsTree := by decide

theorem linkFree_nestedModules : nestedModules.LinkFree base := by
  refine linkFree_of_nodes fun e he t => ?_
  rcases List.mem_append.mp he with he | he
  · obtain ⟨n, _, rfl⟩ := List.mem_map.mp he
    simp [folder]
  · rw [List.mem_singleton.mp he]
    simp

theorem canonical?_nestedModules : nestedModules.canonical? ⟨['.']⟩ = some [] :=
  canonical?_current node?_nil

theorem discover_nestedModules : ∃ modules, discover nestedModules ⟨['.']⟩ plainScan = .ok modules ∧
    ∀ m, m ∈ modules ↔ m = foo ∨ m = bar := by
  have hrules : excludeRules ⟨['.']⟩ plainScan.exclude = .ok ⟨⟨['.']⟩, []⟩ := rfl
  refine ⟨_, discover_eq (isDirectory_iff.mpr ⟨[], canonical?_nestedModules, node?_nil⟩) hrules,
    fun m => ?_⟩
  rw [mem_discoverWhere_iff isTree_nestedModules linkFree_nestedModules canonical?_nestedModules
    node?_nil]
  constructor
  · rintro ⟨ns, hmet, hread⟩
    have hall : ∀ e ∈ nestedModules.nodes,
        classifyPath nestedModules ⟨['.']⟩ (List.intercalate ['/'] e.1) ['c'] ∈
          [none, some foo, some bar] := by
      decide
    have hmem := hall _ (mem_nodes_of_node? hmet.proper hmet.directory)
    rw [show plainScan.container = ['c'] from rfl] at hread
    rw [hread] at hmem
    simpa using hmem
  · have hskip : isPassedOver nestedModules ⟨['.']⟩ plainScan ⟨⟨['.']⟩, []⟩ = fun _ => false := rfl
    rw [hskip]
    rintro (rfl | rfl)
    · exact ⟨["c".toList, "foo".toList, "library".toList], by decide, by decide⟩
    · exact ⟨["c".toList, "foo".toList, "bar".toList, "library".toList], by decide,
        by decide⟩

theorem declares_nestedModules :
    Declares nestedModules plainScan (List.splitOn '/' "c/foo".toList) .library "g:a:1".toList :=
  ⟨["bar".toList, "library".toList], "library(\"g:a:1\")".toList,
    ⟨⟨_, rfl, Text.decode?_encode _⟩, by decide, by decide⟩, by decide,
    TextSet.mem_def.mpr (by decide)⟩

end Sample

open Instrumentation.Sample in
/-- A module gets the version that a module nested below it declares, though no descriptor
lies in its own module directory. -/
theorem exists_version_of_nested :
    ∃ modules es e, discover nestedModules ⟨['.']⟩ plainScan = .ok modules ∧
      analyze nestedModules ⟨['.']⟩ plainScan = .ok es ∧ e ∈ es ∧
      "g:a:1".toList ∈ e.versionsFor .library ∧
      ∀ m ∈ modules, (ofModule m).key = e.key → m.kind = .library → ∀ ns content,
        ¬ IsDescriptor nestedModules plainScan (Module.segments m.relative) ns content := by
  obtain ⟨modules, hd, hmodules⟩ := discover_nestedModules
  have hes := analyze_eq hd
  obtain ⟨e₀, he₀, hkey₀⟩ :=
    List.mem_map.mp ((aggregated modules).covers foo ((hmodules foo).mpr (Or.inl rfl)))
  have hkey : (enrich nestedModules plainScan nestedModules.reader
      (experimentalTable nestedModules ⟨['.']⟩ plainScan) e₀).key = (ofModule foo).key :=
    (enrich_spec _ _ _ _ _).1.trans hkey₀
  have he := List.mem_map_of_mem (f := enrich nestedModules plainScan nestedModules.reader
    (experimentalTable nestedModules ⟨['.']⟩ plainScan)) he₀
  have hfoo {m : ModuleDir} (hm : m ∈ modules) (hk : (ofModule m).key = (ofModule foo).key) :
      m = foo := by
    rcases (hmodules m).mp hm with rfl | rfl
    · rfl
    · exact absurd hk (by decide +kernel)
  refine ⟨modules, _, _, hd, hes, he, ?_, fun m hm hk _ ns content h => ?_⟩
  · obtain ⟨m, hm, hk, hversions⟩ := exists_module_of_analyze isTree_nestedModules
      linkFree_nestedModules canonical?_nestedModules hd hes he
    obtain rfl := hfoo hm (hk.trans hkey)
    exact (hversions _ _).mpr declares_nestedModules
  · obtain rfl := hfoo hm (hk.trans hkey)
    obtain ⟨⟨b, hnode, -⟩, -, -⟩ := h
    have hfiles : ∀ e ∈ nestedModules.nodes, e.2 = .directory ∨
        ¬ List.splitOn '/' "c/foo/library".toList <+: e.1 := by
      decide +kernel
    rcases hfiles _ (mem_nodes_of_node? (by simp) hnode) with hdir | hno
    · cases hdir
    · exact hno (List.prefix_append _ _)

open Instrumentation.Sample in
/-- In the sample the version that the nested module declares is one of the outer module,
too. -/
theorem versions_attributed_sample :
    ∃ es, analyze nestedModules ⟨['.']⟩ plainScan = .ok es ∧
      ∃ e ∈ es, e.key = (ofModule foo).key ∧ "g:a:1".toList ∈ e.versionsFor .library := by
  obtain ⟨modules, hd, hmodules⟩ := discover_nestedModules
  have hes := analyze_eq hd
  obtain ⟨modules', hd', hone, hversions, -⟩ := versions_attributed isTree_nestedModules
    linkFree_nestedModules canonical?_nestedModules hes
  rw [hd, Except.ok.injEq] at hd'
  subst hd'
  obtain ⟨e, ⟨he, hkey⟩, -⟩ := hone foo ((hmodules foo).mpr (Or.inl rfl))
  refine ⟨_, hes, e, he, hkey, ?_⟩
  refine ((hversions e he).2.2 (List.splitOn '/' "c/foo".toList) ?_ _ _).mpr declares_nestedModules
  intro m hm hk
  rcases (hmodules m).mp hm with rfl | rfl
  · decide +kernel
  · exact absurd (hk.trans hkey) (by decide +kernel)

end Instrumentation

end ModuleDocs

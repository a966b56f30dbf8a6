import ModuleDocs.Proofs.Document.Convergence
import ModuleDocs.Proofs.Document.Counter
import ModuleDocs.Proofs.Document.Omission
import ModuleDocs.Proofs.Instrumentation.Attribution

/-!
# A check, a dry run and an update agree

The three commands read the same project and context, so they fail together. After that
each looks at the reconciliation in its own way: an update asks whether every target
failed, then whether any of them made a difference, and writes the documents that differ; a
check asks for those documents first. That they agree rests on two facts. A target is
counted either as a difference or as a failure (`updated_add_failures_le`), so where every
target failed nothing is written, and leaving early leaves nothing out. And a document that
is written holds other bytes than before (`writeUpdates_changes`), so what is listed is
what changes.
-/

namespace ModuleDocs

open Reconciliation

variable {store after : Store} {c : DocsContext} {r : Reconciliation} {t : Target}
  {ts : List Target} {loc : Location}

/-! ## Runs in which every target failed -/

/-- There are targets and none of them could be applied. -/
def DocsContext.AllFail (store : Store) (c : DocsContext) : Prop :=
  c.settings.targets ≠ [] ∧ (c.withoutFailed store).settings.targets = []

theorem allFailed_iff : (computeUpdates store c).allFailed = true ↔ c.AllFail store := by
  have hlength : (computeUpdates store c).failures.length +
      (c.withoutFailed store).settings.targets.length = c.settings.targets.length := by
    have hlength := length_failures_add store c {} c.settings.targets
    rwa [List.length_nil, Nat.zero_add] at hlength
  have hcount : (computeUpdates store c).targetCount = c.settings.targets.length := rfl
  rw [DocsUpdate.allFailed, everyTargetFailed, Bool.and_eq_true, decide_eq_true_iff,
    beq_iff_eq, hcount, DocsContext.AllFail, List.length_pos_iff]
  refine and_congr_right fun _ => ?_
  rw [← List.length_eq_zero_iff]
  omega

/-- Where no document can be opened every target fails. -/
theorem DocsContext.allFail_of_closed (hne : c.settings.targets ≠ [])
    (h : ∀ t ∈ c.settings.targets, c.opens store t = false) : c.AllFail store := by
  refine ⟨hne, ?_⟩
  have hclosed (ts : List Target) (r : Reconciliation) (hr : r.drafts = [])
      (hts : ∀ t ∈ ts, c.opens store t = false) : succeeding store c r ts = [] := by
    induction ts generalizing r with
    | nil => rfl
    | cons t ts ih =>
      have hnone : r.draftAt (c.targetPath t) = none := by rw [Reconciliation.draftAt, hr]; rfl
      cases hopen : openDraft store (c.targetPath t) with
      | ok d => exact absurd ((opens_eq_true hopen).symm.trans (hts t List.mem_cons_self)) (by simp)
      | error e =>
        have happly : apply store c r t = _ := apply_of_error (by rw [draft_eq, hnone, hopen])
        rw [succeeding, happly, if_neg (by simp)]
        exact ih _ hr fun u hu => hts u (List.mem_cons_of_mem _ hu)
  exact hclosed _ _ rfl h

/-- A target makes a difference or fails, not both. -/
theorem updated_add_failures_apply (store : Store) (c : DocsContext) (r : Reconciliation)
    (t : Target) : (apply store c r t).updated + (apply store c r t).failures.length ≤
      r.updated + r.failures.length + 1 := by
  unfold apply
  dsimp only
  split
  · simp
    omega
  · split
    · simp
      omega
    · split
      · simp
        omega
      · simp

theorem updated_add_failures_le : (ts.foldl (apply store c) r).updated +
    (ts.foldl (apply store c) r).failures.length ≤ r.updated + r.failures.length + ts.length := by
  induction ts generalizing r with
  | nil => exact Nat.le_refl _
  | cons t ts ih =>
    have hstep := updated_add_failures_apply store c r t
    have hrest := ih (r := apply store c r t)
    rw [List.foldl_cons, List.length_cons]
    omega

/-- Where no target makes a difference nothing is written. -/
theorem files_of_updated_eq_zero (h : (computeUpdates store c).updated = 0) :
    (computeUpdates store c).files = [] :=
  files_eq_nil_iff_upToDate.mpr (updated_eq_zero_iff_idle.mp h).upToDate

/-- Where every target failed nothing is written. -/
theorem files_of_allFailed (h : (computeUpdates store c).allFailed = true) :
    (computeUpdates store c).files = [] := by
  have hle : (computeUpdates store c).updated + (computeUpdates store c).failures.length ≤
      0 + 0 + c.settings.targets.length :=
    updated_add_failures_le (r := {})
  have hcount : (computeUpdates store c).failures.length = c.settings.targets.length := by
    rw [DocsUpdate.allFailed, everyTargetFailed, Bool.and_eq_true] at h
    exact beq_iff_eq.mp h.2
  exact files_of_updated_eq_zero (by omega)

/-! ## The files that an update changes -/

/-- **Writing changes what is listed.** The files that hold other bytes afterwards are
those of the written documents. -/
theorem writeUpdates_changes (hw : writeUpdates store (computeUpdates store c) = .ok after) :
    after.node? loc ≠ store.node? loc ↔
      ∃ f ∈ (computeUpdates store c).files, store.canonical? f.1 = some loc := by
  obtain ⟨_, hok, -, hnode⟩ := exists_writeUpdates store c
  rw [hw] at hok
  cases hok
  rw [hnode]
  cases hlast : Store.lastWritten store loc (computeUpdates store c).files with
  | none => simpa using Store.lastWritten_eq_none_iff.mp hlast
  | some f =>
    obtain ⟨hf, hfloc⟩ := Store.mem_of_lastWritten hlast
    refine iff_of_true (fun hsame => ?_) ⟨f, hf, hfloc⟩
    -- the last document that is written there differs from what was there
    obtain ⟨loc', stored, hloc', ht, -, hne⟩ := exists_stored_of_mem_files hf
    rw [hfloc] at hloc'
    cases hloc'
    have hsame : store.node? loc = some (.file (Text.encode f.2)) := hsame.symm
    rw [Store.textAt?, hsame] at ht
    exact hne (Option.some.inj ((Text.decode?_encode f.2).symm.trans ht))

/-- An update changes a file exactly if a check finds a stale document. -/
theorem exists_change_iff (hw : writeUpdates store (computeUpdates store c) = .ok after) :
    (∃ loc, after.node? loc ≠ store.node? loc) ↔ (check store c).stale ≠ [] := by
  have hempty : (check store c).stale = [] ↔ (computeUpdates store c).files = [] :=
    List.map_eq_nil_iff.symm
  rw [Ne, hempty]
  constructor
  · rintro ⟨loc, hloc⟩
    obtain ⟨f, hf, -⟩ := (writeUpdates_changes hw).mp hloc
    exact List.ne_nil_of_mem hf
  · intro hne
    obtain ⟨f, hf⟩ := List.exists_mem_of_ne_nil _ hne
    obtain ⟨loc, -, hloc, -⟩ := exists_stored_of_mem_files hf
    exact ⟨loc, (writeUpdates_changes hw).mpr ⟨f, hf, hloc⟩⟩

/-- Different documents of an update are different files, if the paths of the targets are
apart. -/
theorem nodup_canonical?_files (h : c.PathsApart store) :
    ((computeUpdates store c).files.map fun f => store.canonical? f.1).Nodup := by
  have hnodup := nodup_files store c
  refine List.Nodup.map_on (fun f hf g hg hsame => ?_) hnodup.of_map
  obtain ⟨t, ht, hpath⟩ := exists_target_of_mem_files hf
  obtain ⟨u, hu, hpath'⟩ := exists_target_of_mem_files hg
  have hcomponents := h t ht u hu
  rw [hpath, hpath'] at hcomponents
  refine List.inj_on_of_nodup_map hnodup hf hg (sameDocument_iff.mp ?_)
  exact hcomponents (isFile_of_mem_files hf) hsame

/-! ## The commands -/

namespace CommandLine

variable {root version : Option Text} {docs : Path} {verbose dryRun showDiff : Bool}
  {format : ReportFormat} {o : Outcome} {e : Abort} {i : Invocation} {args : List Text}

/-- What the commands on a documentation checkout work in. -/
def InContext (store : Store) (root : Option Text) (docs : Path) (version : Option Text)
    (c : DocsContext) : Prop :=
  ∃ p, project store root = .ok p ∧ context store p docs version = .ok c

/-- What a dry run prints that would write to these files: nothing if every target failed,
that there is nothing to do, or their number and a line for each. -/
def Lists (docs : Path) (output : Text) (files : List Path) : Prop :=
  files = [] ∧ (output = [] ∨ output = upToDateLine) ∨
    ∃ sections, output = line ["Dry run: would update ".toList,
        Text.ofNat sections ++ " section(s) in ".toList ++ Text.ofNat files.length ++
          " file(s)".toList, ":".toList] ++
      files.flatMap fun f => line ["  ".toList, Path.displayBelow docs f]

theorem run_of_ok (hi : parse args = .ok i) (h : runInvocation store i = .ok o) :
    run store args = o := by
  simp only [run, hi, h]

/-- A run that ends early changes nothing. -/
theorem run_of_error (hi : parse args = .ok i) (h : runInvocation store i = .error e) :
    (run store args).exit = 2 ∧ (run store args).store = store := by
  simp only [run, hi, h]
  cases e <;> exact ⟨rfl, rfl⟩

/-- Without a context a command ends early. -/
theorem exists_error_of_not_inContext {k : Project → DocsContext → Except Abort Outcome}
    (h : ∀ c, ¬ InContext store root docs version c) :
    ∃ e, (do
      let p ← (project store root).mapError Abort.library
      let c ← (context store p docs version).mapError Abort.library
      k p c) = Except.error e := by
  cases hp : project store root with
  | error e => exact ⟨_, rfl⟩
  | ok p =>
    cases hc : context store p docs version with
    | error e => exact ⟨.library e, by simp only [hc, Except.mapError, bind, Except.bind]⟩
    | ok c => exact absurd ⟨p, hp, hc⟩ (h c)

/-- A report for programs says whether the check passed. -/
theorem lookup_jsonReport (docs : Path) (r : CheckResult) (passed : Bool) :
    ∃ members, jsonReport docs r passed = .object members ∧
      members.lookup "ok".toList = some (.bool passed) :=
  ⟨_, rfl, rfl⟩

/-- **A check** passes if no document is stale and not every target failed, and says so. -/
theorem runCheck_of_inContext (showDiff : Bool) (format : ReportFormat)
    (h : InContext store root docs version c) :
    ∃ o, runCheck store root docs version showDiff format = .ok o ∧ o.store = store ∧
      o.exit = (if (check store c).stale = [] ∧ ¬ (check store c).allFailed = true then 0 else 1) ∧
      (format = .json → ∃ members, o.output = (Json.object members).compact ++ ['\n'] ∧
        members.lookup "ok".toList = some (.bool (o.exit == 0))) := by
  obtain ⟨p, hp, hc⟩ := h
  simp only [runCheck, hp, hc, Except.mapError, bind, Except.bind]
  refine ⟨_, rfl, rfl, by simp, ?_⟩
  rintro rfl
  obtain ⟨members, hmembers, hok⟩ := lookup_jsonReport docs (check store c)
    ((check store c).stale.isEmpty && !(check store c).allFailed)
  refine ⟨members, by rw [← hmembers], ?_⟩
  rw [hok]
  cases (check store c).stale.isEmpty && !(check store c).allFailed <;> rfl

/-- **An update** leaves what writing its documents leaves. -/
theorem runUpdate_of_inContext (verbose : Bool) (h : InContext store root docs version c) :
    ∃ o, runUpdate store root verbose docs version false = .ok o ∧
      writeUpdates store (computeUpdates store c) = .ok o.store ∧
      o.exit = if (computeUpdates store c).allFailed then 1 else 0 := by
  obtain ⟨p, hp, hc⟩ := h
  obtain ⟨after, hw, -⟩ := exists_writeUpdates store c
  -- where an update ends before it writes, there is nothing to write
  have hnone (h : (computeUpdates store c).files = []) :
      writeUpdates store (computeUpdates store c) = .ok store := by
    rw [writeUpdates, h]
    rfl
  simp only [runUpdate, hp, hc, Except.mapError, bind, Except.bind]
  split
  · next hfailed => exact ⟨_, rfl, hnone (files_of_allFailed hfailed), rfl⟩
  · split
    · next hzero => exact ⟨_, rfl, hnone (files_of_updated_eq_zero hzero), rfl⟩
    · rw [if_neg (by simp)]
      simp only [hw]
      exact ⟨_, rfl, rfl, rfl⟩

/-- **A dry run** changes nothing and lists the documents of the update. -/
theorem runUpdate_dry_of_inContext (verbose : Bool) (h : InContext store root docs version c) :
    ∃ o, runUpdate store root verbose docs version true = .ok o ∧ o.store = store ∧
      Lists docs o.output ((computeUpdates store c).files.map Prod.fst) ∧
      o.exit = if (computeUpdates store c).allFailed then 1 else 0 := by
  obtain ⟨p, hp, hc⟩ := h
  simp only [runUpdate, hp, hc, Except.mapError, bind, Except.bind]
  split
  · next hfailed =>
    refine ⟨_, rfl, rfl, Or.inl ⟨?_, Or.inl rfl⟩, rfl⟩
    rw [files_of_allFailed hfailed, List.map_nil]
  · split
    · next hzero =>
      refine ⟨_, rfl, rfl, Or.inl ⟨?_, Or.inr rfl⟩, rfl⟩
      rw [files_of_updated_eq_zero hzero, List.map_nil]
    · rw [if_pos trivial]
      refine ⟨_, rfl, rfl, Or.inr ⟨(computeUpdates store c).updated, ?_⟩, rfl⟩
      rw [List.length_map, List.flatMap_map]
      rfl

/-! ## The three runs -/

section Runs

variable {docs : Text}

theorem run_check_of_not_inContext
    (hi : parse args = .ok ⟨root, verbose, some (.check docs version showDiff format)⟩)
    (h : ∀ c, ¬ InContext store root ⟨docs⟩ version c) :
    (run store args).exit = 2 ∧ (run store args).store = store := by
  obtain ⟨e, he⟩ : ∃ e, runCheck store root ⟨docs⟩ version showDiff format = .error e :=
    exists_error_of_not_inContext h
  exact run_of_error hi he

theorem run_update_of_not_inContext
    (hi : parse args = .ok ⟨root, verbose, some (.update docs version dryRun)⟩)
    (h : ∀ c, ¬ InContext store root ⟨docs⟩ version c) :
    (run store args).exit = 2 ∧ (run store args).store = store := by
  obtain ⟨e, he⟩ : ∃ e, runUpdate store root verbose ⟨docs⟩ version dryRun = .error e :=
    exists_error_of_not_inContext h
  exact run_of_error hi he

/-- A check changes nothing. -/
theorem store_run_check
    (hi : parse args = .ok ⟨root, verbose, some (.check docs version showDiff format)⟩) :
    (run store args).store = store := by
  by_cases h : ∃ c, InContext store root ⟨docs⟩ version c
  · obtain ⟨c, hc⟩ := h
    obtain ⟨o, ho, hstore, -⟩ := runCheck_of_inContext showDiff format hc
    rw [run_of_ok hi ho, hstore]
  · exact (run_check_of_not_inContext hi (not_exists.mp h)).2

/-- A dry run changes nothing. -/
theorem store_run_dry
    (hi : parse args = .ok ⟨root, verbose, some (.update docs version true)⟩) :
    (run store args).store = store := by
  by_cases h : ∃ c, InContext store root ⟨docs⟩ version c
  · obtain ⟨c, hc⟩ := h
    obtain ⟨o, ho, hstore, -⟩ := runUpdate_dry_of_inContext verbose hc
    rw [run_of_ok hi ho, hstore]
  · exact (run_update_of_not_inContext hi (not_exists.mp h)).2

end Runs

/-- **The commands agree.** A check, a dry run and an update of one checkout end early
together. Otherwise the update and the dry run fail if every target does, and the check
fails if every target does or the update changes a file. The check and the dry run change
nothing, and what the update changes are the files that the dry run lists: as many as it
counts, if the paths of the targets are apart. -/
theorem commands_agree {docs : Text} {checkVerbose dryVerbose updateVerbose : Bool}
    {checkArgs dryArgs updateArgs : List Text}
    (hcheck : parse checkArgs =
      .ok ⟨root, checkVerbose, some (.check docs version showDiff format)⟩)
    (hdry : parse dryArgs = .ok ⟨root, dryVerbose, some (.update docs version true)⟩)
    (hupdate : parse updateArgs = .ok ⟨root, updateVerbose, some (.update docs version false)⟩)
    (store : Store) :
    let checked := run store checkArgs
    let planned := run store dryArgs
    let updated := run store updateArgs
    checked.store = store ∧ planned.store = store ∧
    ((∀ c, ¬ InContext store root ⟨docs⟩ version c) →
      checked.exit = 2 ∧ planned.exit = 2 ∧ updated.exit = 2 ∧ updated.store = store) ∧
    ∀ c, InContext store root ⟨docs⟩ version c →
      (∀ o ∈ [checked, planned, updated], o.exit = 0 ∨ o.exit = 1) ∧
      (planned.exit = 1 ↔ c.AllFail store) ∧ (updated.exit = 1 ↔ c.AllFail store) ∧
      (checked.exit = 1 ↔
        c.AllFail store ∨ ∃ loc, updated.store.node? loc ≠ store.node? loc) ∧
      (∃ files, Lists ⟨docs⟩ planned.output files ∧
        (∀ loc, updated.store.node? loc ≠ store.node? loc ↔
          ∃ f ∈ files, store.canonical? f = some loc) ∧
        (∀ f ∈ files, store.isFile f = true) ∧
        (c.PathsApart store → (files.map store.canonical?).Nodup)) ∧
      (format = .json → ∃ members, checked.output = (Json.object members).compact ++ ['\n'] ∧
        members.lookup "ok".toList = some (.bool (checked.exit == 0))) := by
  intro checked planned updated
  refine ⟨store_run_check hcheck, store_run_dry hdry, fun hnone => ?_, fun c hc => ?_⟩
  · obtain ⟨hexit, -⟩ := run_check_of_not_inContext hcheck hnone
    obtain ⟨hexit', -⟩ := run_update_of_not_inContext hdry hnone
    obtain ⟨hexit'', hstore⟩ := run_update_of_not_inContext hupdate hnone
    exact ⟨hexit, hexit', hexit'', hstore⟩
  obtain ⟨oc, hoc, -, hexit, hjson⟩ := runCheck_of_inContext showDiff format hc
  obtain ⟨od, hod, -, hlists, hexit'⟩ := runUpdate_dry_of_inContext dryVerbose hc
  obtain ⟨ou, hou, hw, hexit''⟩ := runUpdate_of_inContext updateVerbose hc
  have hchecked : checked = oc := run_of_ok hcheck hoc
  have hplanned : planned = od := run_of_ok hdry hod
  have hupdated : updated = ou := run_of_ok hupdate hou
  have hfailed : (check store c).allFailed = true ↔ c.AllFail store := allFailed_iff
  rw [hchecked, hplanned, hupdated, exists_change_iff hw]
  refine ⟨?_, ?_, ?_, ?_, ⟨_, hlists, fun loc => ?_, fun f hf => ?_, fun hapart => ?_⟩, hjson⟩
  · simp only [List.mem_cons, List.not_mem_nil, or_false, forall_eq_or_imp, forall_eq, hexit,
      hexit', hexit'']
    refine ⟨?_, ?_, ?_⟩ <;> split <;> simp
  · rw [hexit', ← allFailed_iff]
    split <;> simp [*]
  · rw [hexit'', ← allFailed_iff]
    split <;> simp [*]
  · -- a check passes in the cases in which neither happens
    have hpass : (check store c).stale = [] ∧ ¬ (check store c).allFailed = true ↔
        ¬ (c.AllFail store ∨ (check store c).stale ≠ []) := by
      rw [hfailed, not_or, not_not, and_comm]
    rw [hexit, ite_eq_right_iff, hpass]
    simp only [Nat.zero_ne_one, imp_false, not_not]
  · rw [writeUpdates_changes hw]
    simp only [List.mem_map, exists_exists_and_eq_and]
  · obtain ⟨g, hg, rfl⟩ := List.mem_map.mp hf
    exact isFile_of_mem_files hg
  · rw [List.map_map]
    exact nodup_canonical?_files hapart

/-! ## Checkouts without and with a document -/

namespace Sample

def agentDir : List Text :=
  ["content", "en", "docs", "zero-code", "java", "agent"].map String.toList

/-- The directory of the target documents, with some nodes in it. -/
def site (nodes : List (Location × Node)) : Store where
  home := []
  nodes := (agentDir.inits.tail.map fun loc => (loc, .directory)) ++ nodes

def directory : Path := Path.join ⟨['.']⟩ ({} : DocsSettings).agentDir

/-- The context of a site without settings. -/
def siteContext (modules : List Instrumentation) (version : Text) : DocsContext where
  directory
  settings := {}
  modules
  version

def libraries : Target :=
  ⟨"supported-libraries.md".toList, "supported-libraries".toList, .supportedLibraries⟩

def librariesPath : Path :=
  ⟨"./content/en/docs/zero-code/java/agent/supported-libraries.md".toList⟩

def disableList : Target := ⟨"disable.md".toList, "disable-list".toList, .disableList⟩

def disablePath : Path := ⟨"./content/en/docs/zero-code/java/agent/disable.md".toList⟩

def disableLocation : Location := agentDir ++ ["disable.md".toList]

def disableMarkers : MarkerPair :=
  MarkerStyle.markers {} "disable-list".toList ({} : DocsSettings).sourceId

/-- A document with a region for the disable list. -/
def page : Text := disableMarkers.opening ++ "none".toList ++ disableMarkers.closing

/-- The site with that document only. -/
def outdated : Store := site [(disableLocation, .file (Text.encode page))]

variable {modules : List Instrumentation} {label : Text} {nodes : List (Location × Node)}
  {loc : Location} {b : ByteArray}

theorem isDirectory_directory : (site nodes).isDirectory directory = true := by
  simp [directory, Store.isDirectory, Store.lookup?, Store.canonical?, Store.resolve,
    Path.isAbsolute, Store.follow, Store.node?, site, List.splitOn_cons_eq_if_modifyHead, Path.join,
    agentDir]

theorem file?_site : Settings.file? (site []) ⟨['.']⟩ = none ∧
    Settings.file? outdated ⟨['.']⟩ = none := by
  simp [Settings.file?, Settings.candidates, Store.isFile, Store.lookup?, Store.canonical?,
    Store.resolve, Path.isAbsolute, Store.follow, Store.node?, outdated, site, disableLocation,
    List.splitOn_cons_eq_if_modifyHead, Path.join, agentDir]

/-- Without a settings file the commands work with the default settings. -/
theorem exists_inContext (hfile : Settings.file? (site nodes) ⟨['.']⟩ = none) :
    ∃ modules label, InContext (site nodes) (some ['.']) ⟨['.']⟩ none
      (siteContext modules label) := by
  have hroot : (site nodes).isDirectory ⟨['.']⟩ = true :=
    Store.isDirectory_iff.mpr ⟨[], Store.canonical?_current Store.node?_nil, Store.node?_nil⟩
  have hsettings : Settings.loadOrDefault (site nodes) ⟨['.']⟩ = .ok {} := by
    simp only [Settings.loadOrDefault, Settings.load?, hfile]
    rfl
  have hrules : Module.excludeRules ⟨['.']⟩ [] = .ok ⟨⟨['.']⟩, []⟩ := rfl
  obtain ⟨modules, hmodules⟩ : ∃ modules, analyze (site nodes) ⟨['.']⟩ {} = .ok modules :=
    ⟨_, Instrumentation.analyze_eq (Module.discover_eq hroot hrules)⟩
  have hproject : project (site nodes) (some ['.']) = .ok ⟨⟨['.']⟩, {}, modules⟩ := by
    simp only [project, Option.getD_some, hsettings, hmodules, bind, Except.bind]
    rfl
  have hcontext : context (site nodes) ⟨⟨['.']⟩, {}, modules⟩ ⟨['.']⟩ none =
      .ok (siteContext modules (Version.detect (site nodes) ⟨['.']⟩)) := by
    show (if !(site nodes).isDirectory ⟨['.']⟩ then _
      else if !(site nodes).isDirectory directory then _ else _) = _
    rw [hroot, isDirectory_directory]
    rfl
  exact ⟨modules, _, _, hproject, hcontext⟩

theorem exists_inContext_bare : ∃ modules label,
    InContext (site []) (some ['.']) ⟨['.']⟩ none (siteContext modules label) :=
  exists_inContext file?_site.1

theorem exists_inContext_outdated : ∃ modules label,
    InContext outdated (some ['.']) ⟨['.']⟩ none (siteContext modules label) :=
  exists_inContext file?_site.2

theorem targets_siteContext :
    (siteContext modules label).settings.targets = [libraries, disableList] := rfl

theorem join_file : directory.join "supported-libraries.md".toList = librariesPath ∧
    directory.join "disable.md".toList = disablePath := by
  decide +kernel

theorem targetPath_libraries : (siteContext modules label).targetPath libraries = librariesPath :=
  join_file.1

theorem targetPath_disableList : (siteContext modules label).targetPath disableList = disablePath :=
  join_file.2

theorem targetPath_cases {t : Target} (ht : t ∈ (siteContext modules label).settings.targets) :
    (siteContext modules label).targetPath t = librariesPath ∨
      (siteContext modules label).targetPath t = disablePath := by
  rw [targets_siteContext, List.mem_cons, List.mem_singleton] at ht
  rcases ht with rfl | rfl
  · exact Or.inl targetPath_libraries
  · exact Or.inr targetPath_disableList

theorem text_librariesPath : librariesPath.text =
    "./content/en/docs/zero-code/java/agent/supported-libraries.md".toList := rfl

theorem text_disablePath :
    disablePath.text = "./content/en/docs/zero-code/java/agent/disable.md".toList := rfl

theorem canonical?_bare : (site []).canonical? librariesPath = none ∧
    (site []).canonical? disablePath = none := by
  simp [Store.canonical?, Store.resolve, Path.isAbsolute, Store.follow, Store.node?, site,
    List.splitOn_cons_eq_if_modifyHead, agentDir, text_librariesPath, text_disablePath]

/-- Where there are no documents every target fails. -/
theorem allFail_bare : (siteContext modules label).AllFail (site []) := by
  refine DocsContext.allFail_of_closed (List.cons_ne_nil _ _) fun t ht => ?_
  refine opens_eq_false (openDraft_eq_error_iff.mpr ⟨fun text hread => ?_, rfl⟩)
  obtain ⟨loc, hloc, -⟩ := Store.readText_eq_ok_iff.mp hread
  rcases targetPath_cases ht with hpath | hpath
  · rw [hpath, canonical?_bare.1] at hloc
    cases hloc
  · rw [hpath, canonical?_bare.2] at hloc
    cases hloc

theorem canonical?_outdated : outdated.canonical? librariesPath = none ∧
    outdated.canonical? disablePath = some disableLocation := by
  simp [Store.canonical?, Store.resolve, Path.isAbsolute, Store.follow, Store.node?, outdated, site,
    List.splitOn_cons_eq_if_modifyHead, agentDir, text_librariesPath, text_disablePath,
    disableLocation]

theorem node?_disable : outdated.node? disableLocation = some (.file (Text.encode page)) := by
  simp [Store.node?, outdated, site, agentDir, disableLocation]

theorem readText_disable : outdated.readText disablePath = .ok page := by
  refine Store.readText_eq_ok_iff.mpr ⟨_, canonical?_outdated.2, ?_⟩
  rw [Store.textAt?, node?_disable]
  exact Text.decode?_encode page

/-- There is no other file. -/
theorem eq_disableLocation (h : outdated.node? loc = some (.file b)) : loc = disableLocation := by
  rw [Store.node?] at h
  split at h
  · cases h
  · obtain ⟨e, he, hb⟩ := Option.map_eq_some_iff.mp h
    have hloc : e.1 = loc := by simpa using List.find?_some he
    rcases List.mem_append.mp (List.mem_of_find?_eq_some he) with hmem | hmem
    · obtain ⟨dir, -, rfl⟩ := List.mem_map.mp hmem
      cases hb
    · rw [← hloc, List.mem_singleton.mp hmem]

theorem pathsApart_outdated : (siteContext modules label).PathsApart outdated := by
  intro t ht u hu hfile hsame
  obtain ⟨loc, b, hloc, -⟩ := Store.isFile_iff.mp hfile
  obtain ⟨hlibraries, hdisable⟩ := canonical?_outdated
  rcases targetPath_cases ht with hpath | hpath
  · rw [hpath, hlibraries] at hloc
    cases hloc
  · rcases targetPath_cases hu with hpath' | hpath'
    · rw [hpath, hpath', hlibraries, hdisable] at hsame
      cases hsame
    · rw [hpath, hpath']
      exact sameDocument_iff.mpr rfl

theorem appliedTo_outdated : (siteContext modules label).appliedTo outdated
    (siteContext modules label).settings.targets disablePath = [disableList] := by
  have hother : ¬ sameDocument librariesPath disablePath = true := by decide +kernel
  have htargets : (siteContext modules label).targetsOf [libraries, disableList] disablePath =
      [disableList] := by
    rw [DocsContext.targetsOf_cons_of_neg (by rwa [targetPath_libraries]),
      DocsContext.targetsOf_cons_of_pos (by rw [targetPath_disableList, sameDocument_iff])]
    rfl
  rw [DocsContext.appliedTo, targets_siteContext, htargets]
  refine List.dropWhile_cons_of_neg ?_
  rw [opens_iff.mpr ⟨page, readText_disable⟩]
  decide

/-- What the region holds is not on lines of its own, as any disable list would be. -/
theorem not_upToDate_outdated : ¬ (siteContext modules label).UpToDate outdated := by
  intro h
  have hfilled := h disableList (by rw [targets_siteContext]; simp) page
    (by rw [targetPath_disableList, readText_disable])
  rw [targetPath_disableList, DocsContext.filled, appliedTo_outdated] at hfilled
  have hput : disableMarkers.put ((siteContext modules label).fragment disableList) page = page :=
    hfilled
  have hbody : disableMarkers.body? page = some "none".toList := by decide +kernel
  have hlined := put_eq_self_iff.mp hput _ hbody
  exact absurd (List.cons.inj hlined).1 (by decide)

theorem not_allFail_outdated : ¬ (siteContext modules label).AllFail outdated := fun h =>
  not_upToDate_outdated (files_eq_nil_iff_upToDate.mp (files_of_allFailed (allFailed_iff.mpr h)))

/-- A check of the site, a dry run of its update, and the update. -/
def checkArgs : List Text :=
  ["-p", ".", "check", "--docs", ".", "--format", "json"].map String.toList

def dryArgs : List Text := ["-p", ".", "update", "--docs", ".", "--dry-run"].map String.toList

def updateArgs : List Text := ["-p", ".", "update", "--docs", "."].map String.toList

theorem parse_checkArgs :
    parse checkArgs = .ok ⟨some ['.'], false, some (.check ['.'] none false .json)⟩ := rfl

theorem parse_dryArgs :
    parse dryArgs = .ok ⟨some ['.'], false, some (.update ['.'] none true)⟩ := rfl

theorem parse_updateArgs :
    parse updateArgs = .ok ⟨some ['.'], false, some (.update ['.'] none false)⟩ := rfl

/-- The check does not pass. -/
theorem exit_check_outdated : (run outdated checkArgs).exit = 1 := by
  obtain ⟨modules, label, hc⟩ := exists_inContext_outdated
  obtain ⟨o, ho, -, hexit, -⟩ := runCheck_of_inContext false .json hc
  have hstale : ¬ (check outdated (siteContext modules label)).stale = [] :=
    mt stale_eq_nil_iff_upToDate.mp not_upToDate_outdated
  rw [run_of_ok parse_checkArgs ho, hexit, if_neg fun h => hstale h.1]

/-- Paths of different files of the site are one path at most. -/
theorem eq_singleton_of_nodup {files : List Path} {f : Path} (hf : f ∈ files)
    (hfile : ∀ g ∈ files, outdated.isFile g = true)
    (hnodup : (files.map outdated.canonical?).Nodup) :
    files = [f] ∧ outdated.canonical? f = some disableLocation := by
  have hsame : ∀ g ∈ files, outdated.canonical? g = some disableLocation := by
    intro g hg
    obtain ⟨loc, b, hloc, hb⟩ := Store.isFile_iff.mp (hfile g hg)
    rw [hloc, eq_disableLocation hb]
  rw [List.map_eq_replicate_iff.mpr hsame, List.nodup_replicate] at hnodup
  obtain ⟨g, rfl⟩ := List.length_eq_one_iff.mp (Nat.le_antisymm hnodup (List.length_pos_of_mem hf))
  rw [List.mem_singleton.mp hf]
  exact ⟨rfl, hsame g List.mem_cons_self⟩

end Sample

open CommandLine.Sample in
/-- Where there are no documents the three runs fail. Where one is out of date only the check does:
the dry run lists the document, and the update changes its file and no other. -/
theorem commands_agree_sample :
    (∀ args ∈ [checkArgs, dryArgs, updateArgs], (run (site []) args).exit = 1) ∧
    (run outdated checkArgs).exit = 1 ∧ (run outdated dryArgs).exit = 0 ∧
    (run outdated updateArgs).exit = 0 ∧
    (∃ f, Lists ⟨['.']⟩ (run outdated dryArgs).output [f] ∧
      outdated.canonical? f = some disableLocation) ∧
    (∀ loc, (run outdated updateArgs).store.node? loc ≠ outdated.node? loc ↔
      loc = disableLocation) ∧
    ∃ members, (run outdated checkArgs).output = (Json.object members).compact ++ ['\n'] ∧
      members.lookup "ok".toList = some (.bool false) := by
  have hagree := commands_agree parse_checkArgs parse_dryArgs parse_updateArgs
  refine ⟨?_, ?_⟩
  · obtain ⟨modules, label, hc⟩ := exists_inContext_bare
    obtain ⟨-, -, -, hruns⟩ := hagree (site [])
    obtain ⟨-, hplanned, hupdated, hchecked, -⟩ := hruns _ hc
    simp only [List.mem_cons, List.not_mem_nil, or_false, forall_eq_or_imp, forall_eq]
    exact ⟨hchecked.mpr (.inl allFail_bare), hplanned.mpr allFail_bare, hupdated.mpr allFail_bare⟩
  · obtain ⟨modules, label, hc⟩ := exists_inContext_outdated
    obtain ⟨-, -, -, hruns⟩ := hagree outdated
    obtain ⟨hexits, hplanned, hupdated, hchecked, ⟨files, hlists, hchange, hfile, hnodup⟩, hjson⟩ :=
      hruns _ hc
    simp only [List.mem_cons, List.not_mem_nil, or_false, forall_eq_or_imp, forall_eq] at hexits
    obtain ⟨-, hexit, hexit'⟩ := hexits
    -- the check fails, but not since every target does, so the update changes a file
    obtain ⟨loc, hloc⟩ := (hchecked.mp exit_check_outdated).resolve_left not_allFail_outdated
    obtain ⟨f, hf, -⟩ := (hchange loc).mp hloc
    obtain ⟨rfl, hcanonical⟩ := eq_singleton_of_nodup hf hfile (hnodup pathsApart_outdated)
    refine ⟨exit_check_outdated, hexit.resolve_right (mt hplanned.mp not_allFail_outdated),
      hexit'.resolve_right (mt hupdated.mp not_allFail_outdated), ⟨f, hlists, hcanonical⟩,
      fun loc => ?_, ?_⟩
    · rw [hchange]
      simp only [List.mem_singleton, exists_eq_left, hcanonical, Option.some.injEq]
      exact eq_comm
    · obtain ⟨members, houtput, hok⟩ := hjson rfl
      rw [exit_check_outdated] at hok
      exact ⟨members, houtput, hok⟩

end CommandLine

end ModuleDocs

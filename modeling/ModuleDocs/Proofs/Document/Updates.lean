import ModuleDocs.Proofs.Document.Outcome
import ModuleDocs.Proofs.Store.Spelling

/-!
# The documents of an update

An update holds the documents whose draft differs from the store, and a draft is
the stored text with every applied target put into it: what the update writes is
`filled` (`mem_files_iff`, `exists_mem_files`). Writing it goes over files only, so it
succeeds, and every path still denotes what it did (`writeUpdates_spec`).

`Tidy` is what keeps the targets of one document out of each other's way. It is
asked of the text in the store; the runs over regions then see to the rest.
-/

namespace ModuleDocs

open Reconciliation

namespace DocsContext

/-- Targets that do not get in each other's way in a document: every marker is one
line, regions of different components lie apart, and no fragment holds a marker. -/
structure Tidy (c : DocsContext) (ts : List Target) (document : Text) : Prop where
  oneLine : ∀ t ∈ ts, (c.markers t).OneLine
  apart : ∀ t ∈ ts, ∀ u ∈ ts, t.component ≠ u.component → ∀ r q,
    Region.find? (c.markers t) document = some r → Region.find? (c.markers u) document = some q →
      Region.Apart (c.markers t) r (c.markers u) q
  clean : ∀ t ∈ ts, ∀ u ∈ ts, ¬ (c.markers u).OccursIn (c.fragment t)

/-- Every document of the store is tidy for its targets. -/
def TidyIn (store : Store) (c : DocsContext) : Prop :=
  ∀ v ∈ c.settings.targets, ∀ d, store.readText (c.targetPath v) = .ok d →
    c.Tidy (c.targetsOf c.settings.targets (c.targetPath v)) d

/-- A document's text with every applied target put into it. -/
def filled (store : Store) (c : DocsContext) (p : Path) (document : Text) : Text :=
  putAll (c.jobs (c.appliedTo store c.settings.targets p)) document

/-- The last target of a list that names a component. -/
def lastNaming (ts : List Target) (component : Text) : Option Target :=
  ts.reverse.find? fun t => t.component = component

variable {store : Store} {c : DocsContext} {ts us : List Target} {t : Target} {d : Text}
  {p q : Path}

theorem Tidy.proper (h : c.Tidy ts d) : Proper (ts.map c.markers) := by
  intro m hm
  obtain ⟨t, ht, rfl⟩ := List.mem_map.mp hm
  exact ⟨MarkerStyle.markers_solid _ _ _, h.oneLine t ht⟩

theorem Tidy.settled (h : c.Tidy ts d) : Settled (ts.map c.markers) d := by
  intro m hm n hn hne r q hr hq
  obtain ⟨t, ht, rfl⟩ := List.mem_map.mp hm
  obtain ⟨u, hu, rfl⟩ := List.mem_map.mp hn
  refine h.apart t ht u hu (fun heq => hne ?_) r q hr hq
  rw [markers, markers, heq]

theorem Tidy.harmless (h : c.Tidy ts d) (hus : us ⊆ ts) :
    ∀ j ∈ c.jobs us, Harmless (ts.map c.markers) j := by
  intro j hj
  obtain ⟨t, ht, rfl⟩ := List.mem_map.mp hj
  refine ⟨List.mem_map_of_mem (hus ht), fun m hm => ?_⟩
  obtain ⟨u, hu, rfl⟩ := List.mem_map.mp hm
  exact h.clean t (hus ht) u hu

/-- A run of updates keeps a document tidy. -/
theorem Tidy.after_putAll (h : c.Tidy ts d) (hus : us ⊆ ts) :
    c.Tidy ts (putAll (c.jobs us) d) := by
  refine ⟨h.oneLine, fun t ht u hu hne r q hr hq => ?_, h.clean⟩
  have hsettled := settled_putAll h.proper h.settled (h.harmless hus)
  have hmarkers : c.markers t ≠ c.markers u := fun heq => hne (MarkerStyle.markers_inj.mp heq)
  exact hsettled _ (List.mem_map_of_mem ht) _ (List.mem_map_of_mem hu) hmarkers r q hr hq

/-- A run of updates makes no region and loses none. -/
theorem Tidy.body_isSome (h : c.Tidy ts d) (hus : us ⊆ ts) (ht : t ∈ ts) :
    ((c.markers t).body? (putAll (c.jobs us) d)).isSome = ((c.markers t).body? d).isSome :=
  body_putAll_isSome h.proper h.settled (h.harmless hus) (List.mem_map_of_mem ht)

/-- The last content meant for a region is the fragment of the last target that
names its component. -/
theorem lastFor_jobs :
    lastFor (c.markers t) (c.jobs us) = (lastNaming us t.component).map c.fragment := by
  have hkey : (fun j : MarkerPair × Text => decide (j.1 = c.markers t)) ∘
      (fun u => (c.markers u, c.fragment u)) = fun u => decide (u.component = t.component) := by
    funext u
    simp only [Function.comp, markers, MarkerStyle.markers_inj]
  rw [lastFor, lastNaming, jobs, ← List.map_reverse, List.find?_map, hkey, Option.map_map]
  rfl

theorem mem_of_lastNaming {component : Text} (h : lastNaming ts component = some t) :
    t ∈ ts ∧ t.component = component :=
  ⟨List.mem_reverse.mp (List.mem_of_find?_eq_some h), by simpa using List.find?_some h⟩

theorem lastNaming_eq_none_iff {component : Text} :
    lastNaming ts component = none ↔ ∀ t ∈ ts, t.component ≠ component := by
  simp [lastNaming]

theorem lastNaming_append {component : Text} : lastNaming (us ++ ts) component =
    (lastNaming ts component).or (lastNaming us component) := by
  rw [lastNaming, List.reverse_append, List.find?_append]
  rfl

/-- The last target naming a component, among those at the end of a list. -/
theorem lastNaming_of_suffix {component : Text} (h : us <:+ ts)
    (hlast : lastNaming ts component = some t) :
    lastNaming us component = if t ∈ us then some t else none := by
  obtain ⟨pre, rfl⟩ := h
  rw [lastNaming_append] at hlast
  cases hus : lastNaming us component with
  | some u =>
    rw [hus] at hlast
    cases hlast
    rw [if_pos (mem_of_lastNaming hus).1]
  | none =>
    rw [hus, Option.none_or] at hlast
    rw [if_neg]
    intro ht
    exact lastNaming_eq_none_iff.mp hus t ht (mem_of_lastNaming hlast).2

/-- What the regions of a filled document hold. -/
theorem body_filled (h : c.Tidy ts d) (happ : c.appliedTo store c.settings.targets p ⊆ ts)
    (ht : t ∈ ts) : (c.markers t).body? (c.filled store p d) =
      ((c.markers t).body? d).map fun b =>
        match lastNaming (c.appliedTo store c.settings.targets p) t.component with
        | some u => lined (c.fragment u)
        | none => b := by
  rw [filled, body_putAll h.proper h.settled (h.harmless happ) (List.mem_map_of_mem ht),
    lastFor_jobs]
  cases lastNaming (c.appliedTo store c.settings.targets p) t.component <;> rfl

theorem filled_congr (h : p.components = q.components) :
    c.filled store p d = c.filled store q d := by
  rw [filled, filled, appliedTo_congr h]

end DocsContext

variable {store after : Store} {c : DocsContext} {v : Target} {f : Path × Text} {d : Draft}
  {p : Path} {text : Text}

/-! ## What is written -/

/-- No two written documents are one document. -/
theorem nodup_files (store : Store) (c : DocsContext) :
    ((computeUpdates store c).files.map (·.1.components)).Nodup := by
  show (((reconcile store c).stale.map fun d => (d.path, d.current)).map _).Nodup
  rw [List.map_map]
  exact separate_stale separate_run

/-- **What an update writes**: filled documents that differ from the store. -/
theorem mem_files_iff : f ∈ (computeUpdates store c).files ↔
    ∃ t rest stored, c.appliedTo store c.settings.targets f.1 = t :: rest ∧
      c.targetPath t = f.1 ∧ store.readText f.1 = .ok stored ∧
      f.2 = c.filled store f.1 stored ∧ f.2 ≠ stored := by
  -- a draft is found by its path, as no two are of one document
  have hseparate : Separate (reconcile store c).drafts := separate_run
  show f ∈ (reconcile store c).stale.map (fun d => (d.path, d.current)) ↔ _
  simp only [List.mem_map, mem_stale_iff hseparate, isStale_iff]
  constructor
  · intro h
    obtain ⟨d, ⟨hat, hne⟩, rfl⟩ := h
    obtain ⟨t, rest, happ, hpath, hread, hcur⟩ := draftAt_run hat
    refine ⟨t, rest, d.stored, happ, hpath.symm, hread, ?_, hne⟩
    rw [DocsContext.filled, happ]
    exact hcur
  · intro h
    obtain ⟨t, rest, stored, happ, hpath, hread, hcur, hne⟩ := h
    obtain ⟨d, hd⟩ := Option.isSome_iff_exists.mp
      (draftAt_run_isSome.mpr (by rw [happ]; simp : c.appliedTo store c.settings.targets f.1 ≠ []))
    obtain ⟨t', rest', happ', hpath', hread', hcur'⟩ := draftAt_run hd
    rw [happ] at happ'
    cases happ'
    rw [hpath] at hpath'
    rw [hpath', hread] at hread'
    cases hread'
    rw [DocsContext.filled, happ] at hcur
    have hcur' : d.current = f.2 := hcur'.trans hcur.symm
    have hat : (reconcile store c).draftAt d.path = some d := by
      rw [hpath']
      exact hd
    exact ⟨d, ⟨hat, by rwa [hcur']⟩, by rw [hpath', hcur']⟩

/-- **A target whose document can be read** finds a draft of it, made from the text that
it reads. -/
theorem exists_draftAt (hv : v ∈ c.settings.targets)
    (hread : store.readText (c.targetPath v) = .ok text) :
    ∃ d, (reconcile store c).draftAt (c.targetPath v) = some d ∧ d.stored = text := by
  have hopen : c.appliedTo store c.settings.targets (c.targetPath v) ≠ [] := by
    intro hnil
    have hmem : v ∈ c.targetsOf c.settings.targets (c.targetPath v) :=
      DocsContext.mem_targetsOf.mpr ⟨hv, sameDocument_iff.mpr rfl⟩
    have hclosed := DocsContext.appliedTo_eq_nil_iff.mp hnil v hmem
    rw [opens_iff.mpr ⟨text, hread⟩] at hclosed
    cases hclosed
  obtain ⟨d, hd⟩ := Option.isSome_iff_exists.mp (draftAt_run_isSome.mpr hopen)
  have hcomp : d.path.components = (c.targetPath v).components :=
    sameDocument_iff.mp (path_of_draftAt hd)
  obtain ⟨_, _, _, _, hstored, _⟩ := draftAt_run hd
  exact ⟨d, hd, Store.readText_unique hcomp hstored hread⟩

/-- A document that is not filled is written under one of its spellings. -/
theorem exists_mem_files (hv : v ∈ c.settings.targets)
    (hread : store.readText (c.targetPath v) = .ok text)
    (hne : c.filled store (c.targetPath v) text ≠ text) :
    ∃ f ∈ (computeUpdates store c).files, f.1.components = (c.targetPath v).components ∧
      store.readText f.1 = .ok text ∧ f.2 = c.filled store (c.targetPath v) text := by
  obtain ⟨d, hd, rfl⟩ := exists_draftAt hv hread
  have hcomp : d.path.components = (c.targetPath v).components :=
    sameDocument_iff.mp (path_of_draftAt hd)
  obtain ⟨t, rest, happ, hpath, hstored, _⟩ := draftAt_run hd
  refine ⟨(d.path, c.filled store (c.targetPath v) d.stored),
    mem_files_iff.mpr ⟨t, rest, d.stored, ?_⟩, hcomp, hstored, rfl⟩
  exact ⟨(DocsContext.appliedTo_congr hcomp).trans happ, hpath.symm, hstored,
    (DocsContext.filled_congr hcomp).symm, hne⟩

/-- A document that is written has a target. -/
theorem exists_target_of_mem_files (hf : f ∈ (computeUpdates store c).files) :
    ∃ t ∈ c.settings.targets, c.targetPath t = f.1 := by
  obtain ⟨t, rest, _, happ, hpath, _⟩ := mem_files_iff.mp hf
  have ht : t ∈ c.appliedTo store c.settings.targets f.1 := by rw [happ]; simp
  exact ⟨t, (DocsContext.mem_of_appliedTo ht).1, hpath⟩

/-! ## Writing it -/

/-- A document that is written is a file, and holds something else so far. -/
theorem exists_stored_of_mem_files (hf : f ∈ (computeUpdates store c).files) :
    ∃ loc stored, store.canonical? f.1 = some loc ∧ store.textAt? loc = some stored ∧
      f.2 = c.filled store f.1 stored ∧ f.2 ≠ stored := by
  obtain ⟨_, _, stored, _, _, hread, hfilled, hne⟩ := mem_files_iff.mp hf
  obtain ⟨loc, hloc, ht⟩ := Store.readText_eq_ok_iff.mp hread
  exact ⟨loc, stored, hloc, ht, hfilled, hne⟩

/-- The documents of an update are there before it. -/
theorem isFile_of_mem_files (hf : f ∈ (computeUpdates store c).files) :
    store.isFile f.1 = true := by
  obtain ⟨loc, stored, hloc, ht, -⟩ := exists_stored_of_mem_files hf
  obtain ⟨b, hb⟩ := Store.textAt?_some_file ht
  exact Store.isFile_iff.mpr ⟨loc, b, hloc, hb⟩

/-- Writing an update succeeds, and a location holds what is written to it last. -/
theorem exists_writeUpdates (store : Store) (c : DocsContext) :
    ∃ after, writeUpdates store (computeUpdates store c) = .ok after ∧
      Store.SameLayout store after ∧ ∀ loc, after.node? loc =
        match Store.lastWritten store loc (computeUpdates store c).files with
        | some f => some (.file (Text.encode f.2))
        | none => store.node? loc := by
  obtain ⟨after, hafter, hlay, hnode⟩ := Store.overwrite_spec fun _ hf => isFile_of_mem_files hf
  exact ⟨after, by rw [writeUpdates, hafter]; rfl, hlay, hnode⟩

/-- **Writing an update** succeeds and leaves every path where it led. A file that is
written to holds its text with the targets of one document put into it: of the
document that is written to it last. -/
theorem writeUpdates_spec (store : Store) (c : DocsContext) :
    ∃ after, writeUpdates store (computeUpdates store c) = .ok after ∧
      Store.SameLayout store after ∧ ∀ loc, after.textAt? loc =
        (store.textAt? loc).map fun stored =>
          match Store.lastWritten store loc (computeUpdates store c).files with
          | some f => c.filled store f.1 stored
          | none => stored := by
  obtain ⟨after, hafter, hlay, hnode⟩ := exists_writeUpdates store c
  refine ⟨after, hafter, hlay, fun loc => ?_⟩
  cases hlast : Store.lastWritten store loc (computeUpdates store c).files with
  | some f =>
    obtain ⟨hf, hfloc⟩ := Store.mem_of_lastWritten hlast
    obtain ⟨loc', stored, hloc', ht, hfilled, _⟩ := exists_stored_of_mem_files hf
    rw [hfloc] at hloc'
    cases hloc'
    -- what is written was made from the text that was read at this place
    have hnode : after.node? loc = some (.file (Text.encode f.2)) := by rw [hnode loc, hlast]
    rw [Store.textAt?, hnode, ht]
    show Text.decode? (Text.encode f.2) = some (c.filled store f.1 stored)
    rw [Text.decode?_encode, hfilled]
  | none =>
    have hnode : after.node? loc = store.node? loc := by rw [hnode loc, hlast]
    rw [Store.textAt?, hnode, ← Store.textAt?]
    exact Option.map_id'.symm

/-! ## A checkout with one document -/

namespace Sample

/-- The sample document as `d/a`, beside a directory `d/x`. -/
def checkout : Store where
  home := []
  nodes := [(["d".toList], .directory), (["d".toList, "a".toList], .file (Text.encode document)),
    (["d".toList, "x".toList], .directory)]

def context (targets : List Target) : DocsContext where
  directory := ⟨"d".toList⟩
  settings := { sourceId := "s".toList, agentDir := "d".toList, targets }
  modules := []
  version := "v1".toList

/-- A target of the region of a component. -/
def target (file component : Text) : Target := ⟨file, component, .appServers⟩

@[simp] theorem markers_target {targets : List Target} {file component : Text} :
    (context targets).markers (target file component) = markers component := rfl

@[simp] theorem fragment_target {targets : List Target} {file component : Text} :
    (context targets).fragment (target file component) = Fragment.noServers := rfl

variable {ts targets : List Target} {loc : Location}

theorem canonical?_spellings :
    checkout.canonical? ⟨"d/a".toList⟩ = some ["d".toList, "a".toList] ∧
    checkout.canonical? ⟨"d/x/../a".toList⟩ = some ["d".toList, "a".toList] ∧
    checkout.canonical? ⟨"d/a/".toList⟩ = none := by
  simp [Store.canonical?, Store.resolve, Path.isAbsolute, Store.follow, Store.node?, checkout,
    List.splitOn_cons_eq_if_modifyHead]

theorem textAt?_document : checkout.textAt? ["d".toList, "a".toList] = some document :=
  Text.decode?_encode document

theorem readText_document : checkout.readText ⟨"d/a".toList⟩ = .ok document :=
  Store.readText_eq_ok_iff.mpr ⟨_, canonical?_spellings.1, textAt?_document⟩

/-- A file has nothing below it. -/
theorem exists_openDraft_error : ∃ e, openDraft checkout ⟨"d/a/".toList⟩ = .error e := by
  refine ⟨_, openDraft_eq_error_iff.mpr ⟨fun text h => ?_, rfl⟩⟩
  obtain ⟨loc, hloc, _⟩ := Store.readText_eq_ok_iff.mp h
  exact absurd (hloc.symm.trans canonical?_spellings.2.2) (by simp)

/-- There is no other file. -/
theorem eq_document (h : checkout.textAt? loc = some text) : text = document := by
  rw [Store.textAt?, Store.node?] at h
  split at h
  · next b hb =>
    split at hb
    · cases hb
    · obtain ⟨e, he, hb⟩ := Option.map_eq_some_iff.mp hb
      have hmem := List.mem_of_find?_eq_some he
      simp only [checkout, List.mem_cons, List.not_mem_nil, or_false] at hmem
      rcases hmem with rfl | rfl | rfl
      · cases hb
      · rw [← Node.file.inj hb, Text.decode?_encode] at h
        exact (Option.some.inj h).symm
      · cases hb
  · cases h

/-- The sample document is tidy for the targets of its two regions. -/
theorem tidy (h : ∀ t ∈ ts, ∃ file, t = target file "a".toList ∨ t = target file "b".toList) :
    (context targets).Tidy ts document := by
  have hclean : ∀ m, m = markers "a".toList ∨ m = markers "b".toList →
      ¬ m.OccursIn Fragment.noServers := by
    intro m hm
    rcases hm with rfl | rfl
    · unfold MarkerPair.OccursIn
      decide
    · unfold MarkerPair.OccursIn
      decide
  constructor
  · intro t ht
    obtain ⟨file, rfl | rfl⟩ := h t ht
    · exact markers_oneLine.1
    · exact markers_oneLine.2
  · intro t ht u hu hne r q hr hq
    obtain ⟨file, rfl | rfl⟩ := h t ht <;> obtain ⟨file', rfl | rfl⟩ := h u hu
    · exact absurd rfl hne
    · cases Option.some.inj (find?_regionA.symm.trans hr)
      cases Option.some.inj (find?_regionB.symm.trans hq)
      exact apart_regions
    · cases Option.some.inj (find?_regionB.symm.trans hr)
      cases Option.some.inj (find?_regionA.symm.trans hq)
      exact apart_regions.symm
    · exact absurd rfl hne
  · intro t ht u hu
    have hfrag : (context targets).fragment t = Fragment.noServers := by
      obtain ⟨file, rfl | rfl⟩ := h t ht <;> rfl
    rw [hfrag]
    obtain ⟨file, rfl | rfl⟩ := h u hu
    · exact hclean _ (Or.inl rfl)
    · exact hclean _ (Or.inr rfl)

theorem tidyIn
    (h : ∀ t ∈ targets, ∃ file, t = target file "a".toList ∨ t = target file "b".toList) :
    (context targets).TidyIn checkout := by
  intro v _ d hread
  obtain ⟨loc, _, ht⟩ := Store.readText_eq_ok_iff.mp hread
  rw [eq_document ht]
  exact tidy fun t ht => h t (DocsContext.mem_targetsOf.mp ht).1

end Sample

end ModuleDocs

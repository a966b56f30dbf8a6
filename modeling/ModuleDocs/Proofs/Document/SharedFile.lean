import Mathlib.Data.List.Nodup
import ModuleDocs.Proofs.Document.Segments
import ModuleDocs.Proofs.Document.Updates

/-!
# Documents that are one file

Drafts are told apart by their paths, files by where the paths lead. Two paths may
lead to one file, through a link or over `..`; then it is read into two drafts,
each gets the targets of its own path, and both are written. The later write
leaves the regions of the other draft as they were in the store.

So with one component for each target, no update is lost exactly when no two
written documents are one file (`updates_kept_iff`).
-/

namespace ModuleDocs

open Reconciliation

namespace DocsContext

/-- The targets whose document is the file at a location. A spelling that denotes
nothing counts with the others of its path. -/
def reaching (store : Store) (c : DocsContext) (loc : Location) : List Target :=
  c.settings.targets.filter fun t => c.settings.targets.any fun v =>
    sameDocument (c.targetPath v) (c.targetPath t) && store.canonical? (c.targetPath v) == some loc

/-- Every file of the store is tidy for the targets that reach it. -/
def TidyFiles (store : Store) (c : DocsContext) : Prop :=
  ∀ loc text, store.textAt? loc = some text → c.Tidy (c.reaching store loc) text

/-- A failure of an update names the target. -/
def Reported (store : Store) (c : DocsContext) (t : Target) : Prop :=
  ∃ f ∈ (computeUpdates store c).failures, f.file = c.targetPath t ∧ f.component = t.component

/-- The file that a target reaches holds its fragment in its region. -/
def Kept (store : Store) (c : DocsContext) (t : Target) : Prop :=
  ∃ loc text, t ∈ c.reaching store loc ∧ store.textAt? loc = some text ∧
    (c.markers t).body? text = some (lined (c.fragment t))

/-- A target is applied to the document of a target path that leads to a file with
its region. -/
structure Lands (store : Store) (c : DocsContext) (t v : Target) (loc : Location)
    (stored : Text) : Prop where
  mem : v ∈ c.settings.targets
  leads : store.canonical? (c.targetPath v) = some loc
  text : store.textAt? loc = some stored
  applied : t ∈ c.appliedTo store c.settings.targets (c.targetPath v)
  region : ((c.markers t).body? stored).isSome

variable {store after : Store} {c : DocsContext} {t v : Target} {us ts : List Target}
  {loc loc' : Location} {stored : Text}

theorem mem_reaching : t ∈ c.reaching store loc ↔ t ∈ c.settings.targets ∧
    ∃ v ∈ c.settings.targets, sameDocument (c.targetPath v) (c.targetPath t) = true ∧
      store.canonical? (c.targetPath v) = some loc := by
  simp [reaching]

/-- A target reaches one file at most. -/
theorem reaching_unique (h : t ∈ c.reaching store loc) (h' : t ∈ c.reaching store loc') :
    loc = loc' := by
  obtain ⟨_, v, _, hsame, hloc⟩ := mem_reaching.mp h
  obtain ⟨_, v', _, hsame', hloc'⟩ := mem_reaching.mp h'
  rw [sameDocument_iff] at hsame hsame'
  exact Store.canonical?_unique (hsame.trans hsame'.symm) hloc hloc'

theorem reaching_eq (h : Store.SameLayout store after) :
    c.reaching after loc = c.reaching store loc := by
  simp only [reaching, Store.canonical?_eq h]

/-- The targets of a path that leads to a file reach that file. -/
theorem targetsOf_subset_reaching (hv : v ∈ c.settings.targets)
    (hloc : store.canonical? (c.targetPath v) = some loc) :
    c.targetsOf c.settings.targets (c.targetPath v) ⊆ c.reaching store loc := by
  intro t ht
  obtain ⟨ht, hsame⟩ := mem_targetsOf.mp ht
  rw [sameDocument_iff] at hsame
  exact mem_reaching.mpr ⟨ht, v, hv, sameDocument_iff.mpr hsame.symm, hloc⟩

theorem Lands.reaches (h : c.Lands store t v loc stored) : t ∈ c.reaching store loc :=
  targetsOf_subset_reaching h.mem h.leads (appliedTo_subset h.applied)

/-- With one component for each target, the last target that names a component is
the only one. -/
theorem lastNaming_of_nodup (hnodup : (ts.map Target.component).Nodup) (hus : us ⊆ ts)
    (ht : t ∈ ts) : lastNaming us t.component = if t ∈ us then some t else none := by
  cases hlast : lastNaming us t.component with
  | some u =>
    obtain ⟨hu, hcomp⟩ := mem_of_lastNaming hlast
    have hut : u = t := List.inj_on_of_nodup_map hnodup (hus hu) ht hcomp
    rw [← hut, if_pos hu]
  | none =>
    rw [if_neg]
    intro hu
    exact lastNaming_eq_none_iff.mp hlast t hu rfl

end DocsContext

open DocsContext

variable {store after : Store} {c : DocsContext} {t v : Target} {f g : Path × Text}
  {loc : Location} {p : Path} {stored : Text}

/-- A written document, as the file it is. -/
theorem exists_location (hf : f ∈ (computeUpdates store c).files) :
    ∃ v ∈ c.settings.targets, c.targetPath v = f.1 ∧ ∃ loc stored,
      store.canonical? (c.targetPath v) = some loc ∧ store.textAt? loc = some stored ∧
      f.2 = c.filled store (c.targetPath v) stored ∧ f.2 ≠ stored := by
  obtain ⟨v, hv, hpath⟩ := exists_target_of_mem_files hf
  obtain ⟨_, _, stored, _, _, hread, hfilled, hne⟩ := mem_files_iff.mp hf
  obtain ⟨loc, hloc, htext⟩ := Store.readText_eq_ok_iff.mp hread
  rw [← hpath] at hloc hfilled
  exact ⟨v, hv, hpath, loc, stored, hloc, htext, hfilled, hne⟩

/-- At a target's turn its region is in the draft exactly when it is in the file. -/
theorem exists_lands_of_draft {us vs : List Target} {d : Draft} (htidy : c.TidyFiles store)
    (hts : c.settings.targets = us ++ t :: vs)
    (hd : draft store (us.foldl (apply store c) {}) (c.targetPath t) = .ok d) :
    ∃ v ∈ c.settings.targets, ∃ loc, store.canonical? (c.targetPath v) = some loc ∧
      store.textAt? loc = some d.stored ∧
      t ∈ c.appliedTo store c.settings.targets (c.targetPath v) ∧
      ((c.markers t).body? d.current).isSome = ((c.markers t).body? d.stored).isSome := by
  obtain ⟨v, hv, hsame, hread, hcur⟩ := draft_run_ok hd
  have hv : v ∈ c.settings.targets := by
    rw [hts, ← List.singleton_append, ← List.append_assoc]
    exact List.mem_append_left _ hv
  obtain ⟨loc, hloc, htext⟩ := Store.readText_eq_ok_iff.mp hread
  have hcomp := sameDocument_iff.mp hsame
  have happ : t ∈ c.appliedTo store c.settings.targets (c.targetPath v) := by
    have hself := mem_appliedTo_of_draft vs hd
    rwa [← hts, ← appliedTo_congr hcomp] at hself
  have hreach := targetsOf_subset_reaching hv hloc
  rw [targetsOf_congr hcomp] at hreach
  have hus : c.appliedTo store us (c.targetPath t) ⊆ c.reaching store loc := by
    intro u hu
    obtain ⟨hu, hsame'⟩ := mem_of_appliedTo hu
    exact hreach (mem_targetsOf.mpr ⟨by rw [hts]; simp [hu], hsame'⟩)
  have ht : t ∈ c.reaching store loc :=
    hreach (mem_targetsOf.mpr ⟨by rw [hts]; simp, sameDocument_iff.mpr rfl⟩)
  refine ⟨v, hv, loc, hloc, htext, happ, ?_⟩
  rw [hcur, (htidy loc d.stored htext).body_isSome hus ht]

section SharedFile

variable (hnodup : (c.settings.targets.map Target.component).Nodup) (htidy : c.TidyFiles store)

include hnodup htidy

/-! ## Drafts of a shared file -/

/-- What a draft of a shared file holds in any region of the file. -/
theorem body_filled_of_reaching (htext : store.textAt? loc = some stored)
    (hv : v ∈ c.settings.targets) (hloc : store.canonical? (c.targetPath v) = some loc)
    (ht : t ∈ c.reaching store loc) :
    (c.markers t).body? (c.filled store (c.targetPath v) stored) =
      ((c.markers t).body? stored).map fun b =>
        if t ∈ c.appliedTo store c.settings.targets (c.targetPath v) then lined (c.fragment t)
        else b := by
  have happ : c.appliedTo store c.settings.targets (c.targetPath v) ⊆ c.reaching store loc :=
    List.Subset.trans appliedTo_subset (targetsOf_subset_reaching hv hloc)
  have hsub : c.appliedTo store c.settings.targets (c.targetPath v) ⊆ c.settings.targets :=
    fun u hu => (mem_of_appliedTo hu).1
  rw [body_filled (htidy loc stored htext) happ ht,
    lastNaming_of_nodup hnodup hsub (mem_reaching.mp ht).1]
  by_cases hin : t ∈ c.appliedTo store c.settings.targets (c.targetPath v)
  · simp only [if_pos hin]
  · simp only [if_neg hin]

/-- **Not reported** are the targets that are applied and have a region. -/
theorem not_reported_iff (ht : t ∈ c.settings.targets) :
    ¬ c.Reported store t ↔ ∃ v loc stored, c.Lands store t v loc stored := by
  constructor
  · intro h
    obtain ⟨us, vs, hts⟩ := List.append_of_mem ht
    have hnone :
        failuresOf c t (draft store (us.foldl (apply store c) {}) (c.targetPath t)) = [] := by
      refine List.eq_nil_iff_forall_not_mem.mpr fun f hf => h ⟨f, ?_, file_of_mem_failuresOf hf⟩
      exact mem_failures_run.mpr ⟨us, t, vs, hts, hf⟩
    obtain ⟨d, hd, hbody⟩ := failuresOf_eq_nil_iff.mp hnone
    obtain ⟨v, hv, loc, hloc, htext, happ, hiff⟩ := exists_lands_of_draft htidy hts hd
    exact ⟨v, loc, d.stored, hv, hloc, htext, happ, by rwa [← hiff]⟩
  · intro hlands hrep
    obtain ⟨v, loc, stored, hl⟩ := hlands
    obtain ⟨f, hf, _, hcomp⟩ := hrep
    obtain ⟨us, u, vs, hts, hf⟩ := mem_failures_run.mp hf
    -- only the target itself reports its component
    have hu : u = t := by
      refine List.inj_on_of_nodup_map hnodup (by rw [hts]; simp) ht ?_
      rw [← (file_of_mem_failuresOf hf).2, hcomp]
    subst hu
    have hsame := sameDocument_iff.mp (mem_of_appliedTo hl.applied).2
    cases hd : draft store (us.foldl (apply store c) {}) (c.targetPath u) with
    | error e =>
      obtain ⟨hnil, hopen⟩ := draft_run_error_iff.mp hd
      have happ := hl.applied
      rw [← appliedTo_congr hsame, hts, appliedTo_append, if_pos hnil,
        appliedTo_cons_of_error hopen] at happ
      have hdup := List.Nodup.of_map _ hnodup
      rw [hts, List.nodup_append, List.nodup_cons] at hdup
      exact absurd (mem_of_appliedTo happ).1 hdup.2.1.1
    | ok d =>
      obtain ⟨v', _, loc', hloc', htext', happ', hiff⟩ := exists_lands_of_draft htidy hts hd
      have hsame' := sameDocument_iff.mp (mem_of_appliedTo happ').2
      have hll := Store.canonical?_unique (hsame'.symm.trans hsame) hloc' hl.leads
      rw [hll, hl.text] at htext'
      cases htext'
      rw [hd, failuresOf_eq_nil_iff.mpr ⟨d, rfl, by rw [hiff]; exact hl.region⟩] at hf
      cases hf

/-- A document leaves a file as it is if the regions of its targets hold their
fragments. -/
theorem filled_eq_of_bodies (htext : store.textAt? loc = some stored)
    (hv : v ∈ c.settings.targets) (hloc : store.canonical? (c.targetPath v) = some loc)
    (h : ∀ t ∈ c.appliedTo store c.settings.targets (c.targetPath v), ∀ b,
      (c.markers t).body? stored = some b → b = lined (c.fragment t)) :
    c.filled store (c.targetPath v) stored = stored := by
  have happ : c.appliedTo store c.settings.targets (c.targetPath v) ⊆ c.reaching store loc :=
    List.Subset.trans appliedTo_subset (targetsOf_subset_reaching hv hloc)
  have hfile := htidy loc stored htext
  have hcut := cutOut_putAll hfile.proper hfile.settled (hfile.harmless happ)
  refine eq_of_cutOut_eq hfile.proper (hfile.after_putAll happ).settled hfile.settled hcut
    fun m hm => ?_
  obtain ⟨t, ht, rfl⟩ := List.mem_map.mp hm
  refine (body_filled_of_reaching hnodup htidy htext hv hloc ht).trans ?_
  cases hb : (c.markers t).body? stored with
  | none => rfl
  | some b =>
    rw [Option.map_some]
    split
    · next hin => rw [h t hin b hb]
    · rfl

/-- Then they do hold them. -/
theorem body_of_filled_eq (hl : c.Lands store t v loc stored)
    (heq : c.filled store (c.targetPath v) stored = stored) :
    (c.markers t).body? stored = some (lined (c.fragment t)) := by
  have hbody := body_filled_of_reaching hnodup htidy hl.text hl.mem hl.leads hl.reaches
  obtain ⟨b, hb⟩ := Option.isSome_iff_exists.mp hl.region
  rw [heq, hb, Option.map_some, if_pos hl.applied] at hbody
  rw [hb, hbody]

/-! ## Updates that are kept -/

/-- A target is kept if no other document is written to its file. -/
theorem kept_of_written_once (hw : writeUpdates store (computeUpdates store c) = .ok after)
    (honce : ∀ f ∈ (computeUpdates store c).files, ∀ g ∈ (computeUpdates store c).files,
      store.canonical? f.1 = store.canonical? g.1 → f = g)
    (hl : c.Lands store t v loc stored) : c.Kept after t := by
  obtain ⟨_, hok, hlay, hafter⟩ := writeUpdates_spec store c
  rw [hw] at hok
  cases hok
  have htext := hafter loc
  rw [hl.text, Option.map_some] at htext
  refine ⟨loc, _, by rw [reaching_eq hlay]; exact hl.reaches, htext, ?_⟩
  -- a document that differs from the file is written to it
  have hwritten : c.filled store (c.targetPath v) stored ≠ stored →
      ∃ f ∈ (computeUpdates store c).files, f.1.components = (c.targetPath v).components ∧
        store.canonical? f.1 = some loc := by
    intro hne
    have hread := Store.readText_eq_ok_iff.mpr ⟨loc, hl.leads, hl.text⟩
    obtain ⟨f, hf, hcomp, hfread, _⟩ := exists_mem_files hl.mem hread hne
    obtain ⟨loc', hloc', _⟩ := Store.readText_eq_ok_iff.mp hfread
    rw [Store.canonical?_unique hcomp hloc' hl.leads] at hloc'
    exact ⟨f, hf, hcomp, hloc'⟩
  cases hlast : Store.lastWritten store loc (computeUpdates store c).files with
  | none =>
    refine body_of_filled_eq hnodup htidy hl (not_not.mp fun hne => ?_)
    obtain ⟨f, hf, _, hfloc⟩ := hwritten hne
    exact Store.lastWritten_eq_none_iff.mp hlast f hf hfloc
  | some g =>
    obtain ⟨hg, hgloc⟩ := Store.mem_of_lastWritten hlast
    obtain ⟨v', hv', hpath⟩ := exists_target_of_mem_files hg
    show (c.markers t).body? (c.filled store g.1 stored) = _
    rw [← hpath] at hgloc ⊢
    rw [body_filled_of_reaching hnodup htidy hl.text hv' hgloc hl.reaches]
    split
    · next hin =>
      obtain ⟨b, hb⟩ := Option.isSome_iff_exists.mp hl.region
      rw [hb, Option.map_some]
    · next hout =>
      rw [Option.map_id']
      refine body_of_filled_eq hnodup htidy hl (not_not.mp fun hne => hout ?_)
      obtain ⟨f, hf, hcomp, hfloc⟩ := hwritten hne
      have hfg := honce f hf g hg (by rw [hfloc, ← hpath, hgloc])
      rw [hpath, ← hfg, appliedTo_congr hcomp]
      exact hl.applied

/-- A document whose targets are kept is the one that is written last. -/
theorem eq_lastWritten_of_kept (hw : writeUpdates store (computeUpdates store c) = .ok after)
    (hkept : ∀ t ∈ c.settings.targets, ¬ c.Reported store t → c.Kept after t)
    (hf : f ∈ (computeUpdates store c).files) (hfloc : store.canonical? f.1 = some loc)
    (hlast : Store.lastWritten store loc (computeUpdates store c).files = some g) : f = g := by
  obtain ⟨_, hok, hlay, hafter⟩ := writeUpdates_spec store c
  rw [hw] at hok
  cases hok
  obtain ⟨hg, hgloc⟩ := Store.mem_of_lastWritten hlast
  refine List.inj_on_of_nodup_map (nodup_files store c) hf hg (not_not.mp fun hne => ?_)
  obtain ⟨v, hv, hpath, loc', stored, hloc, htext, hfilled, hdiff⟩ := exists_location hf
  obtain ⟨v', hv', hpath'⟩ := exists_target_of_mem_files hg
  rw [hpath, hfloc] at hloc
  cases hloc
  have hafter : after.textAt? loc = some (c.filled store (c.targetPath v') stored) := by
    rw [hafter, hlast, htext, hpath']
    rfl
  rw [← hpath] at hfloc hne
  rw [← hpath'] at hgloc hne
  refine hdiff (hfilled.trans (filled_eq_of_bodies hnodup htidy htext hv hfloc ?_))
  intro t happ b hb
  have hl : c.Lands store t v loc stored := ⟨hv, hfloc, htext, happ, by rw [hb]; rfl⟩
  have hout : t ∉ c.appliedTo store c.settings.targets (c.targetPath v') := by
    intro hin
    have h := sameDocument_iff.mp (mem_of_appliedTo happ).2
    have h' := sameDocument_iff.mp (mem_of_appliedTo hin).2
    exact hne (h.symm.trans h')
  have ht := (mem_of_appliedTo happ).1
  obtain ⟨loc', text, hreach, htext', hbody⟩ :=
    hkept t ht ((not_reported_iff hnodup htidy ht).mpr ⟨v, loc, stored, hl⟩)
  -- the last writer leaves the region as it was, and yet it holds the fragment
  rw [reaching_eq hlay] at hreach
  rw [reaching_unique hreach hl.reaches, hafter] at htext'
  rw [← Option.some.inj htext',
    body_filled_of_reaching hnodup htidy htext hv' hgloc hl.reaches, hb,
    Option.map_some, if_neg hout] at hbody
  exact Option.some.inj hbody

end SharedFile

/-- **No update is lost** exactly when no two written documents are one file. -/
theorem updates_kept_iff (hnodup : (c.settings.targets.map Target.component).Nodup)
    (htidy : c.TidyFiles store) :
    ∃ after, writeUpdates store (computeUpdates store c) = .ok after ∧
      ((∀ t ∈ c.settings.targets, ¬ c.Reported store t → c.Kept after t) ↔
        ((computeUpdates store c).files.map fun f => store.canonical? f.1).Nodup) := by
  obtain ⟨after, hw, _⟩ := writeUpdates_spec store c
  refine ⟨after, hw, ?_⟩
  rw [List.nodup_map_iff_inj_on (List.Nodup.of_map _ (nodup_files store c))]
  constructor
  · intro hkept f hf g hg heq
    obtain ⟨v, _, hpath, loc, _, hloc, _⟩ := exists_location hf
    rw [hpath] at hloc
    cases hlast : Store.lastWritten store loc (computeUpdates store c).files with
    | none => exact absurd hloc (Store.lastWritten_eq_none_iff.mp hlast f hf)
    | some w =>
      rw [eq_lastWritten_of_kept hnodup htidy hw hkept hf hloc hlast,
        eq_lastWritten_of_kept hnodup htidy hw hkept hg (heq.symm.trans hloc) hlast]
  · intro honce t ht hrep
    obtain ⟨v, loc, stored, hl⟩ := (not_reported_iff hnodup htidy ht).mp hrep
    exact kept_of_written_once hnodup htidy hw honce hl

/-! ## Two paths to one file -/

namespace Sample

/-- The regions of the sample document by two paths that lead to it. -/
def aliases : List Target :=
  [target "a".toList "a".toList, target "x/../a".toList "b".toList]

theorem tidyFiles_aliases : (context aliases).TidyFiles checkout := by
  intro loc text htext
  rw [eq_document htext]
  refine tidy fun t ht => ?_
  have ht : t ∈ aliases := (mem_reaching.mp ht).1
  simp only [aliases, List.mem_cons, List.not_mem_nil, or_false] at ht
  rcases ht with rfl | rfl
  · exact ⟨_, Or.inl rfl⟩
  · exact ⟨_, Or.inr rfl⟩

/-- Both paths are written, to the one file. -/
theorem exists_mem_files_aliases (file component : Text)
    (ht : target file component ∈ aliases)
    (hcomponent : component = "a".toList ∨ component = "b".toList)
    (hof : (context aliases).targetsOf aliases
      ((context aliases).targetPath (target file component)) = [target file component])
    (hloc : checkout.canonical? ((context aliases).targetPath (target file component)) =
      some ["d".toList, "a".toList]) :
    ∃ f ∈ (computeUpdates checkout (context aliases)).files,
      f.1.components = ((context aliases).targetPath (target file component)).components ∧
      checkout.canonical? f.1 = some ["d".toList, "a".toList] := by
  have hread := Store.readText_eq_ok_iff.mpr ⟨_, hloc, textAt?_document⟩
  have hopen : (context aliases).opens checkout (target file component) = true :=
    opens_iff.mpr ⟨document, hread⟩
  have happ : (context aliases).appliedTo checkout (context aliases).settings.targets
      ((context aliases).targetPath (target file component)) = [target file component] := by
    rw [appliedTo, show (context aliases).settings.targets = aliases from rfl, hof]
    exact List.dropWhile_cons_of_neg (by rw [hopen]; decide)
  have hne : (context aliases).filled checkout
      ((context aliases).targetPath (target file component)) document ≠ document := by
    rw [filled, happ, jobs, List.map_singleton, putAll_cons, putAll_nil, markers_target,
      fragment_target]
    rcases hcomponent with rfl | rfl <;> decide +kernel
  obtain ⟨f, hf, hcomp, hfread, _⟩ := exists_mem_files ht hread hne
  obtain ⟨loc, hfloc, _⟩ := Store.readText_eq_ok_iff.mp hfread
  rw [Store.canonical?_unique hcomp hfloc hloc] at hfloc
  exact ⟨f, hf, hcomp, hfloc⟩

end Sample

open Sample in
/-- **An update that is lost**: the targets of the sample reach one file by two paths. -/
theorem updates_lost_sample :
    ∃ after, writeUpdates checkout (computeUpdates checkout (context aliases)) = .ok after ∧
      ∃ t ∈ aliases,
        ¬ (context aliases).Reported checkout t ∧ ¬ (context aliases).Kept after t := by
  obtain ⟨after, hw, hiff⟩ := updates_kept_iff (c := context aliases) (by decide) tidyFiles_aliases
  refine ⟨after, hw, ?_⟩
  by_contra hnone
  have hkept : ∀ t ∈ (context aliases).settings.targets,
      ¬ (context aliases).Reported checkout t → (context aliases).Kept after t :=
    fun t ht hrep => not_not.mp fun hlost => hnone ⟨t, ht, hrep, hlost⟩
  obtain ⟨f, hf, hfcomp, hfloc⟩ := exists_mem_files_aliases "a".toList "a".toList
    (by simp [aliases]) (Or.inl rfl) rfl canonical?_spellings.1
  obtain ⟨g, hg, hgcomp, hgloc⟩ := exists_mem_files_aliases "x/../a".toList "b".toList
    (by simp [aliases]) (Or.inr rfl) rfl canonical?_spellings.2.1
  have hfg : f = g := List.inj_on_of_nodup_map (hiff.mp hkept) hf hg (hfloc.trans hgloc.symm)
  rw [hfg, hgcomp] at hfcomp
  exact absurd hfcomp (by decide)

end ModuleDocs

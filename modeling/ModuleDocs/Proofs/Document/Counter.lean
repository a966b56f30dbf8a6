import ModuleDocs.CommandLine.Run
import ModuleDocs.Proofs.Document.SharedFile

/-!
# What the counter of an update tells

The counter of a run goes up with every target that changes the text it is put into,
while the documents are compared as wholes, before the first target and after the last.
So the counter is zero if every applied target finds its fragment in the stored text
(`Idle`), and nothing is written if this is so of all of them together (`UpToDate`).
The first implies the second, but not the other way round: a region may be named by two
targets whose fragments differ, and then the second one puts back what the first one
took out.

In tidy documents this is the only way for the two to differ (`idle_iff_agreed`).
-/

namespace ModuleDocs

open Reconciliation

namespace DocsContext

/-- No applied target makes a difference to the text in the store. -/
def Idle (store : Store) (c : DocsContext) : Prop :=
  ∀ v ∈ c.settings.targets, ∀ text, store.readText (c.targetPath v) = .ok text →
    ∀ t ∈ c.appliedTo store c.settings.targets (c.targetPath v),
      (c.markers t).put (c.fragment t) text = text

/-- The applied targets of a document make no difference to it, taken together. -/
def UpToDate (store : Store) (c : DocsContext) : Prop :=
  ∀ v ∈ c.settings.targets, ∀ text, store.readText (c.targetPath v) = .ok text →
    c.filled store (c.targetPath v) text = text

/-- Targets applied to one region put the same into it: what the last of them does. -/
def Agreed (store : Store) (c : DocsContext) : Prop :=
  ∀ v ∈ c.settings.targets, ∀ text, store.readText (c.targetPath v) = .ok text →
    ∀ t ∈ c.appliedTo store c.settings.targets (c.targetPath v),
      ((c.markers t).body? text).isSome → ∀ u,
        lastNaming (c.appliedTo store c.settings.targets (c.targetPath v)) t.component = some u →
          (c.fragment t).trim = (c.fragment u).trim

end DocsContext

variable {store : Store} {c : DocsContext} {ts : List Target} {t v : Target} {d : Draft}
  {p : Path} {text : Text} {m : MarkerPair} {x : Text}

/-! ## Changes of one draft -/

theorem after_changed : (d.after c t).changed = [] ↔
    d.changed = [] ∧ (c.markers t).put (c.fragment t) d.current = d.current := by
  unfold Draft.after
  dsimp only
  split
  · next h => simp [h]
  · next h => simp [h]

/-- A run over a draft records nothing if each of its targets alone makes no difference:
up to the first one that does, the text stays what it was. -/
theorem foldl_after_changed : (ts.foldl (Draft.after c) d).changed = [] ↔
    d.changed = [] ∧ ∀ t ∈ ts, (c.markers t).put (c.fragment t) d.current = d.current := by
  induction ts generalizing d with
  | nil => simp
  | cons t ts ih =>
    rw [List.foldl_cons, ih, after_changed, after_current, List.forall_mem_cons, and_assoc]
    refine and_congr_right fun _ => and_congr_right fun hput => ?_
    rw [hput]

theorem changed_run (h : (reconcile store c).draftAt p = some d) : d.changed = [] ↔
    ∀ t ∈ c.appliedTo store c.settings.targets p,
      (c.markers t).put (c.fragment t) d.stored = d.stored := by
  obtain ⟨t, rest, happ, _, _, hd⟩ := draftAt_run_eq h
  rw [happ, congrArg Draft.changed hd, foldl_after_changed]
  exact and_iff_right rfl

/-! ## The counter and the documents -/

/-- A draft belongs to a target that reads the text it was made from. -/
theorem exists_target_of_draftAt (h : (reconcile store c).draftAt p = some d) :
    ∃ v ∈ c.settings.targets, c.targetPath v = d.path ∧
      store.readText (c.targetPath v) = .ok d.stored := by
  obtain ⟨t, rest, happ, hpath, hread, _⟩ := draftAt_run h
  have ht : t ∈ c.appliedTo store c.settings.targets p := by rw [happ]; simp
  exact ⟨t, (DocsContext.mem_of_appliedTo ht).1, hpath.symm, hpath ▸ hread⟩

theorem updated_eq_zero_iff_idle : (computeUpdates store c).updated = 0 ↔ c.Idle store := by
  have hchanges : (computeUpdates store c).updated = changes (reconcile store c).drafts :=
    updated_run
  have hseparate : Separate (reconcile store c).drafts := separate_run
  rw [hchanges, changes, List.length_eq_zero_iff, List.flatMap_eq_nil_iff]
  constructor
  · intro h v hv text hread
    obtain ⟨d, hd, rfl⟩ := exists_draftAt hv hread
    exact (changed_run hd).mp (h d (List.mem_of_find?_eq_some hd))
  · intro h d hd
    have hat := (mem_drafts_iff hseparate).mp hd
    obtain ⟨v, hv, hpath, hread⟩ := exists_target_of_draftAt hat
    exact (changed_run hat).mpr (hpath ▸ h v hv _ hread)

theorem files_eq_nil_iff_upToDate : (computeUpdates store c).files = [] ↔ c.UpToDate store := by
  constructor
  · intro h v hv text hread
    by_contra hne
    obtain ⟨f, hf, _⟩ := exists_mem_files hv hread hne
    rw [h] at hf
    cases hf
  · intro h
    refine List.eq_nil_iff_forall_not_mem.mpr fun f hf => ?_
    obtain ⟨t, ht, hpath⟩ := exists_target_of_mem_files hf
    obtain ⟨_, _, stored, _, _, hread, hfilled, hne⟩ := mem_files_iff.mp hf
    rw [← hpath] at hread hfilled
    exact hne (hfilled.trans (h t ht stored hread))

theorem stale_eq_nil_iff_upToDate : (check store c).stale = [] ↔ c.UpToDate store := by
  rw [← files_eq_nil_iff_upToDate]
  exact List.map_eq_nil_iff.symm

theorem DocsContext.Idle.upToDate (h : c.Idle store) : c.UpToDate store := by
  intro v hv text hread
  have hidle := h v hv text hread
  rw [DocsContext.filled]
  generalize c.appliedTo store c.settings.targets (c.targetPath v) = ts at hidle
  induction ts with
  | nil => rfl
  | cons t ts ih =>
    obtain ⟨ht, hts⟩ := List.forall_mem_cons.mp hidle
    rw [DocsContext.jobs, List.map_cons, putAll_cons, ht]
    exact ih hts

/-! ## Tidy documents -/

/-- An update makes no difference if the region, where there is one, holds its content. -/
theorem put_eq_self_iff : m.put x text = text ↔ ∀ b, m.body? text = some b → b = lined x := by
  cases hr : Region.find? m text with
  | none => simp [put_of_none hr, MarkerPair.body?, hr]
  | some r =>
    have hbody : (r.fill x).document m = r.document m ↔ lined x = r.body := by
      simp only [Region.document, Region.fill_before, Region.fill_after,
        List.append_cancel_right_eq, List.append_cancel_left_eq]
      rfl
    rw [put_of_find? hr, MarkerPair.body?, hr, Option.map_some]
    conv_lhs => rw [← Region.document_of_find? hr, hbody]
    constructor
    · intro h b hb
      rw [h, ← Option.some.inj hb]
    · intro h
      exact (h r.body rfl).symm

theorem lined_inj {y : Text} : lined x = lined y ↔ x.trim = y.trim := by
  simp [lined]

/-- A region of a tidy document that nothing changes holds what the last target of its
component puts there. -/
theorem body_of_filled (htidy : c.TidyIn store) (hv : v ∈ c.settings.targets)
    (hread : store.readText (c.targetPath v) = .ok text)
    (hfilled : c.filled store (c.targetPath v) text = text)
    (ht : t ∈ c.appliedTo store c.settings.targets (c.targetPath v)) :
    ∃ u, DocsContext.lastNaming (c.appliedTo store c.settings.targets (c.targetPath v))
        t.component = some u ∧
      ∀ b, (c.markers t).body? text = some b → b = lined (c.fragment u) := by
  have happ : c.appliedTo store c.settings.targets (c.targetPath v) ⊆
      c.targetsOf c.settings.targets (c.targetPath v) := DocsContext.appliedTo_subset
  have hbody := DocsContext.body_filled (htidy v hv text hread) happ (happ ht)
  rw [hfilled] at hbody
  cases hlast : DocsContext.lastNaming (c.appliedTo store c.settings.targets (c.targetPath v))
      t.component with
  | none => exact absurd rfl (DocsContext.lastNaming_eq_none_iff.mp hlast t ht)
  | some u =>
    refine ⟨u, rfl, fun b hb => ?_⟩
    rw [hb, hlast] at hbody
    exact Option.some.inj hbody

/-- In tidy documents that are up to date, targets are idle as far as those of one region
agree. -/
theorem idle_iff_agreed (htidy : c.TidyIn store) (hfilled : c.UpToDate store) :
    c.Idle store ↔ c.Agreed store := by
  constructor
  · intro h v hv text hread t ht hregion u hlast
    obtain ⟨u', hlast', hbody⟩ := body_of_filled htidy hv hread (hfilled v hv text hread) ht
    rw [hlast, Option.some.injEq] at hlast'
    subst hlast'
    obtain ⟨b, hb⟩ := Option.isSome_iff_exists.mp hregion
    have hidle := put_eq_self_iff.mp (h v hv text hread t ht) b hb
    exact lined_inj.mp (hidle.symm.trans (hbody b hb))
  · intro h v hv text hread t ht
    obtain ⟨u, hlast, hbody⟩ := body_of_filled htidy hv hread (hfilled v hv text hread) ht
    refine put_eq_self_iff.mpr fun b hb => ?_
    have hagreed := h v hv text hread t ht (by rw [hb]; rfl) u hlast
    rw [hbody b hb, lined_inj.mpr hagreed]

/-- Targets of different components have nothing to disagree on. -/
theorem DocsContext.agreed_of_nodup (h : (c.settings.targets.map Target.component).Nodup) :
    c.Agreed store := by
  intro v _ text _ t ht _ u hlast
  have hsub : c.appliedTo store c.settings.targets (c.targetPath v) ⊆ c.settings.targets :=
    fun w hw => (mem_of_appliedTo hw).1
  rw [lastNaming_of_nodup h hsub (hsub ht), if_pos ht, Option.some.injEq] at hlast
  rw [hlast]

/-- Where every component has one target, the counter tells whether anything changes. -/
theorem updated_eq_zero_iff_of_nodup (htidy : c.TidyIn store)
    (h : (c.settings.targets.map Target.component).Nodup) :
    (computeUpdates store c).updated = 0 ↔ (computeUpdates store c).files = [] := by
  rw [updated_eq_zero_iff_idle, files_eq_nil_iff_upToDate]
  refine ⟨fun hidle => hidle.upToDate, fun hfilled => ?_⟩
  exact (idle_iff_agreed htidy hfilled).mpr (DocsContext.agreed_of_nodup h)

/-! ## What the commands say -/

namespace CommandLine

variable {root version : Option Text} {docs : Path} {verbose dryRun showDiff : Bool}
  {format : ReportFormat} {p : Project} {o : Outcome}

/-- What an update prints that has nothing to do. -/
def upToDateLine : Text := textLine "All generated sections are already up to date."

/-- A command on a documentation checkout that ends normally has found a project and a
context. -/
theorem exists_context {k : Project → DocsContext → Except Abort Outcome}
    (h : (do
      let p ← (project store root).mapError Abort.library
      let c ← (context store p docs version).mapError Abort.library
      k p c) = Except.ok o) :
    ∃ p c, project store root = .ok p ∧ context store p docs version = .ok c := by
  cases hp : project store root with
  | error e =>
    rw [hp] at h
    cases h
  | ok p =>
    cases hc : context store p docs version with
    | error e =>
      simp only [hp, Except.mapError, bind, Except.bind, hc] at h
      cases h
    | ok c => exact ⟨p, c, rfl, hc⟩

theorem output_of_runUpdate (hp : project store root = .ok p)
    (hc : context store p docs version = .ok c) :
    (∃ o, runUpdate store root verbose docs version dryRun = .ok o ∧ o.output = upToDateLine) ↔
      (computeUpdates store c).updated = 0 ∧ (computeUpdates store c).allFailed = false := by
  simp only [runUpdate, hp, hc, Except.mapError, bind, Except.bind]
  generalize computeUpdates store c = u
  constructor
  · intro h
    obtain ⟨o, h, hout⟩ := h
    -- the other outputs are empty or begin differently
    have hhead := congrArg List.head? hout
    split at h
    · cases h
      simp [upToDateLine, textLine] at hhead
    · next hfailed =>
      split at h
      · next hzero => exact ⟨hzero, by simpa using hfailed⟩
      · split at h
        · cases h
          simp [line, upToDateLine, textLine] at hhead
        · split at h
          · cases h
          · cases h
            simp [line, upToDateLine, textLine] at hhead
  · intro h
    obtain ⟨hzero, hfailed⟩ := h
    rw [if_neg (by simp [hfailed]), if_pos hzero]
    exact ⟨_, rfl, rfl⟩

/-- An update says that there is nothing to do if it changed nothing along the way. -/
theorem runUpdate_upToDate_iff :
    (∃ o, runUpdate store root verbose docs version dryRun = .ok o ∧ o.output = upToDateLine) ↔
      ∃ p c, project store root = .ok p ∧ context store p docs version = .ok c ∧
        (computeUpdates store c).updated = 0 ∧ (computeUpdates store c).allFailed = false := by
  constructor
  · intro h
    obtain ⟨o, hrun, _⟩ := id h
    obtain ⟨p, c, hp, hc⟩ := exists_context hrun
    exact ⟨p, c, hp, hc, (output_of_runUpdate hp hc).mp h⟩
  · intro h
    obtain ⟨p, c, hp, hc, hnone⟩ := h
    exact (output_of_runUpdate hp hc).mpr hnone

/-- A check passes if nothing is stale and some target could be checked. -/
theorem runCheck_passed_iff :
    (∃ o, runCheck store root docs version showDiff format = .ok o ∧ o.exit = 0) ↔
      ∃ p c, project store root = .ok p ∧ context store p docs version = .ok c ∧
        (check store c).stale = [] ∧ (check store c).allFailed = false := by
  constructor
  · intro h
    obtain ⟨o, h, hexit⟩ := h
    obtain ⟨p, c, hp, hc⟩ := exists_context h
    refine ⟨p, c, hp, hc, ?_⟩
    simp only [runCheck, hp, hc, Except.mapError, bind, Except.bind] at h
    cases h
    simpa using hexit
  · intro h
    obtain ⟨p, c, hp, hc, hstale, hfailed⟩ := h
    simp only [runCheck, hp, hc, Except.mapError, bind, Except.bind]
    exact ⟨_, rfl, by simp [hstale, hfailed]⟩

end CommandLine

open CommandLine in
/-- **The counter of an update** is zero exactly if no target makes a difference to the
text in the store, and nothing is written or stale exactly if they make none together.
So a counter of zero means that nothing is written; the converse holds, in tidy documents,
exactly if targets of one region put the same into it wherever everything is up to date.
An update says by the one that there is nothing to do, a check by the other. -/
theorem updated_eq_zero_spec (store : Store) :
    (∀ c : DocsContext,
      ((computeUpdates store c).updated = 0 ↔ c.Idle store) ∧
      ((computeUpdates store c).files = [] ↔ c.UpToDate store) ∧
      ((check store c).stale = [] ↔ c.UpToDate store) ∧
      ((computeUpdates store c).updated = 0 → (computeUpdates store c).files = []) ∧
      (c.TidyIn store →
        (((computeUpdates store c).updated = 0 ↔ (computeUpdates store c).files = []) ↔
          (c.UpToDate store → c.Agreed store)))) ∧
    ∀ root docs version,
      (∀ verbose dryRun, (∃ o, runUpdate store root verbose docs version dryRun = .ok o ∧
          o.output = upToDateLine) ↔
        ∃ p c, project store root = .ok p ∧ context store p docs version = .ok c ∧
          c.Idle store ∧ (computeUpdates store c).allFailed = false) ∧
      ∀ showDiff format, (∃ o, runCheck store root docs version showDiff format = .ok o ∧
          o.exit = 0) ↔
        ∃ p c, project store root = .ok p ∧ context store p docs version = .ok c ∧
          c.UpToDate store ∧ (check store c).allFailed = false := by
  constructor
  · intro c
    refine ⟨updated_eq_zero_iff_idle, files_eq_nil_iff_upToDate, stale_eq_nil_iff_upToDate,
      fun h => ?_, fun htidy => ?_⟩
    · exact files_eq_nil_iff_upToDate.mpr (updated_eq_zero_iff_idle.mp h).upToDate
    · rw [updated_eq_zero_iff_idle, files_eq_nil_iff_upToDate]
      constructor
      · intro h hfilled
        exact (idle_iff_agreed htidy hfilled).mp (h.mpr hfilled)
      · intro h
        refine ⟨fun hidle => hidle.upToDate, fun hfilled => ?_⟩
        exact (idle_iff_agreed htidy hfilled).mpr (h hfilled)
  · intro root docs version
    constructor
    · intro verbose dryRun
      simp only [runUpdate_upToDate_iff, updated_eq_zero_iff_idle]
    · intro showDiff format
      simp only [runCheck_passed_iff, stale_eq_nil_iff_upToDate]

/-! ## Two targets of one region -/

namespace Sample

/-- The sample document with the table of servers in the region of `a`. -/
def settled : Text := (markers "a".toList).put Fragment.noServers document

/-- The settled document as `d/a`. -/
def settledCheckout : Store where
  home := []
  nodes := [(["d".toList], .directory), (["d".toList, "a".toList], .file (Text.encode settled))]

/-- The disable list for the region of `a`, and then the table of servers for it. -/
def undone : List Target := [⟨"a".toList, "a".toList, .disableList⟩, target "a".toList "a".toList]

theorem readText_settled : settledCheckout.readText ⟨"d/a".toList⟩ = .ok settled := by
  refine Store.readText_eq_ok_iff.mpr ⟨["d".toList, "a".toList], ?_, Text.decode?_encode settled⟩
  simp [Store.canonical?, Store.resolve, Path.isAbsolute, Store.follow, Store.node?,
    settledCheckout, List.splitOn_cons_eq_if_modifyHead]

theorem targetPath_undone (hv : v ∈ undone) : (context undone).targetPath v = ⟨"d/a".toList⟩ := by
  simp only [undone, List.mem_cons, List.not_mem_nil, or_false] at hv
  rcases hv with rfl | rfl <;> rfl

theorem appliedTo_undone :
    (context undone).appliedTo settledCheckout (context undone).settings.targets
      ⟨"d/a".toList⟩ = undone := by
  rw [DocsContext.appliedTo, show (context undone).targetsOf (context undone).settings.targets
    ⟨"d/a".toList⟩ = undone from rfl]
  refine List.dropWhile_cons_of_neg ?_
  rw [opens_iff.mpr ⟨settled, readText_settled⟩]
  decide

theorem tidyIn_undone : (context undone).TidyIn settledCheckout := by
  intro v hv d hread
  have hts : (context undone).targetsOf (context undone).settings.targets
      ((context undone).targetPath v) = undone := by
    rw [targetPath_undone hv]
    rfl
  have hcomponent : ∀ t ∈ undone, (context undone).markers t = markers "a".toList := by
    intro t ht
    simp only [undone, List.mem_cons, List.not_mem_nil, or_false] at ht
    rcases ht with rfl | rfl <;> rfl
  rw [hts]
  refine ⟨fun t ht => ?_, fun t ht u hu hne => ?_, fun t ht u hu => ?_⟩
  · rw [hcomponent t ht]
    exact markers_oneLine.1
  · exact absurd (MarkerStyle.markers_inj.mp ((hcomponent t ht).trans (hcomponent u hu).symm)) hne
  · rw [hcomponent u hu]
    unfold MarkerPair.OccursIn
    simp only [undone, List.mem_cons, List.not_mem_nil, or_false] at ht
    rcases ht with rfl | rfl <;> decide +kernel

end Sample

open Sample in
/-- **A counter that says too much**: the sample is up to date, and both its targets are
counted. -/
theorem updated_ne_zero_sample :
    (computeUpdates settledCheckout (context undone)).files = [] ∧
      (check settledCheckout (context undone)).stale = [] ∧
      (computeUpdates settledCheckout (context undone)).updated ≠ 0 := by
  obtain ⟨-, hfiles, hstale, -, hexact⟩ :=
    (updated_eq_zero_spec settledCheckout).1 (context undone)
  have hpath : ∀ v ∈ undone, (context undone).targetPath v = ⟨"d/a".toList⟩ :=
    fun _ => targetPath_undone
  have hfilled : (context undone).UpToDate settledCheckout := by
    intro v hv text hread
    rw [hpath v hv] at hread ⊢
    rw [readText_settled, Except.ok.injEq] at hread
    rw [← hread, DocsContext.filled, appliedTo_undone]
    decide +kernel
  have hdisagree : ¬ (context undone).Agreed settledCheckout := by
    intro h
    have hmem : ∀ t ∈ undone, t ∈ (context undone).appliedTo settledCheckout
        (context undone).settings.targets ⟨"d/a".toList⟩ := by
      intro t ht
      rwa [appliedTo_undone]
    have htrim := h (target "a".toList "a".toList) (by decide) settled readText_settled
      ⟨"a".toList, "a".toList, .disableList⟩ (hmem _ (by decide)) (by decide +kernel)
      (target "a".toList "a".toList) ?_
    · revert htrim
      decide +kernel
    · rw [hpath _ (by decide), appliedTo_undone]
      rfl
  refine ⟨hfiles.mpr hfilled, hstale.mpr hfilled, fun hzero => hdisagree ?_⟩
  exact (hexact tidyIn_undone).mp ⟨fun _ => hfiles.mpr hfilled, fun _ => hzero⟩ hfilled

end ModuleDocs

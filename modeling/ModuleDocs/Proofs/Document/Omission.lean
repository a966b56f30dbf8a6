import ModuleDocs.Proofs.Document.Independence

/-!
# Leaving failed targets out

A target that fails changes no document. If it cannot open one, there is nothing to
change; if its region is missing, its document is at most read. So a run without the
targets that failed goes the same way: it is `Behind` the full run by drafts that were
opened and left as they were, and each of its targets meets the text that it met in
the full run (`behind_apply`, `behind_apply_of_failed`).

That a failure does not affect other targets is meant, but is not so throughout. A draft
that a failed target opened can be of use to a later target, namely one whose own spelling
of the path cannot be opened (`a.md/`): the draft is found by the components of the path,
and the file is not asked for again. Left to itself such a target fails
(`exists_failure_without_failed`). Hence the condition in `failed_targets_apart`: the first
target that is left of a document has to open it.
-/

namespace ModuleDocs

open Reconciliation

/-- What a draft says, however the path of its document is spelled. -/
def Draft.entry (d : Draft) : List Component × Text × Text × List Text :=
  (d.path.components, d.stored, d.current, d.changed)

/-- The targets of a list that report no failure when it is their turn. -/
def Reconciliation.succeeding (store : Store) (c : DocsContext) :
    Reconciliation → List Target → List Target
  | _, [] => []
  | r, t :: ts =>
    let r' := apply store c r t
    if r'.failures = r.failures then t :: succeeding store c r' ts else succeeding store c r' ts

/-- The failures are those of different targets, in target order. -/
def DocsContext.FailsInOrder (store : Store) (c : DocsContext) : Prop :=
  ((computeUpdates store c).failures.map fun f => (f.file, f.component)).Sublist
      (c.settings.targets.map fun t => (c.targetPath t, t.component)) ∧
    (computeUpdates store c).failures.length ≤ (computeUpdates store c).targetCount ∧
    (check store c).failures = (computeUpdates store c).failures

/-- The context without the targets that fail in it. -/
def DocsContext.withoutFailed (store : Store) (c : DocsContext) : DocsContext :=
  c.withTargets (succeeding store c {} c.settings.targets)

/-- A run that has the drafts of another one, up to those that the other opened and
left as they were. -/
structure Reconciliation.Behind (store : Store) (r s : Reconciliation) : Prop where
  drafts : ∀ p, (s.draftAt p).map Draft.entry = (r.draftAt p).map Draft.entry ∨
    s.draftAt p = none ∧ ∃ d, r.draftAt p = some d ∧ openDraft store d.path = .ok d
  updated : s.updated = r.updated

variable {store : Store} {c : DocsContext} {ts : List Target} {t : Target} {p q : Path}
  {r s : Reconciliation} {d e : Draft}

/-- The first target of a document, if there is one, can open it. -/
def DocsContext.FirstOpens (store : Store) (c : DocsContext) (ts : List Target) (p : Path) :
    Prop :=
  ∀ t rest, c.targetsOf ts p = t :: rest → c.opens store t = true

namespace Reconciliation

/-! ## Drafts that say the same -/

theorem entry_after (h : d.entry = e.entry) : (d.after c t).entry = (e.after c t).entry := by
  obtain ⟨hpath, hstored, hcurrent, hchanged⟩ : d.path.components = e.path.components ∧
      d.stored = e.stored ∧ d.current = e.current ∧ d.changed = e.changed := by
    simpa [Draft.entry] using h
  unfold Draft.after
  simp only [hcurrent]
  split
  · exact h
  · simp [Draft.entry, hpath, hstored, hchanged]

/-- Spellings of one document are opened as drafts that say the same. -/
theorem entry_openDraft (h : p.components = q.components) (hd : openDraft store p = .ok d)
    (he : openDraft store q = .ok e) : d.entry = e.entry := by
  obtain ⟨text, hp, rfl⟩ := openDraft_eq_ok_iff.mp hd
  obtain ⟨text', hq, rfl⟩ := openDraft_eq_ok_iff.mp he
  simp [Draft.entry, h, Store.readText_unique h hp hq]

theorem path_of_openDraft (h : openDraft store p = .ok d) : d.path = p := by
  obtain ⟨_, _, rfl⟩ := openDraft_eq_ok_iff.mp h
  rfl

/-! ## Failing targets -/

theorem failures_apply_eq_iff : (apply store c r t).failures = r.failures ↔
    ∃ d, draft store r (c.targetPath t) = .ok d ∧ ((c.markers t).body? d.current).isSome := by
  rw [failures_apply, List.append_right_eq_self, failuresOf_eq_nil_iff]

/-- A target that fails leaves a draft as it finds it. -/
theorem after_of_failed (hd : draft store r (c.targetPath t) = .ok d)
    (h : (apply store c r t).failures ≠ r.failures) : d.after c t = d := by
  have hnone : Region.find? (c.markers t) d.current = none := by
    by_contra hsome
    refine h (failures_apply_eq_iff.mpr ⟨d, hd, ?_⟩)
    rw [MarkerPair.body?, Option.isSome_map]
    exact Option.isSome_iff_ne_none.mpr hsome
  simp [Draft.after, put_of_none hnone]

/-- A target that fails makes no difference to a run that leaves it out. -/
theorem behind_apply_of_failed (hb : Behind store r s)
    (h : (apply store c r t).failures ≠ r.failures) : Behind store (apply store c r t) s := by
  constructor
  · intro p
    rw [draftAt_apply]
    split
    · next hp =>
      have hdraft := hb.drafts p
      cases hr : r.draftAt p with
      | some d =>
        have hd : draft store r (c.targetPath t) = .ok d := draft_of_draftAt hp hr
        rw [hr] at hdraft
        rwa [advance, after_of_failed hd h]
      | none =>
        -- the target opens the document at most
        rw [hr] at hdraft
        have hs : s.draftAt p = none := by simpa using hdraft
        rw [advance, hs]
        cases ho : openDraft store (c.targetPath t) with
        | error problem => exact Or.inl rfl
        | ok d =>
          have hd : draft store r (c.targetPath t) = .ok d := by
            rw [draft_of_draftAt_eq_none hp hr, ho]
          refine Or.inr ⟨rfl, d, ?_, by rwa [path_of_openDraft ho]⟩
          show some (d.after c t) = some d
          rw [after_of_failed hd h]
    · exact hb.drafts p
  · rw [hb.updated]
    cases hd : draft store r (c.targetPath t) with
    | error problem => exact (updated_of_error hd).symm
    | ok d =>
      have hcount := updated_of_ok hd
      rw [after_of_failed hd h] at hcount
      omega

/-! ## Succeeding targets -/

/-- A target that can open its document meets the same text in both runs. -/
theorem exists_draft_of_behind (hb : Behind store r s)
    (hd : draft store r (c.targetPath t) = .ok d)
    (hopen : s.draftAt (c.targetPath t) = none → c.opens store t = true) :
    ∃ e, draft store s (c.targetPath t) = .ok e ∧ e.entry = d.entry := by
  have hpath := sameDocument_iff.mp (path_of_draft hd)
  rw [draft_eq] at hd ⊢
  rcases hb.drafts (c.targetPath t) with heq | ⟨hs, d', hr, hfresh⟩
  · cases hr : r.draftAt (c.targetPath t) with
    | some d' =>
      rw [hr] at hd heq
      cases hd
      obtain ⟨e, he, hentry⟩ := Option.map_eq_some_iff.mp heq
      exact ⟨e, by rw [he], hentry⟩
    | none =>
      rw [hr] at hd heq
      have hs : s.draftAt (c.targetPath t) = none := by simpa using heq
      exact ⟨d, by rw [hs]; exact hd, rfl⟩
  · -- the draft was opened for a target that failed, maybe by another spelling
    rw [hr] at hd
    cases hd
    obtain ⟨text, htext⟩ := opens_iff.mp (hopen hs)
    have he := openDraft_eq_ok_iff.mpr ⟨text, htext, rfl⟩
    exact ⟨_, by rw [hs]; exact he, entry_openDraft hpath.symm he hfresh⟩

/-- **A target that succeeds** succeeds as well where failed targets were left out. -/
theorem behind_apply (hb : Behind store r s) (h : (apply store c r t).failures = r.failures)
    (hopen : s.draftAt (c.targetPath t) = none → c.opens store t = true) :
    Behind store (apply store c r t) (apply store c s t) ∧
      (apply store c s t).failures = s.failures := by
  obtain ⟨d, hd, hbody⟩ := failures_apply_eq_iff.mp h
  obtain ⟨e, he, hentry⟩ := exists_draft_of_behind hb hd hopen
  have hafter := entry_after (c := c) (t := t) hentry
  obtain ⟨_, _, hcurrent, hchanged⟩ : _ ∧ _ ∧ e.current = d.current ∧ e.changed = d.changed := by
    simpa [Draft.entry] using hentry
  refine ⟨⟨fun p => ?_, ?_⟩, failures_apply_eq_iff.mpr ⟨e, he, by rwa [hcurrent]⟩⟩
  · rw [draftAt_apply, draftAt_apply]
    split
    · next hp =>
      rw [advance_of_draft hp hd, advance_of_draft hp he]
      exact Or.inl (congrArg some hafter)
    · exact hb.drafts p
  · have hr := updated_of_ok hd
    have hs := updated_of_ok he
    have hlength : (e.after c t).changed.length = (d.after c t).changed.length :=
      congrArg (fun entry => entry.2.2.2.length) hafter
    rw [hchanged, hlength, hb.updated] at hs
    omega

/-! ## The run without failed targets -/

/-- What is left of the targets behind one that succeeded can still be opened. -/
theorem firstOpens_tail (hp : ∀ p, s.draftAt p = none → c.FirstOpens store (t :: ts) p)
    (hd : draft store s (c.targetPath t) = .ok d) :
    ∀ p, (apply store c s t).draftAt p = none → c.FirstOpens store ts p := by
  intro p hnone u rest hfirst
  rw [draftAt_apply] at hnone
  split at hnone
  · next hsame =>
    rw [advance_of_draft hsame hd] at hnone
    cases hnone
  · next hsame =>
    refine hp p hnone u rest ?_
    rwa [DocsContext.targetsOf_cons_of_neg hsame]

/-- **The run without failed targets** ends behind the full run and reports nothing, if
the first target that is left of each document can open it. -/
theorem behind_run (hb : Behind store r s)
    (hfirst : ∀ p, s.draftAt p = none → c.FirstOpens store (succeeding store c r ts) p) :
    Behind store (ts.foldl (apply store c) r)
        ((succeeding store c r ts).foldl (apply store c) s) ∧
      ((succeeding store c r ts).foldl (apply store c) s).failures = s.failures := by
  induction ts generalizing r s with
  | nil => exact ⟨hb, rfl⟩
  | cons t ts ih =>
    rw [succeeding] at hfirst ⊢
    split at hfirst
    · next h =>
      rw [if_pos h, List.foldl_cons, List.foldl_cons]
      have hopen : s.draftAt (c.targetPath t) = none → c.opens store t = true := fun hnone =>
        hfirst _ hnone t _
          (DocsContext.targetsOf_cons_of_pos (sameDocument_iff.mpr rfl))
      obtain ⟨hb', hfail⟩ := behind_apply hb h hopen
      obtain ⟨e, he, _⟩ := failures_apply_eq_iff.mp hfail
      obtain ⟨hrun, hreports⟩ := ih hb' (firstOpens_tail hfirst he)
      exact ⟨hrun, hreports.trans hfail⟩
    · next h =>
      rw [if_neg h, List.foldl_cons]
      exact ih (behind_apply_of_failed hb h) hfirst

/-- A document without failures is opened by the first target of it. -/
theorem firstOpens_of_filter_failures
    (h : ((ts.foldl (apply store c) {}).failures.filter fun f => sameDocument f.file p) = []) :
    c.FirstOpens store ts p := by
  intro t rest hfirst
  obtain ⟨us, vs, rfl, hus, ht, _⟩ := List.filter_eq_cons_iff.mp hfirst
  cases ho : openDraft store (c.targetPath t) with
  | ok d => exact opens_eq_true ho
  | error problem =>
    -- nothing was applied to the document before, so the target is reported
    have hnone : c.appliedTo store us (c.targetPath t) = [] := by
      rw [DocsContext.appliedTo_congr (sameDocument_iff.mp ht), DocsContext.appliedTo,
        DocsContext.targetsOf, List.filter_eq_nil_iff.mpr hus]
      rfl
    have hmem : ⟨c.targetPath t, t.component, problem⟩ ∈
        ((us ++ t :: vs).foldl (apply store c) {}).failures := by
      refine mem_failures_run.mpr ⟨us, t, vs, rfl, ?_⟩
      rw [draft_run_error_iff.mpr ⟨hnone, ho⟩]
      exact List.mem_singleton_self _
    exact absurd ht (List.filter_eq_nil_iff.mp h _ hmem)

theorem behind_nil : Behind store {} {} := ⟨fun _ => Or.inl rfl, rfl⟩

/-! ## What both runs come to -/

theorem isStale_congr (h : d.entry = e.entry) : d.isStale = e.isStale :=
  congrArg (fun (_, stored, current, _) => current != stored) h

theorem mem_entries {entry : List Component × Text × Text × List Text} (h : Separate r.drafts) :
    entry ∈ r.stale.map Draft.entry ↔
      ∃ p d, r.draftAt p = some d ∧ d.isStale = true ∧ d.entry = entry := by
  rw [List.mem_map]
  constructor
  · intro hmem
    obtain ⟨d, hd, hentry⟩ := hmem
    obtain ⟨hat, hstale⟩ := (mem_stale_iff h).mp hd
    exact ⟨d.path, d, hat, hstale, hentry⟩
  · intro hmem
    obtain ⟨p, d, hat, hstale, hentry⟩ := hmem
    refine ⟨d, (mem_stale_iff h).mpr ⟨?_, hstale⟩, hentry⟩
    exact (mem_drafts_iff h).mp (List.mem_of_find?_eq_some hat)

/-- A run and one behind it leave the same stale documents. -/
theorem entries_of_behind (hb : Behind store r s) (hr : Separate r.drafts)
    (hs : Separate s.drafts) : s.stale.map Draft.entry = r.stale.map Draft.entry := by
  have hincreasing {r : Reconciliation} (h : Separate r.drafts) :
      Path.Increasing Prod.fst (r.stale.map Draft.entry) :=
    List.pairwise_map.mpr (increasing_stale h)
  refine (hincreasing hs).ext (hincreasing hr) fun entry => ?_
  rw [mem_entries hs, mem_entries hr]
  constructor
  · intro hmem
    obtain ⟨p, e, he, hstale, rfl⟩ := hmem
    rcases hb.drafts p with heq | ⟨hnone, _⟩
    · rw [he] at heq
      obtain ⟨d, hd, hentry⟩ := Option.map_eq_some_iff.mp heq.symm
      exact ⟨p, d, hd, by rwa [isStale_congr hentry], hentry⟩
    · rw [he] at hnone
      cases hnone
  · intro hmem
    obtain ⟨p, d, hd, hstale, rfl⟩ := hmem
    rcases hb.drafts p with heq | ⟨_, d', hd', hfresh⟩
    · rw [hd] at heq
      obtain ⟨e, he, hentry⟩ := Option.map_eq_some_iff.mp heq
      exact ⟨p, e, he, by rwa [isStale_congr hentry], hentry⟩
    · -- a draft that was only opened is not stale
      rw [hd] at hd'
      cases hd'
      obtain ⟨text, _, hd⟩ := openDraft_eq_ok_iff.mp hfresh
      rw [Draft.isStale, hd, bne_self_eq_false] at hstale
      cases hstale

/-- What is written of documents can be read off their entries. -/
theorem files_congr {ds es : List Draft} (h : ds.map Draft.entry = es.map Draft.entry) :
    ((ds.map fun d => (d.path, d.current)).map fun f => (f.1.components, f.2)) =
      ((es.map fun d => (d.path, d.current)).map fun f => (f.1.components, f.2)) := by
  have hread (ds : List Draft) :
      ((ds.map fun d => (d.path, d.current)).map fun f => (f.1.components, f.2)) =
        (ds.map Draft.entry).map fun (path, _, current, _) => (path, current) := by
    rw [List.map_map, List.map_map]
    rfl
  rw [hread, hread, h]

/-! ## One document by itself -/

/-- Whether a target fails is settled by the targets of its document. -/
theorem targetsOf_succeeding (h : s.draftAt p = r.draftAt p) :
    c.targetsOf (succeeding store c r ts) p = succeeding store c s (c.targetsOf ts p) := by
  induction ts generalizing r s with
  | nil => rfl
  | cons t ts ih =>
    rw [succeeding]
    by_cases hp : sameDocument (c.targetPath t) p = true
    · have hrest := ih (r := apply store c r t) (s := apply store c s t)
        (by rw [draftAt_apply, draftAt_apply, h])
      have hiff : (apply store c r t).failures = r.failures ↔
          (apply store c s t).failures = s.failures := by
        rw [failures_apply_eq_iff, failures_apply_eq_iff, draft_congr hp h]
      rw [DocsContext.targetsOf_cons_of_pos hp, succeeding]
      split
      · next hok => rw [DocsContext.targetsOf_cons_of_pos hp, if_pos (hiff.mp hok), hrest]
      · next hfail => rw [if_neg (mt hiff.mpr hfail), hrest]
    · have hrest := ih (r := apply store c r t) (s := s) (by rw [draftAt_apply, if_neg hp, h])
      rw [DocsContext.targetsOf_cons_of_neg hp]
      split
      · rw [DocsContext.targetsOf_cons_of_neg hp, hrest]
      · exact hrest

/-- A document whose first target that is left can open it does not see that failed
targets were left out. -/
theorem document_without_failed (h : c.FirstOpens store (succeeding store c {} ts) p) :
    (((succeeding store c {} ts).foldl (apply store c) {}).failures.filter fun f =>
        sameDocument f.file p) = [] ∧
      (((succeeding store c {} ts).foldl (apply store c) {}).stale.filter fun d =>
          sameDocument d.path p).map Draft.entry =
        ((ts.foldl (apply store c) {}).stale.filter fun d => sameDocument d.path p).map
          Draft.entry := by
  have hkept : c.targetsOf (succeeding store c {} ts) p =
      succeeding store c {} (c.targetsOf ts p) := targetsOf_succeeding rfl
  have hfirst (q : Path) : c.FirstOpens store (succeeding store c {} (c.targetsOf ts p)) q := by
    intro t rest hq
    rw [← hkept, DocsContext.targetsOf_targetsOf] at hq
    split at hq
    · exact h t rest hq
    · cases hq
  obtain ⟨hb, hfail⟩ := behind_run behind_nil fun q _ => hfirst q
  rw [filter_failures_run, filter_stale_run, filter_stale_run, hkept]
  exact ⟨hfail, entries_of_behind hb separate_run separate_run⟩

/-! ## Failures in target order -/

theorem succeeding_sublist : (succeeding store c r ts).Sublist ts := by
  induction ts generalizing r with
  | nil => exact List.Sublist.slnil
  | cons t ts ih =>
    rw [succeeding]
    split
    · exact ih.cons_cons t
    · exact ih.cons t

theorem failuresOf_sublist {o : Except RegionProblem Draft} :
    ((failuresOf c t o).map fun f => (f.file, f.component)).Sublist
      [(c.targetPath t, t.component)] := by
  cases o with
  | error problem => exact List.Sublist.refl _
  | ok d =>
    rw [failuresOf]
    split
    · exact List.nil_sublist _
    · exact List.Sublist.refl _

/-- **Failures come in target order**, at most one for each target. -/
theorem failures_sublist (store : Store) (c : DocsContext) (ts : List Target) :
    ((ts.foldl (apply store c) {}).failures.map fun f => (f.file, f.component)).Sublist
      (ts.map fun t => (c.targetPath t, t.component)) := by
  induction ts using List.reverseRecOn with
  | nil => exact List.Sublist.refl _
  | append_singleton ts t ih =>
    rw [List.foldl_append, List.foldl_cons, List.foldl_nil, failures_apply, List.map_append,
      List.map_append]
    exact ih.append failuresOf_sublist

theorem length_failures_add (store : Store) (c : DocsContext) (r : Reconciliation)
    (ts : List Target) :
    (ts.foldl (apply store c) r).failures.length + (succeeding store c r ts).length =
      r.failures.length + ts.length := by
  induction ts generalizing r with
  | nil => rfl
  | cons t ts ih =>
    rw [List.foldl_cons, succeeding, List.length_cons]
    split
    · next h =>
      have hrest := ih (apply store c r t)
      rw [h] at hrest
      rw [List.length_cons]
      omega
    · next h =>
      -- a target that fails reports once
      have hone := failuresOf_sublist (c := c) (t := t) (o := draft store r (c.targetPath t))
        |>.length_le
      have hrest := ih (apply store c r t)
      rw [failures_apply, List.append_right_eq_self, ← ne_eq, ← List.length_pos_iff] at h
      rw [failures_apply, List.length_append] at hrest
      rw [List.length_map, List.length_singleton] at hone
      omega

end Reconciliation

theorem DocsContext.failsInOrder (store : Store) (c : DocsContext) : c.FailsInOrder store := by
  refine ⟨failures_sublist store c _, ?_, rfl⟩
  have hlength := (failures_sublist store c c.settings.targets).length_le
  rwa [List.length_map, List.length_map] at hlength

/-- **When failed targets do not matter to the others.** In any context the failures are
those of different targets, in target order. Without the targets that failed, a
document has no failures exactly if the first target that is left of it can open it,
and then its content to write and its stale entry are the same. If that is so of every
document, the documents to write, the counter and the stale documents are the same. -/
theorem failed_targets_apart (store : Store) (c : DocsContext) :
    let kept := c.withoutFailed store
    c.FailsInOrder store ∧ kept.FailsInOrder store ∧
      kept.settings.targets.Sublist c.settings.targets ∧
      (computeUpdates store c).failures.length + kept.settings.targets.length =
        c.settings.targets.length ∧
      (∀ p, (((computeUpdates store kept).failures.filter fun f => sameDocument f.file p) = [] ↔
          c.FirstOpens store kept.settings.targets p) ∧
        (c.FirstOpens store kept.settings.targets p →
          (((computeUpdates store kept).files.filter fun f => sameDocument f.1 p).map fun f =>
              (f.1.components, f.2)) =
            (((computeUpdates store c).files.filter fun f => sameDocument f.1 p).map fun f =>
              (f.1.components, f.2)) ∧
          ((check store kept).stale.filter fun d => sameDocument d.path p).map Draft.entry =
            ((check store c).stale.filter fun d => sameDocument d.path p).map Draft.entry)) ∧
      ((∀ p, c.FirstOpens store kept.settings.targets p) →
        (computeUpdates store kept).failures = [] ∧
          ((computeUpdates store kept).files.map fun f => (f.1.components, f.2)) =
            ((computeUpdates store c).files.map fun f => (f.1.components, f.2)) ∧
          (computeUpdates store kept).updated = (computeUpdates store c).updated ∧
          (check store kept).stale.map Draft.entry = (check store c).stale.map Draft.entry) := by
  intro kept
  refine ⟨c.failsInOrder store, kept.failsInOrder store, succeeding_sublist, ?_, fun p => ?_,
    fun h => ?_⟩
  · have hlength := length_failures_add store c {} c.settings.targets
    rwa [List.length_nil, Nat.zero_add] at hlength
  · refine ⟨⟨firstOpens_of_filter_failures, fun h => (document_without_failed h).1⟩, fun h => ?_⟩
    obtain ⟨_, hstale⟩ := document_without_failed h
    refine ⟨?_, hstale⟩
    show (((reconcile store kept).stale.map fun d => (d.path, d.current)).filter _).map _ =
      (((reconcile store c).stale.map fun d => (d.path, d.current)).filter _).map _
    rw [List.filter_map, List.filter_map]
    exact files_congr hstale
  · obtain ⟨hb, hfail⟩ := behind_run behind_nil fun p _ => h p
    have hstale : (reconcile store kept).stale.map Draft.entry =
        (reconcile store c).stale.map Draft.entry :=
      entries_of_behind hb separate_run separate_run
    exact ⟨hfail, files_congr hstale, hb.updated, hstale⟩

/-! ## A target that others rely on -/

namespace Sample

/-- The sample document as it is opened. -/
def opened : Draft := { path := ⟨"d/a".toList⟩, stored := document, current := document }

variable {targets : List Target} {file : Text}

theorem openDraft_document : openDraft checkout ⟨"d/a".toList⟩ = .ok opened :=
  openDraft_eq_ok_iff.mpr ⟨document, readText_document, rfl⟩

theorem body_document : (markers "c".toList).body? document = none ∧
    ((markers "a".toList).body? document).isSome = true := by
  decide +kernel

/-- The sample document has no region of `c`. -/
theorem failures_missing :
    (apply checkout (context targets) {} (target "a".toList "c".toList)).failures ≠
      ({} : Reconciliation).failures := by
  intro h
  obtain ⟨d, hd, hbody⟩ := failures_apply_eq_iff.mp h
  cases (hd.symm.trans openDraft_document : Except.ok d = Except.ok opened)
  rw [markers_target] at hbody
  rw [show opened.current = document from rfl, body_document.1] at hbody
  cases hbody

/-- It is opened all the same. -/
theorem draftAt_missing :
    (apply checkout (context targets) {} (target "a".toList "c".toList)).draftAt
      ⟨"d/a".toList⟩ = some opened := by
  have hd : draft checkout {} ((context targets).targetPath (target "a".toList "c".toList)) =
      .ok opened := openDraft_document
  have hp : sameDocument ((context targets).targetPath (target "a".toList "c".toList))
      ⟨"d/a".toList⟩ = true := sameDocument_iff.mpr rfl
  rw [draftAt_apply, if_pos hp, advance_of_draft hp hd, after_of_failed hd failures_missing]

theorem succeeding_missing
    (h : sameDocument ((context targets).targetPath (target file "a".toList))
      ⟨"d/a".toList⟩ = true) :
    succeeding checkout (context targets) {}
      [target "a".toList "c".toList, target file "a".toList] = [target file "a".toList] := by
  have hok : (apply checkout (context targets)
      (apply checkout (context targets) {} (target "a".toList "c".toList))
        (target file "a".toList)).failures =
      (apply checkout (context targets) {} (target "a".toList "c".toList)).failures :=
    failures_apply_eq_iff.mpr ⟨opened, draft_of_draftAt h draftAt_missing, body_document.2⟩
  rw [succeeding, if_neg failures_missing, succeeding, if_pos hok, succeeding]

/-- The second target can open the document itself. -/
def unaided : List Target := [target "a".toList "c".toList, target "a".toList "a".toList]

/-- The second target cannot open the document itself. -/
def aided : List Target := [target "a".toList "c".toList, target "a/".toList "a".toList]

end Sample

open Sample in
/-- A failed target that nothing relies on. -/
theorem failed_targets_apart_sample :
    (computeUpdates checkout (context unaided)).failures.length = 1 ∧
    (∀ p, (context unaided).FirstOpens checkout
      ((context unaided).withoutFailed checkout).settings.targets p) ∧
    (computeUpdates checkout ((context unaided).withoutFailed checkout)).failures = [] ∧
    (computeUpdates checkout ((context unaided).withoutFailed checkout)).updated =
      (computeUpdates checkout (context unaided)).updated := by
  have hkept : ((context unaided).withoutFailed checkout).settings.targets =
      [target "a".toList "a".toList] := succeeding_missing (sameDocument_iff.mpr rfl)
  obtain ⟨_, _, _, hlength, _, hsame⟩ := failed_targets_apart checkout (context unaided)
  have hopens (p : Path) : (context unaided).FirstOpens checkout
      ((context unaided).withoutFailed checkout).settings.targets p := by
    intro t rest hfirst
    rw [hkept] at hfirst
    have ht : t ∈ [target "a".toList "a".toList] :=
      (DocsContext.mem_targetsOf.mp (by rw [hfirst]; exact List.mem_cons_self)).1
    rw [List.mem_singleton.mp ht]
    exact opens_iff.mpr ⟨document, readText_document⟩
  rw [hkept] at hlength
  obtain ⟨hnone, _, hupdated, _⟩ := hsame hopens
  exact ⟨Nat.succ.inj hlength, hopens, hnone, hupdated⟩

open Sample in
/-- **A failed target that another relies on**: without it the other one fails. -/
theorem exists_failure_without_failed :
    (computeUpdates checkout ((context aided).withoutFailed checkout)).failures ≠ [] := by
  intro h
  have hkept : ((context aided).withoutFailed checkout).settings.targets =
      [target "a/".toList "a".toList] := succeeding_missing (sameDocument_iff.mpr (by decide))
  have hfirst : (context aided).targetsOf
      ((context aided).withoutFailed checkout).settings.targets ⟨"d/a/".toList⟩ =
        [target "a/".toList "a".toList] := by
    rw [hkept]
    rfl
  have hnone : ((computeUpdates checkout
      ((context aided).withoutFailed checkout)).failures.filter fun f =>
        sameDocument f.file ⟨"d/a/".toList⟩) = [] := by
    rw [h]
    rfl
  have hopen : (context aided).opens checkout (target "a/".toList "a".toList) = true :=
    firstOpens_of_filter_failures hnone _ _ hfirst
  obtain ⟨problem, hclosed⟩ := exists_openDraft_error
  rw [opens_eq_false hclosed] at hopen
  cases hopen

end ModuleDocs

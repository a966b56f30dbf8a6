import ModuleDocs.Proofs.Document.Updates

/-!
# Documents do not see each other

One state is threaded through all targets, and yet nothing of it passes from one
document to another: seen from a path, the run over all targets and the run over the
targets of that path are in the same position at each of them. So they end with the
same draft (`draftAt_alone`) and report the same failures in the same order
(`filter_failures`).

A reordering of the targets that keeps the order within each document therefore
changes nothing but the order in which failures are listed.

Paths are told apart by their components throughout, as the drafts are: `a.md` and
`./a.md` name one document.
-/

namespace ModuleDocs

open Reconciliation

/-- The context with other targets. -/
def DocsContext.withTargets (c : DocsContext) (ts : List Target) : DocsContext :=
  { c with settings := { c.settings with targets := ts } }

variable {store : Store} {c : DocsContext} {ts us : List Target} {t : Target} {p q : Path}
  {r s : Reconciliation}

namespace DocsContext

/-- The targets of a document among those of a document. -/
theorem targetsOf_targetsOf : c.targetsOf (c.targetsOf ts p) q =
    if sameDocument q p then c.targetsOf ts p else [] := by
  rw [targetsOf, targetsOf, List.filter_filter]
  split
  · next h =>
    refine List.filter_congr fun t _ => ?_
    rw [sameDocument_congr rfl (sameDocument_iff.mp h), Bool.and_self]
  · next h =>
    refine List.filter_eq_nil_iff.mpr fun t _ hboth => h ?_
    rw [Bool.and_eq_true, sameDocument_iff, sameDocument_iff] at hboth
    exact sameDocument_iff.mpr (hboth.1.symm.trans hboth.2)

/-- Neighbours that are targets of different documents may trade places. -/
theorem targetsOf_swap {u : Target}
    (h : (c.targetPath t).components ≠ (c.targetPath u).components) :
    c.targetsOf (t :: u :: ts) p = c.targetsOf (u :: t :: ts) p := by
  simp only [targetsOf, List.filter_cons]
  split
  · next ht =>
    have hu : ¬ sameDocument (c.targetPath u) p = true := fun hu =>
      h ((sameDocument_iff.mp ht).trans (sameDocument_iff.mp hu).symm)
    rw [if_neg hu, if_neg hu]
  · rfl

end DocsContext

namespace Reconciliation

/-! ## One document by itself -/

/-- The run over one document's targets has that document's draft and no other. -/
theorem draftAt_alone : ((c.targetsOf ts p).foldl (apply store c) {}).draftAt q =
    if sameDocument q p then (ts.foldl (apply store c) {}).draftAt q else none := by
  rw [draftAt_foldl, draftAt_foldl, DocsContext.targetsOf_targetsOf]
  split
  · next h => rw [DocsContext.targetsOf_congr (sameDocument_iff.mp h)]
  · rfl

/-- A target's reports are filed under its own path. -/
theorem filter_failuresOf {o : Except RegionProblem Draft} :
    (failuresOf c t o).filter (fun f => sameDocument f.file p) =
      if sameDocument (c.targetPath t) p then failuresOf c t o else [] := by
  split
  · next h =>
    refine List.filter_eq_self.mpr fun f hf => ?_
    rw [(file_of_mem_failuresOf hf).1, h]
  · next h =>
    refine List.filter_eq_nil_iff.mpr fun f hf => ?_
    rw [(file_of_mem_failuresOf hf).1]
    exact h

/-- A target goes to the same draft in runs that agree on its document. -/
theorem draft_congr (hp : sameDocument (c.targetPath t) p = true)
    (h : s.draftAt p = r.draftAt p) :
    draft store s (c.targetPath t) = draft store r (c.targetPath t) := by
  rw [draft_eq, draft_eq, draftAt_congr hp, draftAt_congr hp, h]

/-- **The failures of a document** are those of the run over its targets. The two runs
agree on the document's draft, and on what was reported for it so far. -/
theorem filter_failures (hdraft : s.draftAt p = r.draftAt p)
    (hfail : s.failures = r.failures.filter fun f => sameDocument f.file p) :
    ((ts.foldl (apply store c) r).failures.filter fun f => sameDocument f.file p) =
      ((c.targetsOf ts p).foldl (apply store c) s).failures := by
  induction ts generalizing r s with
  | nil => exact hfail.symm
  | cons t ts ih =>
    rw [List.foldl_cons, DocsContext.targetsOf, List.filter_cons]
    split
    · next hp =>
      -- both runs apply the target to the same draft
      refine ih ?_ ?_
      · rw [draftAt_apply, draftAt_apply, hdraft]
      · rw [failures_apply, failures_apply, List.filter_append, filter_failuresOf, if_pos hp,
          hfail, draft_congr hp hdraft]
    · next hp =>
      -- the target is none of the document
      refine ih ?_ ?_
      · rw [draftAt_apply, if_neg hp, hdraft]
      · rw [failures_apply, List.filter_append, filter_failuresOf, if_neg hp, List.append_nil,
          hfail]

theorem filter_failures_run :
    ((ts.foldl (apply store c) {}).failures.filter fun f => sameDocument f.file p) =
      ((c.targetsOf ts p).foldl (apply store c) {}).failures :=
  filter_failures rfl rfl

/-- **The stale entry of a document** is that of the run over its targets. -/
theorem filter_stale_run :
    ((ts.foldl (apply store c) {}).stale.filter fun d => sameDocument d.path p) =
      ((c.targetsOf ts p).foldl (apply store c) {}).stale := by
  refine Path.Increasing.ext (List.Pairwise.sublist List.filter_sublist
    (increasing_stale separate_run)) (increasing_stale separate_run) fun d => ?_
  rw [List.mem_filter, mem_stale_iff separate_run, mem_stale_iff separate_run, draftAt_alone]
  cases sameDocument d.path p <;> simp

/-! ## Reordered targets -/

section Reordered

variable (h : ∀ p, c.targetsOf us p = c.targetsOf ts p)

include h

theorem draftAt_reordered :
    (us.foldl (apply store c) {}).draftAt p = (ts.foldl (apply store c) {}).draftAt p := by
  rw [draftAt_foldl, draftAt_foldl, h]

/-- The failures of each document are the same, so they are the same altogether. -/
theorem perm_failures_reordered :
    (us.foldl (apply store c) {}).failures.Perm (ts.foldl (apply store c) {}).failures := by
  refine List.perm_iff_count.mpr fun f => ?_
  have hcount (fs : List TargetFailure) :
      fs.count f = (fs.filter fun g => sameDocument g.file f.file).count f :=
    (List.count_filter (p := fun g : TargetFailure => sameDocument g.file f.file)
      (sameDocument_iff.mpr rfl)).symm
  rw [hcount, filter_failures_run, h, ← filter_failures_run, ← hcount]

end Reordered

end Reconciliation

/-- **Documents are reconciled independently.** What a path's document comes to — its
new content, its stale entry, its failures — is what the targets of that path alone
bring about. So targets may be put in any order that keeps those of each path as they
are: the documents to write, the counter and the stale documents are the same, and the
failures are the same up to their order. -/
theorem reconcile_independent (store : Store) (c : DocsContext) :
    (∀ p, let alone := c.withTargets (c.targetsOf c.settings.targets p)
      ((computeUpdates store c).files.filter fun f => sameDocument f.1 p) =
          (computeUpdates store alone).files ∧
        ((check store c).stale.filter fun d => sameDocument d.path p) =
          (check store alone).stale ∧
        ((computeUpdates store c).failures.filter fun f => sameDocument f.file p) =
          (computeUpdates store alone).failures ∧
        ((check store c).failures.filter fun f => sameDocument f.file p) =
          (check store alone).failures) ∧
    ∀ ts, (∀ p, c.targetsOf ts p = c.targetsOf c.settings.targets p) →
      let reordered := c.withTargets ts
      (computeUpdates store reordered).files = (computeUpdates store c).files ∧
        (computeUpdates store reordered).updated = (computeUpdates store c).updated ∧
        (check store reordered).stale = (check store c).stale ∧
        (computeUpdates store reordered).failures.Perm (computeUpdates store c).failures ∧
        (check store reordered).failures.Perm (check store c).failures := by
  constructor
  · intro p alone
    have hstale : ((reconcile store c).stale.filter fun d => sameDocument d.path p) =
        (reconcile store alone).stale := filter_stale_run
    have hfail : ((reconcile store c).failures.filter fun f => sameDocument f.file p) =
        (reconcile store alone).failures := filter_failures_run
    refine ⟨?_, hstale, hfail, hfail⟩
    show ((reconcile store c).stale.map fun d => (d.path, d.current)).filter _ =
      (reconcile store alone).stale.map _
    rw [← hstale, List.filter_map]
    rfl
  · intro ts h reordered
    obtain ⟨hstale, hchanges⟩ : (reconcile store reordered).stale = (reconcile store c).stale ∧
        changes (reconcile store reordered).drafts = changes (reconcile store c).drafts :=
      outcome_congr separate_run separate_run fun p => draftAt_reordered h
    have hupdated : (reconcile store reordered).updated = (reconcile store c).updated :=
      updated_run.trans (hchanges.trans updated_run.symm)
    have hfail : (reconcile store reordered).failures.Perm (reconcile store c).failures :=
      perm_failures_reordered h
    refine ⟨?_, hupdated, hstale, hfail, hfail⟩
    show (reconcile store reordered).stale.map _ = (reconcile store c).stale.map _
    rw [hstale]

/-! ## Two documents -/

namespace Sample

/-- Targets of two documents, one of them missing, in turn. -/
def interleaved : List Target :=
  [target "a".toList "a".toList, target "b".toList "a".toList, target "a".toList "b".toList]

/-- The same targets, one document after the other. -/
def grouped : List Target :=
  [target "b".toList "a".toList, target "a".toList "a".toList, target "a".toList "b".toList]

end Sample

open Sample in
/-- The targets of a missing document may come first. -/
theorem reconcile_independent_sample :
    (∀ p, (context interleaved).targetsOf grouped p =
      (context interleaved).targetsOf interleaved p) ∧
    (computeUpdates checkout ((context interleaved).withTargets grouped)).files =
      (computeUpdates checkout (context interleaved)).files ∧
    (computeUpdates checkout ((context interleaved).withTargets grouped)).updated =
      (computeUpdates checkout (context interleaved)).updated := by
  have h : ∀ p, (context interleaved).targetsOf grouped p =
      (context interleaved).targetsOf interleaved p := fun p =>
    DocsContext.targetsOf_swap (by decide)
  obtain ⟨_, hreordered⟩ := reconcile_independent checkout (context interleaved)
  obtain ⟨hfiles, hupdated, _⟩ := hreordered grouped h
  exact ⟨h, hfiles, hupdated⟩

end ModuleDocs

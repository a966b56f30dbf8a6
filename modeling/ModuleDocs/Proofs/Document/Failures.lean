import Mathlib.Data.List.TakeWhile
import ModuleDocs.Proofs.Document.Drafts

/-!
# What a run reports

A target reports at most one failure, and only at its own turn: its document
cannot be opened, or its region is missing from the draft it goes to
(`mem_failures_run`). What that draft is depends on the targets before it alone:
nothing was applied to the document yet, or it holds what they put into it
(`draft_run_error_iff`, `draft_run_ok`).
-/

namespace ModuleDocs

open Reconciliation

namespace DocsContext

variable {store : Store} {c : DocsContext} {t : Target} {us vs ts : List Target} {p q : Path}

/-! ## The targets of a document -/

theorem mem_targetsOf : t ∈ c.targetsOf ts p ↔ t ∈ ts ∧ sameDocument (c.targetPath t) p = true :=
  List.mem_filter

theorem targetsOf_cons_of_pos (h : sameDocument (c.targetPath t) p = true) :
    c.targetsOf (t :: ts) p = t :: c.targetsOf ts p :=
  List.filter_cons_of_pos h

theorem targetsOf_cons_of_neg (h : ¬ sameDocument (c.targetPath t) p = true) :
    c.targetsOf (t :: ts) p = c.targetsOf ts p :=
  List.filter_cons_of_neg h

theorem targetsOf_congr (h : p.components = q.components) :
    c.targetsOf ts p = c.targetsOf ts q := by
  simp only [targetsOf, sameDocument_congr rfl h]

theorem appliedTo_congr (h : p.components = q.components) :
    c.appliedTo store ts p = c.appliedTo store ts q := by
  rw [appliedTo, appliedTo, targetsOf_congr h]

/-- Which targets are applied is a matter of which can open it. -/
theorem appliedTo_congr_opens {store' : Store}
    (h : ∀ t ∈ ts, c.opens store t = c.opens store' t) :
    c.appliedTo store ts p = c.appliedTo store' ts p := by
  have hmem : ∀ t ∈ c.targetsOf ts p, c.opens store t = c.opens store' t :=
    fun t ht => h t (mem_targetsOf.mp ht).1
  rw [appliedTo, appliedTo]
  generalize c.targetsOf ts p = us at hmem
  induction us with
  | nil => rfl
  | cons t us ih =>
    rw [List.dropWhile_cons, List.dropWhile_cons, hmem t (by simp),
      ih fun u hu => hmem u (by simp [hu])]

theorem appliedTo_suffix : c.appliedTo store ts p <:+ c.targetsOf ts p :=
  List.dropWhile_suffix _

theorem appliedTo_subset : c.appliedTo store ts p ⊆ c.targetsOf ts p :=
  appliedTo_suffix.subset

theorem mem_of_appliedTo (h : t ∈ c.appliedTo store ts p) :
    t ∈ ts ∧ sameDocument (c.targetPath t) p = true :=
  mem_targetsOf.mp (appliedTo_subset h)

theorem targetsOf_append : c.targetsOf (us ++ vs) p = c.targetsOf us p ++ c.targetsOf vs p :=
  List.filter_append ..

/-- More targets are applied behind those that already are. -/
theorem appliedTo_append : c.appliedTo store (us ++ vs) p =
    if c.appliedTo store us p = [] then c.appliedTo store vs p
    else c.appliedTo store us p ++ c.targetsOf vs p := by
  rw [appliedTo, targetsOf_append, List.dropWhile_append, ← appliedTo, ← appliedTo]
  cases c.appliedTo store us p <;> rfl

/-- A target that cannot open its document is passed by. -/
theorem appliedTo_cons_of_error {e : RegionProblem}
    (h : openDraft store (c.targetPath t) = .error e) :
    c.appliedTo store (t :: ts) p = c.appliedTo store ts p := by
  rw [appliedTo, appliedTo, targetsOf, targetsOf, List.filter_cons]
  split
  · rw [List.dropWhile_cons_of_pos (by rw [opens_eq_false h]; rfl)]
  · rfl

/-- Nothing is applied to a document that no target can open. -/
theorem appliedTo_eq_nil_iff :
    c.appliedTo store ts p = [] ↔ ∀ t ∈ c.targetsOf ts p, c.opens store t = false := by
  simp [appliedTo, List.dropWhile_eq_nil_iff]

end DocsContext

/-- What a target reports about the draft it goes to. -/
def failuresOf (c : DocsContext) (t : Target) : Except RegionProblem Draft → List TargetFailure
  | .error e => [⟨c.targetPath t, t.component, e⟩]
  | .ok d =>
    if ((c.markers t).body? d.current).isSome then []
    else [⟨c.targetPath t, t.component, .noMarkers t.component c.settings.sourceId⟩]

namespace Reconciliation

variable {store : Store} {c : DocsContext} {r : Reconciliation} {t : Target} {p : Path}
  {d : Draft} {us ts : List Target} {f : TargetFailure}

/-! ## Reports -/

theorem failures_apply : (apply store c r t).failures =
    r.failures ++ failuresOf c t (draft store r (c.targetPath t)) := by
  cases hd : draft store r (c.targetPath t) with
  | error e => rw [apply_of_error hd, failuresOf]
  | ok d => rw [(apply_of_ok hd).2, failuresOf]

/-- **What a run reports**: what each target reports at its turn. -/
theorem mem_failures_run : f ∈ (ts.foldl (apply store c) {}).failures ↔
    ∃ us t vs, ts = us ++ t :: vs ∧
      f ∈ failuresOf c t (draft store (us.foldl (apply store c) {}) (c.targetPath t)) := by
  induction ts using List.reverseRecOn with
  | nil => simp
  | append_singleton ts u ih =>
    -- the last target reports at its turn, the others as in the run before it
    rw [List.foldl_append, List.foldl_cons, List.foldl_nil, failures_apply, List.mem_append, ih]
    constructor
    · intro h
      rcases h with ⟨us, t, vs, rfl, h⟩ | h
      · exact ⟨us, t, vs ++ [u], by simp, h⟩
      · exact ⟨ts, u, [], rfl, h⟩
    · intro h
      obtain ⟨us, t, vs, heq, h⟩ := h
      rcases List.eq_nil_or_concat vs with rfl | ⟨ws, w, rfl⟩
      · obtain ⟨hus, hu⟩ := List.append_inj' heq rfl
        rw [hus, List.singleton_inj.mp hu]
        exact Or.inr h
      · rw [List.concat_eq_append, ← List.cons_append, ← List.append_assoc] at heq
        obtain ⟨hts, _⟩ := List.append_inj' heq rfl
        exact Or.inl ⟨us, t, ws, hts, h⟩

theorem file_of_mem_failuresOf {o : Except RegionProblem Draft} (h : f ∈ failuresOf c t o) :
    f.file = c.targetPath t ∧ f.component = t.component := by
  cases o with
  | error e =>
    rw [List.mem_singleton.mp h]
    exact ⟨rfl, rfl⟩
  | ok d =>
    rw [failuresOf] at h
    split at h
    · cases h
    · rw [List.mem_singleton.mp h]
      exact ⟨rfl, rfl⟩

theorem failuresOf_eq_nil_iff {o : Except RegionProblem Draft} :
    failuresOf c t o = [] ↔ ∃ d, o = .ok d ∧ ((c.markers t).body? d.current).isSome := by
  cases o <;> simp [failuresOf, Option.isSome_iff_ne_none]

/-! ## The draft a target goes to -/

/-- A document has no draft at a target's turn if nothing was applied to it and the
target cannot open it either. -/
theorem draft_run_error_iff {e : RegionProblem} :
    draft store (us.foldl (apply store c) {}) p = .error e ↔
      c.appliedTo store us p = [] ∧ openDraft store p = .error e := by
  rw [draft_eq]
  cases hd : (us.foldl (apply store c) {}).draftAt p with
  | some d =>
    constructor
    · intro h
      cases h
    · intro h
      obtain ⟨hnil, _⟩ := h
      rw [draftAt_run_eq_none_iff.mpr hnil] at hd
      cases hd
  | none =>
    simp [draftAt_run_eq_none_iff.mp hd]

/-- The draft at a target's turn holds what was put into its document so far. -/
theorem draft_run_ok (h : draft store (us.foldl (apply store c) {}) (c.targetPath t) = .ok d) :
    ∃ v ∈ us ++ [t], sameDocument (c.targetPath v) (c.targetPath t) = true ∧
      store.readText (c.targetPath v) = .ok d.stored ∧
      d.current = putAll (c.jobs (c.appliedTo store us (c.targetPath t))) d.stored := by
  have hsame := path_of_draft h
  rw [draft_eq] at h
  cases hd : (us.foldl (apply store c) {}).draftAt (c.targetPath t) with
  | some e =>
    rw [hd] at h
    cases h
    obtain ⟨v, rest, happ, hpath, hread, hcur⟩ := draftAt_run hd
    rw [hpath] at hsame hread
    have hv : v ∈ c.appliedTo store us (c.targetPath t) := by rw [happ]; simp
    refine ⟨v, ?_, hsame, hread, by rw [happ]; exact hcur⟩
    exact List.mem_append_left _ (DocsContext.mem_of_appliedTo hv).1
  | none =>
    rw [hd] at h
    obtain ⟨text, ht, rfl⟩ := openDraft_eq_ok_iff.mp h
    refine ⟨t, by simp, sameDocument_iff.mpr rfl, ht, ?_⟩
    rw [draftAt_run_eq_none_iff.mp hd]
    rfl

/-! ## Applied or reported -/

/-- A target that has a draft to go to is applied. -/
theorem mem_appliedTo_of_draft (vs : List Target)
    (h : draft store (us.foldl (apply store c) {}) (c.targetPath t) = .ok d) :
    t ∈ c.appliedTo store (us ++ t :: vs) (c.targetPath t) := by
  have hself : t ∈ c.targetsOf (t :: vs) (c.targetPath t) :=
    DocsContext.mem_targetsOf.mpr ⟨by simp, sameDocument_iff.mpr rfl⟩
  rw [DocsContext.appliedTo_append]
  split
  · next hnil =>
    have hopen : c.opens store t = true := by
      cases ho : openDraft store (c.targetPath t) with
      | error e =>
        rw [draft_run_error_iff.mpr ⟨hnil, ho⟩] at h
        cases h
      | ok e => exact opens_eq_true ho
    have hfilter : c.targetsOf (t :: vs) (c.targetPath t) =
        t :: c.targetsOf vs (c.targetPath t) :=
      List.filter_cons_of_pos (sameDocument_iff.mpr rfl)
    rw [DocsContext.appliedTo, hfilter, List.dropWhile_cons_of_neg (by simp [hopen])]
    exact List.mem_cons_self
  · exact List.mem_append_right _ hself

/-- A target that is not applied to its document is reported for its path. -/
theorem reported_of_not_applied (ht : t ∈ c.settings.targets)
    (hnot : t ∉ c.appliedTo store c.settings.targets (c.targetPath t)) :
    ∃ e, openDraft store (c.targetPath t) = .error e ∧
      ⟨c.targetPath t, t.component, e⟩ ∈ (computeUpdates store c).failures := by
  obtain ⟨us, vs, hts⟩ := List.append_of_mem ht
  cases hd : draft store (us.foldl (apply store c) {}) (c.targetPath t) with
  | ok d =>
    rw [hts] at hnot
    exact absurd (mem_appliedTo_of_draft vs hd) hnot
  | error e =>
    refine ⟨e, (draft_run_error_iff.mp hd).2, mem_failures_run.mpr ⟨us, t, vs, hts, ?_⟩⟩
    rw [hd]
    exact List.mem_singleton_self _

end Reconciliation

end ModuleDocs

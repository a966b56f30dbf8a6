import ModuleDocs.Proofs.Document.Segments
import ModuleDocs.Proofs.Document.Updates

/-!
# An update leaves nothing to do

A check after an update searches documents that the update wrote. That it finds
them up to date rests on two facts. In the written text every region is found
again, with the content that was put there, so filling it once more changes
nothing (`putAll_putAll`). And a target is in the same position as before: its
document can be opened as before (`openDraft_after_iff`), so the same targets are
applied, and its region is there if it was there before (`body_after`).

What keeps the documents apart is `PathsApart`: different paths lead to
different files. Then a file is written by the update of its own document only
(`readText_after`).
-/

namespace ModuleDocs

open Reconciliation

/-- Target paths that denote one file spell one document. -/
def DocsContext.PathsApart (store : Store) (c : DocsContext) : Prop :=
  ∀ t ∈ c.settings.targets, ∀ u ∈ c.settings.targets, store.isFile (c.targetPath t) = true →
    store.canonical? (c.targetPath t) = store.canonical? (c.targetPath u) →
    sameDocument (c.targetPath t) (c.targetPath u) = true

variable {store after : Store} {c : DocsContext} {t v : Target} {us : List Target} {p : Path}
  {text : Text}

section After

variable (hw : writeUpdates store (computeUpdates store c) = .ok after)

include hw

/-! ## Documents after an update -/

/-- What can be read after an update could be read before. -/
theorem exists_readText_of_after (h : after.readText p = .ok text) :
    ∃ stored, store.readText p = .ok stored := by
  obtain ⟨_, hok, hlay, hafter⟩ := writeUpdates_spec store c
  rw [hw] at hok
  cases hok
  obtain ⟨loc, hloc, ht⟩ := Store.readText_eq_ok_iff.mp h
  rw [Store.canonical?_eq hlay] at hloc
  rw [hafter, Option.map_eq_some_iff] at ht
  obtain ⟨stored, hstored, _⟩ := ht
  exact ⟨stored, Store.readText_eq_ok_iff.mpr ⟨loc, hloc, hstored⟩⟩

/-- A document that cannot be opened before an update cannot be opened after it, for
the same reason. -/
theorem openDraft_after {e : RegionProblem} (h : openDraft store p = .error e) :
    openDraft after p = .error e := by
  obtain ⟨_, hok, hlay, _⟩ := writeUpdates_spec store c
  rw [hw] at hok
  cases hok
  rw [openDraft_eq_error_iff] at h ⊢
  obtain ⟨hread, he⟩ := h
  refine ⟨fun text ht => ?_, by rw [he, Store.isFile_eq hlay]⟩
  obtain ⟨stored, hs⟩ := exists_readText_of_after hw ht
  exact hread stored hs

variable (hapart : c.PathsApart store)

include hapart

/-- **A document after an update** is the filled document. -/
theorem readText_after (hv : v ∈ c.settings.targets)
    (hread : store.readText (c.targetPath v) = .ok text) :
    after.readText (c.targetPath v) = .ok (c.filled store (c.targetPath v) text) := by
  obtain ⟨_, hok, hlay, hafter⟩ := writeUpdates_spec store c
  rw [hw] at hok
  cases hok
  obtain ⟨loc, hloc, ht⟩ := Store.readText_eq_ok_iff.mp hread
  refine Store.readText_eq_ok_iff.mpr ⟨loc, by rw [Store.canonical?_eq hlay, hloc], ?_⟩
  rw [hafter, ht, Option.map_some]
  refine congrArg some ?_
  cases hlast : Store.lastWritten store loc (computeUpdates store c).files with
  | some f =>
    -- the file is written by the update of its own document
    obtain ⟨hf, hfloc⟩ := Store.mem_of_lastWritten hlast
    obtain ⟨u, hu, hpath⟩ := exists_target_of_mem_files hf
    obtain ⟨b, hb⟩ := Store.textAt?_some_file ht
    rw [← hpath] at hfloc
    have hsame := hapart v hv u hu (Store.isFile_iff.mpr ⟨loc, b, hloc, hb⟩) (hloc.trans hfloc.symm)
    show c.filled store f.1 text = c.filled store (c.targetPath v) text
    rw [← hpath]
    exact DocsContext.filled_congr (sameDocument_iff.mp hsame).symm
  | none =>
    by_contra hne
    obtain ⟨f, hf, hcomp, hfread, _⟩ := exists_mem_files hv hread (Ne.symm hne)
    obtain ⟨loc', hloc', _⟩ := Store.readText_eq_ok_iff.mp hfread
    rw [Store.canonical?_unique hcomp hloc' hloc] at hloc'
    exact Store.lastWritten_eq_none_iff.mp hlast f hf hloc'

/-- What is read after an update is a filled document. -/
theorem exists_filled_of_after (hv : v ∈ c.settings.targets)
    (h : after.readText (c.targetPath v) = .ok text) :
    ∃ stored, store.readText (c.targetPath v) = .ok stored ∧
      text = c.filled store (c.targetPath v) stored := by
  obtain ⟨stored, hstored⟩ := exists_readText_of_after hw h
  have hfilled := readText_after hw hapart hv hstored
  exact ⟨stored, hstored, Except.ok.inj (h.symm.trans hfilled)⟩

theorem openDraft_after_iff {e : RegionProblem} (hv : v ∈ c.settings.targets) :
    openDraft after (c.targetPath v) = .error e ↔ openDraft store (c.targetPath v) = .error e := by
  constructor
  · intro h
    cases ho : openDraft store (c.targetPath v) with
    | error e' => rw [← h, openDraft_after hw ho]
    | ok d =>
      obtain ⟨text, hread, _⟩ := openDraft_eq_ok_iff.mp ho
      exact absurd (readText_after hw hapart hv hread) ((openDraft_eq_error_iff.mp h).1 _)
  · exact openDraft_after hw

/-- The same targets are applied after an update. -/
theorem appliedTo_after (hus : us ⊆ c.settings.targets) :
    c.appliedTo after us p = c.appliedTo store us p := by
  refine DocsContext.appliedTo_congr_opens fun v hv => ?_
  rw [Bool.eq_iff_iff, opens_iff, opens_iff]
  constructor
  · intro h
    obtain ⟨text, h⟩ := h
    exact exists_readText_of_after hw h
  · intro h
    obtain ⟨text, h⟩ := h
    exact ⟨_, readText_after hw hapart (hus hv) h⟩

/-! ## Failures after an update -/

variable (htidy : c.TidyIn store)

include htidy

/-- A region is in the draft of its document after an update if it was before. -/
theorem body_after {d d' : Draft} (ht : t ∈ c.settings.targets) (hus : us ⊆ c.settings.targets)
    (hd : draft store (us.foldl (apply store c) {}) (c.targetPath t) = .ok d)
    (hd' : draft after (us.foldl (apply after c) {}) (c.targetPath t) = .ok d') :
    ((c.markers t).body? d'.current).isSome = ((c.markers t).body? d.current).isSome := by
  obtain ⟨v, hv, hsame, hread, hcur⟩ := draft_run_ok hd
  obtain ⟨v', hv', hsame', hread', hcur'⟩ := draft_run_ok hd'
  have hmem : ∀ w ∈ us ++ [t], w ∈ c.settings.targets := by
    intro w hw
    rcases List.mem_append.mp hw with h | h
    · exact hus h
    · rwa [List.mem_singleton.mp h]
  -- both drafts began from the text in the store
  have hcomp := sameDocument_iff.mp hsame
  have hcomp' := sameDocument_iff.mp hsame'
  obtain ⟨stored, hstored, hfilled⟩ := exists_filled_of_after hw hapart (hmem v' hv') hread'
  rw [hfilled, Store.readText_unique (hcomp'.trans hcomp.symm) hstored hread,
    DocsContext.filled_congr hcomp', DocsContext.filled, appliedTo_after hw hapart hus] at hcur'
  have htidy' := htidy v (hmem v hv) d.stored hread
  rw [DocsContext.targetsOf_congr hcomp] at htidy'
  -- and no run of updates makes or loses a region
  have hsub : c.appliedTo store us (c.targetPath t) ⊆
      c.targetsOf c.settings.targets (c.targetPath t) :=
    List.Subset.trans DocsContext.appliedTo_subset (List.filter_subset _ hus)
  have hsub' : c.appliedTo store c.settings.targets (c.targetPath t) ⊆
      c.targetsOf c.settings.targets (c.targetPath t) := DocsContext.appliedTo_subset
  have hself : t ∈ c.targetsOf c.settings.targets (c.targetPath t) :=
    DocsContext.mem_targetsOf.mpr ⟨ht, sameDocument_iff.mpr rfl⟩
  rw [hcur, hcur', htidy'.body_isSome hsub hself,
    (htidy'.after_putAll hsub').body_isSome hsub hself, htidy'.body_isSome hsub' hself]

/-- **A target fails after an update as it did before.** -/
theorem failuresOf_after (ht : t ∈ c.settings.targets) (hus : us ⊆ c.settings.targets) :
    failuresOf c t (draft after (us.foldl (apply after c) {}) (c.targetPath t)) =
      failuresOf c t (draft store (us.foldl (apply store c) {}) (c.targetPath t)) := by
  have herror {e : RegionProblem} :
      draft after (us.foldl (apply after c) {}) (c.targetPath t) = .error e ↔
        draft store (us.foldl (apply store c) {}) (c.targetPath t) = .error e := by
    rw [draft_run_error_iff, draft_run_error_iff, appliedTo_after hw hapart hus,
      openDraft_after_iff hw hapart ht]
  cases hd' : draft after (us.foldl (apply after c) {}) (c.targetPath t) with
  | error e => rw [herror.mp hd']
  | ok d' =>
    cases hd : draft store (us.foldl (apply store c) {}) (c.targetPath t) with
    | error e =>
      rw [herror.mpr hd] at hd'
      cases hd'
    | ok d => rw [failuresOf, failuresOf, body_after hw hapart htidy ht hus hd hd']

theorem failures_after (hus : us ⊆ c.settings.targets) :
    (us.foldl (apply after c) {}).failures = (us.foldl (apply store c) {}).failures := by
  induction us using List.reverseRecOn with
  | nil => rfl
  | append_singleton us t ih =>
    have hus' : us ⊆ c.settings.targets := fun u hu => hus (List.mem_append_left _ hu)
    have ht : t ∈ c.settings.targets := hus (by simp)
    rw [List.foldl_append, List.foldl_append]
    show (apply after c _ t).failures = (apply store c _ t).failures
    rw [failures_apply, failures_apply, ih hus', failuresOf_after hw hapart htidy ht hus']

/-! ## Nothing left to do -/

/-- No document differs from its draft after an update. -/
theorem stale_after : (reconcile after c).stale = [] := by
  refine List.eq_nil_iff_forall_not_mem.mpr fun d hd => ?_
  obtain ⟨hat, hstale⟩ := (mem_stale_iff separate_run).mp hd
  refine isStale_iff.mp hstale ?_
  obtain ⟨t, rest, happ, hpath, hread, hcur⟩ := draftAt_run hat
  have hmem : t ∈ c.appliedTo after c.settings.targets d.path := by rw [happ]; simp
  have ht := (DocsContext.mem_of_appliedTo hmem).1
  rw [← happ, appliedTo_after hw hapart (List.Subset.refl _)] at hcur
  rw [hpath] at hread hcur
  -- the text that was read has been filled once
  obtain ⟨text, htext, hd⟩ := exists_filled_of_after hw hapart ht hread
  have htidy' := htidy t ht text htext
  rw [hcur, hd, DocsContext.filled]
  exact putAll_putAll htidy'.proper htidy'.settled
    (htidy'.harmless DocsContext.appliedTo_subset)

end After

/-- **Reconciliation converges.** Once an update is written, a check finds no stale
document, another update writes nothing, and both report what the first one did. -/
theorem reconcile_converges (hapart : c.PathsApart store) (htidy : c.TidyIn store) :
    ∃ after, writeUpdates store (computeUpdates store c) = .ok after ∧
      (check after c).stale = [] ∧ (computeUpdates after c).files = [] ∧
      (check after c).failures = (computeUpdates store c).failures ∧
      (computeUpdates after c).failures = (computeUpdates store c).failures := by
  obtain ⟨after, hw, _⟩ := writeUpdates_spec store c
  have hstale := stale_after hw hapart htidy
  have hfail : (reconcile after c).failures = (reconcile store c).failures :=
    failures_after hw hapart htidy (List.Subset.refl _)
  refine ⟨after, hw, hstale, ?_, hfail, hfail⟩
  show (reconcile after c).stale.map _ = []
  rw [hstale, List.map_nil]

/-- Two targets that share a document. -/
theorem reconcile_converges_sample :
    let c := Sample.context
      [Sample.target "a".toList "a".toList, Sample.target "a".toList "b".toList]
    ∃ after, writeUpdates Sample.checkout (computeUpdates Sample.checkout c) = .ok after ∧
      (check after c).stale = [] ∧ (computeUpdates after c).files = [] := by
  intro c
  have hapart : c.PathsApart Sample.checkout := by
    intro t ht u hu _ _
    simp only [c, Sample.context, List.mem_cons, List.not_mem_nil, or_false] at ht hu
    rcases ht with rfl | rfl <;> rcases hu with rfl | rfl <;> exact sameDocument_iff.mpr rfl
  have htidy : c.TidyIn Sample.checkout := Sample.tidyIn fun t ht => by
    simp only [List.mem_cons, List.not_mem_nil, or_false] at ht
    exact ⟨_, ht⟩
  obtain ⟨after, hw, hstale, hfiles, _⟩ := reconcile_converges hapart htidy
  exact ⟨after, hw, hstale, hfiles⟩

end ModuleDocs

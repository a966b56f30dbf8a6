import ModuleDocs.Proofs.Document.Failures
import ModuleDocs.Proofs.Path.Order

/-!
# What a run comes to

A run ends with its drafts in the order in which they were opened, and with a
counter that was raised along the way. Neither shows in the outcome: the stale
documents are put in path order (`increasing_stale`), and the counter is the number
of changes that the drafts record (`updated_run`). So what is stale and how much was
updated is settled by the drafts as a set, that is, by `draftAt`.
-/

namespace ModuleDocs

open Reconciliation

namespace Reconciliation

/-- No two drafts are of one document. -/
def Separate (drafts : List Draft) : Prop := (drafts.map (·.path.components)).Nodup

/-- How many changes the drafts record. -/
def changes (drafts : List Draft) : Nat := (drafts.flatMap (·.changed)).length

variable {store : Store} {c : DocsContext} {r : Reconciliation} {t : Target} {p : Path}
  {d e : Draft} {drafts : List Draft} {ts : List Target}

theorem separate_run : Separate (ts.foldl (apply store c) {}).drafts := nodup_run

/-! ## One draft among others -/

/-- The drafts of a document: there is one or none. -/
theorem filter_sameDocument (h : Separate drafts) :
    (drafts.filter fun e => sameDocument e.path p) =
      (drafts.find? fun e => sameDocument e.path p).toList := by
  induction drafts with
  | nil => rfl
  | cons d drafts ih =>
    rw [Separate, List.map_cons, List.nodup_cons] at h
    rw [List.filter_cons, List.find?_cons]
    cases hd : sameDocument d.path p with
    | false => simpa using ih h.2
    | true =>
      have hrest : (drafts.filter fun e => sameDocument e.path p) = [] := by
        refine List.filter_eq_nil_iff.mpr fun e he heq => h.1 (List.mem_map.mpr ⟨e, he, ?_⟩)
        rw [sameDocument_iff.mp hd, sameDocument_iff.mp heq]
      simp [hrest]

/-- The draft of a document, if there is one, and those of the others. -/
theorem perm_draftAt (h : Separate r.drafts) (p : Path) :
    ((r.draftAt p).toList ++ r.drafts.filter fun e => !sameDocument e.path p).Perm r.drafts := by
  rw [draftAt, ← filter_sameDocument h]
  exact List.filter_append_perm _ _

/-- A draft that is put takes the place of the one of its document. -/
theorem perm_putDraft (h : Separate drafts) :
    (putDraft drafts d).Perm (d :: drafts.filter fun e => !sameDocument e.path d.path) := by
  unfold putDraft
  split
  · next hany =>
    obtain ⟨e, he⟩ : ∃ e, (drafts.find? fun e => sameDocument e.path d.path) = some e :=
      Option.isSome_iff_exists.mp (by rwa [List.find?_isSome, ← List.any_eq_true])
    have hsame : (drafts.filter fun e => sameDocument e.path d.path) = [e] := by
      rw [filter_sameDocument h, he]
      rfl
    have hothers : ((drafts.filter fun e => !sameDocument e.path d.path).map fun e =>
        if sameDocument e.path d.path then d else e) =
          drafts.filter fun e => !sameDocument e.path d.path := by
      conv_rhs => rw [← List.map_id (drafts.filter _)]
      refine List.map_congr_left fun e he => if_neg ?_
      simpa using (List.mem_filter.mp he).2
    have hsplit := (List.filter_append_perm (fun e => sameDocument e.path d.path) drafts).symm.map
      fun e => if sameDocument e.path d.path then d else e
    rw [List.map_append, hsame, hothers, List.map_singleton, if_pos (List.find?_some he)] at hsplit
    exact hsplit
  · next hany =>
    have hothers : (drafts.filter fun e => !sameDocument e.path d.path) = drafts := by
      refine List.filter_eq_self.mpr fun e he => ?_
      simpa using fun heq => hany (List.any_eq_true.mpr ⟨e, he, heq⟩)
    rw [hothers]
    exact List.perm_append_singleton d drafts

/-! ## The counter -/

theorem changes_cons : changes (d :: drafts) = d.changed.length + changes drafts :=
  List.length_append

theorem changes_perm {others : List Draft} (h : drafts.Perm others) :
    changes drafts = changes others :=
  (h.flatMap_right _).length_eq

/-- Putting the next state of a draft counts what was added to it. -/
theorem changes_putDraft (h : Separate r.drafts) (hd : draft store r p = .ok d)
    (hpath : e.path = d.path) :
    changes (putDraft r.drafts e) + d.changed.length = changes r.drafts + e.changed.length := by
  have hput := changes_perm (perm_putDraft (d := e) h)
  have hall := changes_perm (perm_draftAt h e.path)
  have hat : r.draftAt e.path = r.draftAt p := by
    rw [hpath, draftAt_congr (path_of_draft hd)]
  rw [draft_eq] at hd
  rw [hat] at hall
  rw [changes_cons] at hput
  cases hr : r.draftAt p with
  | some d' =>
    rw [hr] at hd hall
    cases hd
    rw [Option.toList_some, List.singleton_append, changes_cons] at hall
    omega
  | none =>
    rw [hr] at hd hall
    obtain ⟨_, _, rfl⟩ := openDraft_eq_ok_iff.mp hd
    rw [Option.toList_none, List.nil_append] at hall
    simp only [List.length_nil]
    omega

theorem updated_of_error {problem : RegionProblem}
    (h : draft store r (c.targetPath t) = .error problem) :
    (apply store c r t).updated = r.updated := by
  rw [apply_of_error h]

/-- The counter goes up with the changes that the draft records. -/
theorem updated_of_ok (h : draft store r (c.targetPath t) = .ok d) :
    (apply store c r t).updated + d.changed.length =
      r.updated + (d.after c t).changed.length := by
  simp only [apply, h]
  cases hr : Region.find? (c.markers t) d.current with
  | none =>
    rw [updateContent_of_none hr]
    simp [Draft.after, put_of_none hr]
  | some reg =>
    rw [updateContent_of_find? hr]
    have hm : ({} : MarkerStyle).markers t.component c.settings.sourceId = c.markers t := rfl
    simp only [hm, bne_iff_ne, ne_eq, ite_not, Draft.after]
    split
    · rfl
    · simp only [List.length_append, List.length_singleton]
      omega

/-- **The counter of a run** is the number of changes that its drafts record. -/
theorem updated_run : (ts.foldl (apply store c) {}).updated =
    changes (ts.foldl (apply store c) {}).drafts := by
  induction ts using List.reverseRecOn with
  | nil => rfl
  | append_singleton ts t ih =>
    rw [List.foldl_append, List.foldl_cons, List.foldl_nil]
    cases hd : draft store (ts.foldl (apply store c) {}) (c.targetPath t) with
    | error problem =>
      rw [updated_of_error hd, apply_of_error hd, ih]
    | ok d =>
      have hcount := updated_of_ok hd
      have hput := changes_putDraft separate_run hd (after_path : (d.after c t).path = d.path)
      rw [(apply_of_ok hd).1]
      omega

/-! ## The stale documents -/

theorem mem_drafts_iff (h : Separate r.drafts) : d ∈ r.drafts ↔ r.draftAt d.path = some d := by
  constructor
  · intro hd
    exact draftAt_of_mem h hd (sameDocument_iff.mpr rfl)
  · intro hd
    exact List.mem_of_find?_eq_some hd

theorem isStale_iff : d.isStale = true ↔ d.current ≠ d.stored := bne_iff_ne

theorem mem_stale_iff (h : Separate r.drafts) :
    d ∈ r.stale ↔ r.draftAt d.path = some d ∧ d.isStale = true := by
  rw [stale, List.mem_filter, List.mem_mergeSort, mem_drafts_iff h]

theorem separate_stale (h : Separate r.drafts) : Separate r.stale := by
  refine List.Nodup.sublist (List.filter_sublist.map _) ?_
  exact ((List.mergeSort_perm _ _).map _).nodup_iff.mpr h

/-- **The stale documents** are different documents in path order. -/
theorem increasing_stale (h : Separate r.drafts) :
    Path.Increasing (·.path.components) r.stale := by
  have hsorted : (r.drafts.mergeSort fun a b => (Path.order a.path b.path).isLE).Pairwise
      fun a b => (Path.order a.path b.path).isLE = true := by
    refine List.pairwise_mergeSort ?_ ?_ _
    · exact fun _ _ _ => Path.order_isLE_trans
    · exact fun _ _ => Path.order_isLE_total _ _
  have hordered : r.stale.Pairwise fun a b => (Path.order a.path b.path).isLE = true :=
    hsorted.sublist List.filter_sublist
  have hdistinct : r.stale.Pairwise fun a b => a.path.components ≠ b.path.components :=
    List.pairwise_map.mp (separate_stale h)
  exact (hordered.and hdistinct).imp fun hab => Path.order_eq_lt hab.1 hab.2

/-- Runs with the same drafts have the same outcome. -/
theorem outcome_congr {r' : Reconciliation} (h : Separate r.drafts) (h' : Separate r'.drafts)
    (heq : ∀ p, r.draftAt p = r'.draftAt p) :
    r.stale = r'.stale ∧ changes r.drafts = changes r'.drafts := by
  constructor
  · refine (increasing_stale h).ext (increasing_stale h') fun d => ?_
    rw [mem_stale_iff h, mem_stale_iff h', heq]
  · refine changes_perm ((List.perm_ext_iff_of_nodup h.of_map h'.of_map).mpr fun d => ?_)
    rw [mem_drafts_iff h, mem_drafts_iff h', heq]

end Reconciliation

end ModuleDocs

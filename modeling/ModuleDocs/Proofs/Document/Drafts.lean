import Mathlib.Data.List.Nodup
import ModuleDocs.Document.Reconcile
import ModuleDocs.Proofs.Document.Filling
import ModuleDocs.Proofs.Store.Overwrite

/-!
# The draft of one document

`reconcile` threads the drafts of all documents through all targets. Seen from one
document, most of that is idle: a target of another path leaves its draft alone
(`draftAt_apply`). So the draft is a fold over the targets of its own path
(`draftAt_foldl`), and it has a closed form: the first target whose path can be
opened opens the document, and it and all later ones are put into its text
(`draftAt_run`). Those are the targets `appliedTo` the document.
-/

namespace ModuleDocs

open Reconciliation

namespace DocsContext

/-- The markers of a target's region. -/
def markers (c : DocsContext) (t : Target) : MarkerPair :=
  ({} : MarkerStyle).markers t.component c.settings.sourceId

/-- The targets of a list whose document is spelled by a path. -/
def targetsOf (c : DocsContext) (ts : List Target) (p : Path) : List Target :=
  ts.filter fun t => sameDocument (c.targetPath t) p

/-- Whether a target's path can be opened. -/
def opens (store : Store) (c : DocsContext) (t : Target) : Bool :=
  (openDraft store (c.targetPath t)).toBool

/-- The targets of a list that are applied to a document: those of its path, from
the first one that can open it. -/
def appliedTo (store : Store) (c : DocsContext) (ts : List Target) (p : Path) : List Target :=
  (c.targetsOf ts p).dropWhile fun t => !c.opens store t

/-- What targets put where. -/
def jobs (c : DocsContext) (ts : List Target) : List (MarkerPair × Text) :=
  ts.map fun t => (c.markers t, c.fragment t)

end DocsContext

/-- A draft after a target of its document. -/
def Draft.after (c : DocsContext) (d : Draft) (t : Target) : Draft :=
  let content := (c.markers t).put (c.fragment t) d.current
  if content = d.current then d
  else { d with current := content, changed := d.changed ++ [t.component] }

/-- The draft of a document after a target of it: the target opens the document if
there is no draft yet. -/
def advance (store : Store) (c : DocsContext) : Option Draft → Target → Option Draft
  | some d, t => some (d.after c t)
  | none, t => (openDraft store (c.targetPath t)).toOption.map (·.after c t)

namespace Reconciliation

/-- The draft of a path's document. -/
def draftAt (r : Reconciliation) (p : Path) : Option Draft :=
  r.drafts.find? fun d => sameDocument d.path p

variable {store : Store} {c : DocsContext} {r : Reconciliation} {t : Target} {p q : Path}
  {d : Draft} {drafts : List Draft} {ts : List Target}

/-! ## Drafts by their paths -/

theorem sameDocument_iff : sameDocument p q = true ↔ p.components = q.components := by
  simp [sameDocument]

theorem sameDocument_congr {p' q' : Path} (hp : p.components = p'.components)
    (hq : q.components = q'.components) : sameDocument p q = sameDocument p' q' := by
  simp [sameDocument, hp, hq]

/-- A draft is found where it was put; the others are found as before. -/
theorem find?_putDraft :
    ((putDraft drafts d).find? fun e => sameDocument e.path q) =
      if sameDocument d.path q then some d else drafts.find? fun e => sameDocument e.path q := by
  have hkey (e : Draft) : sameDocument
      (if sameDocument e.path d.path then d else e).path q = sameDocument e.path q := by
    split
    · next h => exact sameDocument_congr (sameDocument_iff.mp h).symm rfl
    · rfl
  unfold putDraft
  split
  · next hany =>
    -- the draft takes the place of the one of its document
    obtain ⟨e, he, hed⟩ := List.any_eq_true.mp hany
    rw [List.find?_map]
    simp only [Function.comp_def, hkey]
    split
    · next hdq =>
      have heq : sameDocument e.path q = true := by
        rw [sameDocument_congr (sameDocument_iff.mp hed) rfl, hdq]
      obtain ⟨e', he'⟩ := Option.isSome_iff_exists.mp
        (List.find?_isSome (p := fun e => sameDocument e.path q) |>.mpr ⟨e, he, heq⟩)
      have hed' : sameDocument e'.path d.path = true := by
        have h' : sameDocument e'.path q = true := by simpa using List.find?_some he'
        rw [sameDocument_iff] at h' hdq ⊢
        rw [h', hdq]
      rw [he', Option.map_some, if_pos hed']
    · next hdq =>
      cases hf : drafts.find? fun e => sameDocument e.path q with
      | none => rfl
      | some e' =>
        have h' : sameDocument e'.path q = true := by simpa using List.find?_some hf
        rw [Option.map_some, if_neg]
        intro hed'
        rw [sameDocument_congr (sameDocument_iff.mp hed').symm rfl] at hdq
        exact hdq h'
  · next hany =>
    -- the document has no draft yet
    rw [List.find?_append]
    split
    · next hdq =>
      have hnone : drafts.find? (fun e => sameDocument e.path q) = none := by
        refine List.find?_eq_none.mpr fun e he heq => hany (List.any_eq_true.mpr ⟨e, he, ?_⟩)
        rw [sameDocument_iff] at hdq heq ⊢
        rw [heq, hdq]
      simp [hnone, hdq]
    · next hdq => simp [hdq]

/-- No two drafts are of one document. -/
theorem nodup_putDraft (h : (drafts.map (·.path.components)).Nodup) :
    ((putDraft drafts d).map (·.path.components)).Nodup := by
  unfold putDraft
  split
  · rw [List.map_map]
    have hkey : (·.path.components) ∘ (fun e : Draft =>
        if sameDocument e.path d.path then d else e) = (·.path.components) := by
      funext e
      simp only [Function.comp]
      split
      · next he => exact (sameDocument_iff.mp he).symm
      · rfl
    rwa [hkey]
  · next hany =>
    rw [List.map_append, List.map_singleton]
    refine List.nodup_append.mpr ⟨h, List.nodup_singleton _, ?_⟩
    intro a ha b hb hab
    subst hab
    obtain ⟨e, he, hed⟩ := List.mem_map.mp ha
    refine hany (List.any_eq_true.mpr ⟨e, he, ?_⟩)
    rw [sameDocument_iff, hed, List.mem_singleton.mp hb]

theorem path_of_draftAt (h : r.draftAt p = some d) : sameDocument d.path p = true := by
  simpa using List.find?_some h

/-- Spellings of one document lead to one draft. -/
theorem draftAt_congr (h : sameDocument p q = true) : r.draftAt p = r.draftAt q := by
  simp only [draftAt, sameDocument_congr rfl (sameDocument_iff.mp h)]

theorem draftAt_of_mem (h : (r.drafts.map (·.path.components)).Nodup) (hd : d ∈ r.drafts)
    (hp : sameDocument d.path p = true) : r.draftAt p = some d := by
  have hsome : (r.draftAt p).isSome := List.find?_isSome.mpr ⟨d, hd, hp⟩
  obtain ⟨e, he⟩ := Option.isSome_iff_exists.mp hsome
  have hep : sameDocument e.path p = true := path_of_draftAt he
  have hde : d = e := by
    refine List.inj_on_of_nodup_map h hd (List.mem_of_find?_eq_some he) ?_
    rw [sameDocument_iff.mp hp, sameDocument_iff.mp hep]
  rw [he, hde]

/-! ## Opening documents -/

/-- A document is opened as the text that its path reads. -/
theorem openDraft_eq_ok_iff :
    openDraft store p = .ok d ↔ ∃ text, store.readText p = .ok text ∧ d = ⟨p, text, text, []⟩ := by
  unfold openDraft
  split
  · next hf =>
    constructor
    · intro h
      cases h
    · intro h
      obtain ⟨text, ht, _⟩ := h
      obtain ⟨loc, hloc, ht⟩ := Store.readText_eq_ok_iff.mp ht
      obtain ⟨b, hb⟩ := Store.textAt?_some_file ht
      rw [Store.isFile_iff.mpr ⟨loc, b, hloc, hb⟩] at hf
      exact absurd hf (by simp)
  · cases ht : store.readText p with
    | ok text => simp [eq_comm]
    | error e => simp

/-- A path that cannot be opened denotes no file, or one that is not text. -/
theorem openDraft_eq_error_iff {e : RegionProblem} :
    openDraft store p = .error e ↔ (∀ text, store.readText p ≠ .ok text) ∧
      e = if store.isFile p then .notText p else .noFile p := by
  constructor
  · intro h
    refine ⟨fun text ht => ?_, ?_⟩
    · rw [openDraft_eq_ok_iff.mpr ⟨text, ht, rfl⟩] at h
      cases h
    · unfold openDraft at h
      cases hf : store.isFile p with
      | false =>
        rw [hf] at h
        cases h
        rfl
      | true =>
        rw [hf] at h
        cases ht : store.readText p with
        | ok text => rw [ht] at h; cases h
        | error e' => rw [ht] at h; cases h; rfl
  · intro h
    obtain ⟨hread, rfl⟩ := h
    unfold openDraft
    cases store.isFile p with
    | false => rfl
    | true =>
      cases ht : store.readText p with
      | ok text => exact absurd ht (hread text)
      | error e' => rfl

theorem opens_iff :
    c.opens store t = true ↔ ∃ text, store.readText (c.targetPath t) = .ok text := by
  unfold DocsContext.opens
  constructor
  · intro h
    cases hd : openDraft store (c.targetPath t) with
    | error e =>
      rw [hd] at h
      cases h
    | ok d =>
      obtain ⟨text, ht, _⟩ := openDraft_eq_ok_iff.mp hd
      exact ⟨text, ht⟩
  · intro h
    obtain ⟨text, ht⟩ := h
    rw [openDraft_eq_ok_iff.mpr ⟨text, ht, rfl⟩]
    rfl

theorem opens_eq_false {e : RegionProblem} (h : openDraft store (c.targetPath t) = .error e) :
    c.opens store t = false := by
  rw [DocsContext.opens, h]
  rfl

theorem opens_eq_true (h : openDraft store (c.targetPath t) = .ok d) : c.opens store t = true := by
  rw [DocsContext.opens, h]
  rfl

/-! ## One target -/

/-- The draft of a path, spelled out. -/
theorem draft_eq : draft store r p =
    match r.draftAt p with
    | some d => .ok d
    | none => openDraft store p := rfl

theorem path_of_draft (h : draft store r p = .ok d) : sameDocument d.path p = true := by
  rw [draft_eq] at h
  cases hr : r.draftAt p with
  | some e =>
    rw [hr] at h
    cases h
    exact path_of_draftAt hr
  | none =>
    rw [hr] at h
    obtain ⟨_, _, rfl⟩ := openDraft_eq_ok_iff.mp h
    exact sameDocument_iff.mpr rfl

theorem draft_of_draftAt (hp : sameDocument (c.targetPath t) p = true)
    (h : r.draftAt p = some d) : draft store r (c.targetPath t) = .ok d := by
  rw [draft_eq, draftAt_congr hp, h]

theorem draft_of_draftAt_eq_none (hp : sameDocument (c.targetPath t) p = true)
    (h : r.draftAt p = none) :
    draft store r (c.targetPath t) = openDraft store (c.targetPath t) := by
  rw [draft_eq, draftAt_congr hp, h]

/-- The draft that a target goes to is the one that it moves on. -/
theorem advance_of_draft (hp : sameDocument (c.targetPath t) p = true)
    (hd : draft store r (c.targetPath t) = .ok d) :
    advance store c (r.draftAt p) t = some (d.after c t) := by
  cases hr : r.draftAt p with
  | some d' =>
    rw [draft_of_draftAt hp hr] at hd
    cases hd
    rfl
  | none =>
    rw [draft_of_draftAt_eq_none hp hr] at hd
    rw [advance, hd]
    rfl

@[simp] theorem after_path : (d.after c t).path = d.path := by
  unfold Draft.after
  dsimp only
  split <;> rfl

@[simp] theorem after_stored : (d.after c t).stored = d.stored := by
  unfold Draft.after
  dsimp only
  split <;> rfl

@[simp] theorem after_current :
    (d.after c t).current = (c.markers t).put (c.fragment t) d.current := by
  unfold Draft.after
  dsimp only
  split
  · next h => exact h.symm
  · rfl

theorem apply_of_error {e : RegionProblem} (h : draft store r (c.targetPath t) = .error e) :
    apply store c r t =
      { r with failures := r.failures ++ [⟨c.targetPath t, t.component, e⟩] } := by
  simp only [apply, h]

/-- What a target does that has a draft to go to. -/
theorem apply_of_ok (h : draft store r (c.targetPath t) = .ok d) :
    (apply store c r t).drafts = putDraft r.drafts (d.after c t) ∧
      (apply store c r t).failures = r.failures ++
        if ((c.markers t).body? d.current).isSome then []
        else [⟨c.targetPath t, t.component, .noMarkers t.component c.settings.sourceId⟩] := by
  simp only [apply, h]
  cases hr : Region.find? (c.markers t) d.current with
  | none =>
    rw [updateContent_of_none hr]
    simp [Draft.after, MarkerPair.body?, put_of_none hr, hr]
  | some reg =>
    rw [updateContent_of_find? hr]
    have hm : ({} : MarkerStyle).markers t.component c.settings.sourceId = c.markers t := rfl
    simp only [hm, bne_iff_ne, ne_eq, ite_not, Draft.after, MarkerPair.body?, hr,
      Option.map_some, Option.isSome_some, if_true, List.append_nil]
    split <;> exact ⟨rfl, rfl⟩

/-- **A target leaves the drafts of other documents alone.** -/
theorem draftAt_apply : (apply store c r t).draftAt p =
    if sameDocument (c.targetPath t) p then advance store c (r.draftAt p) t else r.draftAt p := by
  cases hd : draft store r (c.targetPath t) with
  | error e =>
    -- the target goes nowhere, and there is no draft of its document either
    rw [apply_of_error hd]
    show r.draftAt p = _
    split
    · next hp =>
      cases hr : r.draftAt p with
      | none =>
        rw [draft_of_draftAt_eq_none hp hr] at hd
        rw [advance, hd]
        rfl
      | some d =>
        rw [draft_of_draftAt hp hr] at hd
        cases hd
    · rfl
  | ok d =>
    rw [draftAt, (apply_of_ok hd).1, find?_putDraft, after_path,
      sameDocument_congr (sameDocument_iff.mp (path_of_draft hd)) rfl]
    split
    · next hp => exact (advance_of_draft hp hd).symm
    · rfl

/-! ## All targets -/

/-- The run over a list of targets. -/
theorem draftAt_foldl : (ts.foldl (apply store c) r).draftAt p =
    (c.targetsOf ts p).foldl (advance store c) (r.draftAt p) := by
  induction ts generalizing r with
  | nil => rfl
  | cons t ts ih =>
    rw [List.foldl_cons, ih, draftAt_apply, DocsContext.targetsOf, DocsContext.targetsOf,
      List.filter_cons]
    split <;> rfl

theorem foldl_advance_some :
    ts.foldl (advance store c) (some d) = some (ts.foldl (Draft.after c) d) := by
  induction ts generalizing d with
  | nil => rfl
  | cons t ts ih =>
    rw [List.foldl_cons, List.foldl_cons, ← ih]
    rfl

/-- Targets that cannot open a document pass it by; the first that can opens it for
all that follow. -/
theorem foldl_advance_none :
    ts.foldl (advance store c) none =
      match ts.dropWhile fun t => !c.opens store t with
      | [] => none
      | t :: rest => (openDraft store (c.targetPath t)).toOption.map
          ((t :: rest).foldl (Draft.after c)) := by
  induction ts with
  | nil => rfl
  | cons t ts ih =>
    rw [List.foldl_cons, List.dropWhile_cons, advance]
    cases ho : openDraft store (c.targetPath t) with
    | error e =>
      -- there is still no draft for the rest
      simp only [opens_eq_false ho, Bool.not_false, if_true]
      exact ih
    | ok d =>
      simp only [opens_eq_true ho, Bool.not_true, Bool.false_eq_true, if_false, ho]
      exact foldl_advance_some

theorem foldl_after (c : DocsContext) (ts : List Target) (d : Draft) :
    (ts.foldl (Draft.after c) d).path = d.path ∧
    (ts.foldl (Draft.after c) d).stored = d.stored ∧
    (ts.foldl (Draft.after c) d).current = putAll (c.jobs ts) d.current := by
  induction ts generalizing d with
  | nil => exact ⟨rfl, rfl, rfl⟩
  | cons t ts ih =>
    obtain ⟨hp, hs, hc⟩ := ih (d.after c t)
    rw [List.foldl_cons, hp, hs, hc, after_path, after_stored, after_current]
    exact ⟨rfl, rfl, rfl⟩

/-- **A draft comes about** from the text in the store by the applied targets, one after
the other. -/
theorem draftAt_run_eq (h : (ts.foldl (apply store c) {}).draftAt p = some d) :
    ∃ t rest, c.appliedTo store ts p = t :: rest ∧ d.path = c.targetPath t ∧
      store.readText d.path = .ok d.stored ∧
      d = (t :: rest).foldl (Draft.after c) ⟨d.path, d.stored, d.stored, []⟩ := by
  rw [draftAt_foldl, show draftAt {} p = none from rfl, foldl_advance_none] at h
  rw [DocsContext.appliedTo]
  split at h
  · cases h
  · next t rest htr =>
    cases ho : openDraft store (c.targetPath t) with
    | error e =>
      rw [ho] at h
      cases h
    | ok e =>
      rw [ho] at h
      cases h
      obtain ⟨text, ht, rfl⟩ := openDraft_eq_ok_iff.mp ho
      obtain ⟨hp, hs, _⟩ := foldl_after c (t :: rest) ⟨c.targetPath t, text, text, []⟩
      rw [hp, hs]
      exact ⟨t, rest, htr, rfl, ht, rfl⟩

/-- **The draft of a document**: its text in the store with every applied target put
into it. -/
theorem draftAt_run (h : (ts.foldl (apply store c) {}).draftAt p = some d) :
    ∃ t rest, c.appliedTo store ts p = t :: rest ∧ d.path = c.targetPath t ∧
      store.readText d.path = .ok d.stored ∧
      d.current = putAll (c.jobs (t :: rest)) d.stored := by
  obtain ⟨t, rest, happ, hpath, hread, hd⟩ := draftAt_run_eq h
  refine ⟨t, rest, happ, hpath, hread, ?_⟩
  exact (congrArg Draft.current hd).trans (foldl_after c _ _).2.2

theorem draftAt_run_isSome :
    ((ts.foldl (apply store c) {}).draftAt p).isSome ↔ c.appliedTo store ts p ≠ [] := by
  rw [draftAt_foldl, show draftAt {} p = none from rfl, foldl_advance_none, DocsContext.appliedTo]
  split
  · next h => simp [h]
  · next t rest h =>
    have hopen : c.opens store t = true := by
      have := List.head?_dropWhile_not (fun t => !c.opens store t) (c.targetsOf ts p)
      rw [h] at this
      simpa using this
    obtain ⟨text, ht⟩ := opens_iff.mp hopen
    rw [openDraft_eq_ok_iff.mpr ⟨text, ht, rfl⟩, h]
    simp [Except.toOption]

theorem draftAt_run_eq_none_iff :
    (ts.foldl (apply store c) {}).draftAt p = none ↔ c.appliedTo store ts p = [] := by
  rw [← Option.not_isSome_iff_eq_none, draftAt_run_isSome, not_not]

/-- No two drafts of a run are of one document. -/
theorem nodup_run : ((ts.foldl (apply store c) {}).drafts.map (·.path.components)).Nodup := by
  suffices h : ∀ r : Reconciliation, (r.drafts.map (·.path.components)).Nodup →
      ((ts.foldl (apply store c) r).drafts.map (·.path.components)).Nodup from
    h {} List.nodup_nil
  induction ts with
  | nil => exact fun _ h => h
  | cons t ts ih =>
    intro r h
    rw [List.foldl_cons]
    refine ih _ ?_
    cases hd : draft store r (c.targetPath t) with
    | error e =>
      rw [apply_of_error hd]
      exact h
    | ok d =>
      rw [(apply_of_ok hd).1]
      exact nodup_putDraft h

end Reconciliation

end ModuleDocs

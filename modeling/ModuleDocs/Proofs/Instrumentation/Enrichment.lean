import ModuleDocs.Proofs.Instrumentation.Attribution

/-!
# Enriching adds facts and is done after once

Facts are merged by different rules: versions and tags are united, the platform version
is the highest, settings are the first of each name. What the rules have in common is an
order on instrumentations, `Extends`, and that each of them is an addition in this order
(`IsAddition`): its result extends what was there, and whatever extends its result has no
use for it. Additions compose, so all of them together are one (`isAddition_collect`), and
this says more than that doing them twice is doing them once: nothing that is added
afterwards can bring an earlier one back to life.

The description and the telemetry declarations are outside the order. They are
overwritten, but with what the same files hold (`describe_of_eq`).
-/

namespace ModuleDocs

namespace TargetVersions

variable {t : TargetVersions} {k : ModuleKind} {s : TextSet}

theorem set_of_get? (h : t.get? k = some s) : t.set k s = t := by
  cases k with
  | agent =>
    have h : t.agent = some s := h
    rw [set, ← h]
  | library =>
    have h : t.library = some s := h
    rw [set, ← h]

end TargetVersions

namespace TextSet

/-- Adding members makes no difference. -/
theorem insertMany_of_subset {s : TextSet} {xs : List Text} (h : ∀ x ∈ xs, x ∈ s) :
    s.insertMany xs = s := by
  refine ext fun x => ?_
  rw [mem_insertMany]
  exact or_iff_left_of_imp (h x)

end TextSet

namespace Instrumentation

open ModuleDocs.Module

/-- `f` stands for what `e` does and knows at least as much. -/
structure Extends (e f : Instrumentation) : Prop where
  path : f.path = e.path
  sourcePath : f.sourcePath = e.sourcePath
  key : f.key = e.key
  kinds : f.kinds = e.kinds
  targetVersions : ∀ t s, e.targetVersions.get? t = some s →
    ∃ s', f.targetVersions.get? t = some s' ∧ ∀ v ∈ s, v ∈ s'
  /-- No version is below every version. -/
  minJavaVersion : e.minJavaVersion ≤ f.minJavaVersion
  /-- Settings of new names stand behind the old ones, one of each name. -/
  configurations : ∃ added, f.configurations = e.configurations ++ added ∧
    (added.map ConfigurationProperty.name).Nodup ∧
    ∀ p ∈ added, ∀ q ∈ e.configurations, q.name ≠ p.name
  semanticTags : ∀ tag ∈ e.semanticTags, tag ∈ f.semanticTags
  spanKinds : ∀ kind ∈ e.spanKinds, kind ∈ f.spanKinds

variable {e f g : Instrumentation} {kind : ModuleKind} {info : DependencyInfo}
  {p : ConfigurationProperty} {reader : Source.Reader} {d : Path}

/-! ## The order -/

theorem Extends.refl (e : Instrumentation) : Extends e e where
  path := rfl
  sourcePath := rfl
  key := rfl
  kinds := rfl
  targetVersions _ s hs := ⟨s, hs, fun _ hv => hv⟩
  minJavaVersion := by cases e.minJavaVersion <;> simp
  configurations := ⟨[], by simp⟩
  semanticTags _ h := h
  spanKinds _ h := h

theorem Extends.trans (h : Extends e f) (h' : Extends f g) : Extends e g where
  path := h'.path.trans h.path
  sourcePath := h'.sourcePath.trans h.sourcePath
  key := h'.key.trans h.key
  kinds := h'.kinds.trans h.kinds
  targetVersions t s hs := by
    obtain ⟨s', hs', hsub⟩ := h.targetVersions t s hs
    obtain ⟨s'', hs'', hsub'⟩ := h'.targetVersions t s' hs'
    exact ⟨s'', hs'', fun v hv => hsub' v (hsub v hv)⟩
  minJavaVersion := by
    have hle := h.minJavaVersion
    have hle' := h'.minJavaVersion
    revert hle hle'
    cases e.minJavaVersion <;> cases f.minJavaVersion <;> cases g.minJavaVersion <;> simp
    exact Nat.le_trans
  configurations := by
    obtain ⟨added, hadded, hnodup, hnew⟩ := h.configurations
    obtain ⟨added', hadded', hnodup', hnew'⟩ := h'.configurations
    refine ⟨added ++ added', by rw [hadded', hadded, List.append_assoc], ?_, fun p hp q hq => ?_⟩
    · rw [List.map_append]
      refine hnodup.append hnodup' fun n hn hn' => ?_
      obtain ⟨q, hq, rfl⟩ := List.mem_map.mp hn
      obtain ⟨p, hp, hname⟩ := List.mem_map.mp hn'
      exact hnew' p hp q (by simp [hadded, hq]) hname.symm
    · rcases List.mem_append.mp hp with hp | hp
      · exact hnew p hp q hq
      · exact hnew' p hp q (by simp [hadded, hq])
  semanticTags tag ht := h'.semanticTags tag (h.semanticTags tag ht)
  spanKinds kind hk := h'.spanKinds kind (h.spanKinds kind hk)

/-! ## Additions -/

/-- A step that adds something: its result extends its argument, and an instrumentation
that extends its result has it already. -/
structure IsAddition (step : Instrumentation → Instrumentation) : Prop where
  extension : ∀ e, Extends e (step e)
  settled : ∀ e f, Extends (step e) f → step f = f

theorem IsAddition.comp {step step' : Instrumentation → Instrumentation}
    (h' : IsAddition step') (h : IsAddition step) : IsAddition (step' ∘ step) where
  extension e := (h.extension e).trans (h'.extension (step e))
  settled e f hf := by
    rw [Function.comp, h.settled e f ((h'.extension (step e)).trans hf)]
    exact h'.settled (step e) f hf

/-- A run of additions is an addition. -/
theorem IsAddition.foldl {α : Type} {step : Instrumentation → α → Instrumentation}
    (h : ∀ x, IsAddition fun e => step e x) (xs : List α) :
    IsAddition fun e => xs.foldl step e := by
  induction xs with
  | nil => exact ⟨Extends.refl, fun _ _ _ => rfl⟩
  | cons x xs ih => exact ih.comp (h x)

/-! ## Adding a fact -/

theorem extends_addDependencyInfo (e : Instrumentation) (kind : ModuleKind)
    (info : DependencyInfo) : Extends e (e.addDependencyInfo kind info) := by
  refine { Extends.refl e with targetVersions := fun t s hs => ?_, minJavaVersion := ?_ }
  · rw [addDependencyInfo]
    dsimp only
    split
    · exact ⟨s, hs, fun _ hv => hv⟩
    · rw [TargetVersions.add, TargetVersions.get?_set]
      split
      · next ht =>
        refine ⟨_, rfl, fun v hv => TextSet.mem_union.mpr (Or.inl ?_)⟩
        rwa [← ht, hs]
      · exact ⟨s, hs, fun _ hv => hv⟩
  · exact Option.left_le_max Nat.le_refl Nat.le_max_left

theorem addDependencyInfo_of_extends (h : Extends (e.addDependencyInfo kind info) f) :
    f.addDependencyInfo kind info = f := by
  have hversions : (if info.versions.toList = [] then f.targetVersions
      else f.targetVersions.add kind info.versions) = f.targetVersions := by
    split
    · rfl
    · next hne =>
      have hget : (e.addDependencyInfo kind info).targetVersions.get? kind =
          some (((e.targetVersions.get? kind).getD .empty).union info.versions) := by
        simp [addDependencyInfo, hne, TargetVersions.add]
      obtain ⟨s, hs, hsub⟩ := h.targetVersions kind _ hget
      rw [TargetVersions.add, hs, Option.getD_some, TextSet.union,
        TextSet.insertMany_of_subset fun v hv => hsub v (TextSet.mem_union.mpr (Or.inr hv)),
        TargetVersions.set_of_get? hs]
  have hplatform : max f.minJavaVersion info.minJavaVersion = f.minJavaVersion := by
    have hle : info.minJavaVersion ≤ f.minJavaVersion :=
      ((Option.max_le fun _ _ _ => Nat.max_le).mp h.minJavaVersion).2
    exact Option.max_eq_right (fun _ _ => Nat.max_eq_left) hle
  rw [addDependencyInfo, hversions, hplatform]

theorem isAddition_addDependencyInfo (kind : ModuleKind) (info : DependencyInfo) :
    IsAddition fun e => e.addDependencyInfo kind info :=
  ⟨fun e => extends_addDependencyInfo e kind info, fun _ _ => addDependencyInfo_of_extends⟩

theorem isAddition_addDescriptor (reader : Source.Reader) (d : Path) :
    IsAddition fun e => addDescriptor reader e d where
  extension e := by
    rw [addDescriptor]
    split
    · exact (isAddition_addDependencyInfo _ _).extension e
    · exact Extends.refl e
  settled e f h := by
    -- the kind of a descriptor depends on the directory, which is the same
    have hpath : f.path = e.path := h.path.trans path_addDescriptor
    rw [addDescriptor] at h ⊢
    rw [hpath]
    cases hkind : descriptorKind? e.path d with
    | none => rfl
    | some kind =>
      cases hread : (reader d).bind Text.decode? with
      | none => rfl
      | some content =>
        rw [hkind, hread] at h
        exact (isAddition_addDependencyInfo _ _).settled e f h

theorem isAddition_addConfiguration (p : ConfigurationProperty) :
    IsAddition fun e => e.addConfiguration p where
  extension e := by
    rw [addConfiguration]
    split
    · exact Extends.refl e
    · next hnew =>
      refine { Extends.refl e with configurations := ⟨[p], rfl, List.nodup_singleton _, ?_⟩ }
      intro q hq r hr hname
      rw [List.mem_singleton.mp hq] at hname
      exact hnew (List.any_eq_true.mpr ⟨r, hr, by simpa using hname⟩)
  settled e f h := by
    obtain ⟨added, hadded, -, -⟩ := h.configurations
    have hthere : ∃ q ∈ (e.addConfiguration p).configurations, q.name = p.name := by
      rw [addConfiguration]
      split
      · next hold => simpa using hold
      · exact ⟨p, by simp, rfl⟩
    obtain ⟨q, hq, hname⟩ := hthere
    rw [addConfiguration, if_pos]
    exact List.any_eq_true.mpr ⟨q, by simp [hadded, hq], by simpa using hname⟩

/-- Adds tags and span kinds. -/
def addTags (tags kinds : List Text) (e : Instrumentation) : Instrumentation :=
  { e with
    semanticTags := e.semanticTags.insertMany tags
    spanKinds := e.spanKinds.insertMany kinds }

theorem isAddition_addTags (tags kinds : List Text) : IsAddition (addTags tags kinds) where
  extension e := { Extends.refl e with
    semanticTags := fun _ ht => TextSet.mem_insertMany.mpr (Or.inl ht)
    spanKinds := fun _ hk => TextSet.mem_insertMany.mpr (Or.inl hk) }
  settled e f h := by
    have htags : f.semanticTags.insertMany tags = f.semanticTags :=
      TextSet.insertMany_of_subset fun x hx =>
        h.semanticTags x (TextSet.mem_insertMany.mpr (Or.inr hx))
    have hkinds : f.spanKinds.insertMany kinds = f.spanKinds :=
      TextSet.insertMany_of_subset fun x hx =>
        h.spanKinds x (TextSet.mem_insertMany.mpr (Or.inr hx))
    rw [addTags, htags, hkinds]

/-! ## Enriching -/

/-- Adds the facts of the descriptors and sources among some files. -/
def collect (reader : Source.Reader) (table : TextMap ConfigurationProperty)
    (files : ModuleFiles) (e : Instrumentation) : Instrumentation :=
  (Source.scanProperties reader files.sources table).foldl addConfiguration
    (addTags (Source.scanMarkers reader files.sources Source.semanticMarkers).keys
      (Source.scanMarkers reader files.sources Source.spanKindMarkers).keys
      (files.descriptors.foldl (addDescriptor reader) e))

/-- Sets what is overwritten. -/
def describe (store : Store) (files : ModuleFiles) (e : Instrumentation) : Instrumentation :=
  { addDescription store e files.metadata with telemetry := files.telemetry }

theorem enrich_eq (store : Store) (settings : ScanSettings) (reader : Source.Reader)
    (table : TextMap ConfigurationProperty) (e : Instrumentation) :
    enrich store settings reader table e =
      describe store (files store e.path settings)
        (collect reader table (files store e.path settings) e) :=
  rfl

theorem isAddition_collect (reader : Source.Reader) (table : TextMap ConfigurationProperty)
    (files : ModuleFiles) : IsAddition (collect reader table files) :=
  (IsAddition.foldl isAddition_addConfiguration _).comp
    ((isAddition_addTags _ _).comp (IsAddition.foldl (isAddition_addDescriptor reader) _))

theorem extends_describe (store : Store) (files : ModuleFiles) (e : Instrumentation) :
    Extends e (describe store files e) := by
  rw [describe, addDescription]
  split <;> exact { Extends.refl e with }

/-- What is overwritten does not depend on what was there. -/
theorem describe_of_eq {store : Store} {files : ModuleFiles} (h : f = describe store files e) :
    describe store files f = f := by
  subst h
  unfold describe addDescription
  split <;> simp_all

/-- **Enriching is a closure**: an instrumentation is extended by new facts, and one that
was enriched before is left as it is. -/
theorem enrich_closure (store : Store) (settings : ScanSettings) (reader : Source.Reader)
    (table : TextMap ConfigurationProperty) (e : Instrumentation) :
    Extends e (enrich store settings reader table e) ∧
      enrich store settings reader table (enrich store settings reader table e) =
        enrich store settings reader table e := by
  have hcollect := isAddition_collect reader table (files store e.path settings)
  generalize hf : enrich store settings reader table e = f
  rw [enrich_eq] at hf
  have hdescribe : Extends (collect reader table (files store e.path settings) e) f :=
    hf ▸ extends_describe store _ _
  have hextends : Extends e f := (hcollect.extension e).trans hdescribe
  refine ⟨hextends, ?_⟩
  rw [enrich_eq, hextends.path, hcollect.settled e f hdescribe]
  exact describe_of_eq hf.symm

end Instrumentation

end ModuleDocs

import Mathlib.Data.List.Forall2
import ModuleDocs.Proofs.Instrumentation.Aggregate
import ModuleDocs.Proofs.Instrumentation.Listing

/-!
# Aggregation groups by key

While module directories are entered, the instrumentation of a key is what the directories
of that key come to so far (`find?_foldl_enter`): the first of them starts it, and the
kinds are those of all of them, each where it was first seen. Directories of other keys in
between make no difference. So an aggregated instrumentation is a function of the directories
of its own key (`mem_aggregate_iff`), and the order of the list is one of keys alone; where
directories come in another order, only what depends on which of one key is first can change
(`forall₂_aggregate_of_perm`).
-/

namespace ModuleDocs

/-- The key of the instrumentation that a module directory belongs to. -/
def ModuleDir.key (m : ModuleDir) : Text × Text × Text := (m.group, m.nameSpace, m.name)

namespace Instrumentation

variable {e f : Instrumentation} {es : List Instrumentation} {m : ModuleDir}
  {modules modules' : List ModuleDir} {k : Text × Text × Text}

/-! ## First occurrences -/

section

variable {α : Type} [BEq α] [LawfulBEq α] {l l' : List α} {x : α}

/-- One more element stands behind the others, unless it is there. -/
theorem eraseDups_concat : (l ++ [x]).eraseDups =
    if x ∈ l then l.eraseDups else l.eraseDups ++ [x] := by
  rw [List.eraseDups_append]
  by_cases hx : x ∈ l
  · simp [List.removeAll, hx]
  · simp [List.removeAll, hx, List.eraseDups_cons]

theorem nodup_eraseDups : l.eraseDups.Nodup := by
  induction l using List.reverseRecOn with
  | nil => simp
  | append_singleton l x ih =>
    rw [eraseDups_concat]
    split
    · exact ih
    · next hx =>
      refine ih.append (List.nodup_singleton x) fun y hy hyx => hx ?_
      rw [← List.mem_singleton.mp hyx]
      exact List.mem_eraseDups.mp hy

theorem eraseDups_perm (h : l.Perm l') : l.eraseDups.Perm l'.eraseDups := by
  refine (List.perm_ext_iff_of_nodup nodup_eraseDups nodup_eraseDups).mpr fun y => ?_
  rw [List.mem_eraseDups, List.mem_eraseDups, h.mem_iff]

end

/-! ## The directories of one key -/

/-- What module directories of one key come to: the first of them starts the
instrumentation, and all of them add their kinds. -/
def ofModules? : List ModuleDir → Option Instrumentation
  | [] => none
  | m :: ms => some { ofModule m with kinds := ((m :: ms).map ModuleDir.kind).eraseDups }

theorem ofModules?_concat (ms : List ModuleDir) (m : ModuleDir) :
    ofModules? (ms ++ [m]) = some (((ofModules? ms).getD (ofModule m)).addKind m.kind) := by
  cases ms with
  | nil => simp [ofModules?, addKind, ofModule, List.eraseDups_cons]
  | cons d ms =>
    have hkinds : ((d :: ms ++ [m]).map ModuleDir.kind).eraseDups =
        if m.kind ∈ ((d :: ms).map ModuleDir.kind).eraseDups then
          ((d :: ms).map ModuleDir.kind).eraseDups
        else ((d :: ms).map ModuleDir.kind).eraseDups ++ [m.kind] := by
      simp only [List.map_append, List.map_singleton, eraseDups_concat, List.mem_eraseDups]
    rw [List.cons_append, ofModules?, ofModules?, Option.getD_some, addKind]
    rw [← List.cons_append, hkinds]
    split <;> rfl

/-! ## Entering directories -/

/-- Entering a directory changes the instrumentation of its own key alone. -/
theorem find?_enter : (enter es m).find? (fun e => e.key = k) =
    if m.key = k then some (((es.find? fun e => e.key = k).getD (ofModule m)).addKind m.kind)
    else es.find? fun e => e.key = k := by
  have hkey : (ofModule m).key = m.key := rfl
  induction es with
  | nil =>
    by_cases hk : m.key = k <;> simp [enter, hkey, hk]
  | cons e es ih =>
    rw [enter, hkey]
    by_cases he : e.key = m.key
    · by_cases hk : m.key = k <;> simp [he, hk]
    · by_cases hek : e.key = k
      · have hk : m.key ≠ k := fun hk => he (hek.trans hk.symm)
        simp [hek, hk, Ne.symm hk]
      · simp [he, hek, ih]

/-- **The instrumentation of a key**, at any time, is what the directories of that key come
to. -/
theorem find?_foldl_enter : (modules.foldl enter []).find? (fun e => e.key = k) =
    ofModules? (modules.filter fun m => m.key = k) := by
  induction modules using List.reverseRecOn with
  | nil => rfl
  | append_singleton modules m ih =>
    rw [List.foldl_append, List.foldl_cons, List.foldl_nil, find?_enter, ih, List.filter_append]
    by_cases hk : m.key = k
    · rw [if_pos hk, List.filter_cons_of_pos (by simpa using hk), List.filter_nil,
        ofModules?_concat]
    · rw [if_neg hk, List.filter_cons_of_neg (by simpa using hk), List.filter_nil, List.append_nil]

theorem mem_aggregate_iff :
    e ∈ aggregate modules ↔ ofModules? (modules.filter fun m => m.key = e.key) = some e := by
  rw [← find?_foldl_enter]
  have hperm : (aggregate modules).Perm (modules.foldl enter []) := sortBy_perm
  have hnodup : ((modules.foldl enter []).map key).Nodup :=
    (hperm.map key).nodup_iff.mp (aggregated modules).nodup
  rw [hperm.mem_iff]
  constructor
  · intro he
    -- whatever is found under the key is the only one of it
    cases hfind : (modules.foldl enter []).find? fun d => decide (d.key = e.key) with
    | none => simpa using List.find?_eq_none.mp hfind e he
    | some d =>
      have hkey : d.key = e.key := by simpa using List.find?_some hfind
      rw [List.inj_on_of_nodup_map hnodup (List.mem_of_find?_eq_some hfind) he hkey]
  · exact List.mem_of_find?_eq_some

theorem mem_keys_aggregate_iff :
    k ∈ (aggregate modules).map key ↔ ∃ m ∈ modules, m.key = k := by
  constructor
  · intro hk
    obtain ⟨e, he, rfl⟩ := List.mem_map.mp hk
    obtain ⟨m, hm, hkey, -⟩ := (aggregated modules).starts e he
    exact ⟨m, hm, hkey⟩
  · rintro ⟨m, hm, rfl⟩
    exact (aggregated modules).covers m hm

/-! ## The order of keys -/

/-- The order of instrumentations is one of their keys: by group, then name, then name
space. -/
def orderKeys : Text × Text × Text → Text × Text × Text → Ordering :=
  compareLex (compareOn Prod.fst)
    (compareLex (compareOn fun k => k.2.2) (compareOn fun k => k.2.1))

instance : Std.TransCmp orderKeys := by
  rw [orderKeys]
  infer_instance

/-- Aggregated instrumentations are strictly increasing. -/
theorem increasing_aggregate (modules : List ModuleDir) :
    (aggregate modules).Pairwise fun a b => order a b = .lt := by
  have hsorted : (aggregate modules).Pairwise fun a b => (order a b).isLE := pairwise_sortBy
  have hdistinct : (aggregate modules).Pairwise fun a b => a.key ≠ b.key :=
    List.pairwise_map.mp (aggregated modules).nodup
  refine (hsorted.and hdistinct).imp fun {a b} hab => ?_
  cases horder : order a b with
  | lt => rfl
  | eq => exact absurd (key_eq_of_order horder) hab.2
  | gt =>
    rw [horder] at hab
    cases hab.1

theorem keys_aggregate_of_perm (h : modules.Perm modules') :
    (aggregate modules).map key = (aggregate modules').map key := by
  have hincreasing (ms : List ModuleDir) :
      ((aggregate ms).map key).Pairwise fun k l => orderKeys k l = .lt :=
    List.pairwise_map.mpr (increasing_aggregate ms)
  have hperm : ((aggregate modules).map key).Perm ((aggregate modules').map key) := by
    refine (List.perm_ext_iff_of_nodup (aggregated _).nodup (aggregated _).nodup).mpr fun k => ?_
    simp only [mem_keys_aggregate_iff, h.mem_iff]
  refine hperm.eq_of_pairwise (fun k l _ _ hkl hlk => ?_) (hincreasing _) (hincreasing _)
  rw [Std.OrientedCmp.gt_of_lt hkl] at hlk
  cases hlk

/-! ## Directories in another order -/

/-- Both stand for the same module, and differ only in which of its directories came
first. -/
structure SameFacts (e f : Instrumentation) : Prop where
  eq : f = { e with path := f.path, sourcePath := f.sourcePath, kinds := f.kinds }
  kinds : e.kinds.Perm f.kinds

theorem sameFacts_of_perm {ms ms' : List ModuleDir} (h : ms.Perm ms')
    (he : ofModules? ms = some e) (hf : ofModules? ms' = some f) (hkey : e.key = f.key) :
    SameFacts e f := by
  cases ms with
  | nil => cases he
  | cons m ms =>
    cases ms' with
    | nil => cases hf
    | cons m' ms' =>
      cases he
      cases hf
      obtain ⟨hgroup, hspace, hname⟩ : m.group = m'.group ∧ m.nameSpace = m'.nameSpace ∧
          m.name = m'.name := by simpa [key, ofModule] using hkey
      exact ⟨by simp [ofModule, hgroup, hspace, hname], eraseDups_perm (h.map ModuleDir.kind)⟩

theorem forall₂_aggregate_of_perm (h : modules.Perm modules') :
    List.Forall₂ SameFacts (aggregate modules) (aggregate modules') := by
  have hkeys :
      List.Forall₂ (fun e f => e.key = f.key) (aggregate modules) (aggregate modules') := by
    refine List.forall₂_map_left_iff.mp (List.forall₂_map_right_iff.mp ?_)
    rw [keys_aggregate_of_perm h, List.forall₂_eq_eq_eq]
  obtain ⟨hlength, hzip⟩ := List.forall₂_iff_zip.mp hkeys
  refine List.forall₂_iff_zip.mpr ⟨hlength, fun {e f} hef => ?_⟩
  obtain ⟨he, hf⟩ := List.of_mem_zip hef
  have hkey := hzip hef
  have hf' := mem_aggregate_iff.mp hf
  rw [← hkey] at hf'
  exact sameFacts_of_perm (h.filter _) (mem_aggregate_iff.mp he) hf' hkey

/-- **Aggregation is an exact grouping.** There is one instrumentation for each key among
the directories, in the order of keys. It lies where the first directory of its key says,
has the kinds of that key in the order of their first occurrence, and knows nothing else.
So in another order of the directories only the place and the order of kinds can differ. -/
theorem aggregate_groups (modules : List ModuleDir) :
    (aggregate modules).Pairwise (fun a b => order a b = .lt) ∧
    ((aggregate modules).map key).Nodup ∧
    (∀ k, k ∈ (aggregate modules).map key ↔
      ∃ m ∈ modules, (m.group, m.nameSpace, m.name) = k) ∧
    (∀ e ∈ aggregate modules, ∃ m, modules.find? (fun m => m.key = e.key) = some m ∧ e = {
      path := m.path.parent?.getD m.path
      sourcePath := m.canonicalPath
      name := m.name
      nameSpace := m.nameSpace
      group := m.group
      kinds := ((modules.filter fun m => m.key = e.key).map ModuleDir.kind).eraseDups
      targetVersions := {}
      minJavaVersion := none
      configurations := []
      semanticTags := .empty
      spanKinds := .empty
      metadata := none
      telemetry := {} }) ∧
    ∀ modules', modules.Perm modules' →
      List.Forall₂ SameFacts (aggregate modules) (aggregate modules') := by
  refine ⟨increasing_aggregate modules, (aggregated modules).nodup, fun k => mem_keys_aggregate_iff,
    fun e he => ?_, fun modules' => forall₂_aggregate_of_perm⟩
  have hgathered := mem_aggregate_iff.mp he
  rw [← List.head?_filter]
  cases hms : modules.filter fun m => decide (m.key = e.key) with
  | nil =>
    rw [hms] at hgathered
    cases hgathered
  | cons m ms =>
    rw [hms] at hgathered
    exact ⟨m, rfl, (Option.some.inj hgathered).symm⟩

namespace Sample

/-- A module directory below `/r`. -/
def directory (parent name : String) (kind : ModuleKind) : ModuleDir :=
  let relative := parent.toList ++ '/' :: name.toList ++ '/' :: kind.segment
  { path := ⟨"/r/".toList ++ relative⟩
    relative
    name := name.toList
    nameSpace := Module.family name.toList
    group := Module.family name.toList
    kind }

/-- Two modules, one of them in two places and met three times. -/
def directories : List ModuleDir :=
  [directory "a" "okhttp-3.0" .library, directory "a" "executors" .agent,
    directory "a" "okhttp-3.0" .library, directory "b" "okhttp-3.0" .agent]

end Sample

open Instrumentation.Sample in
/-- The module in two places lies where it was met first, and has both kinds. -/
theorem aggregate_groups_sample :
    directories.Perm directories.reverse ∧
      (∃ e ∈ aggregate directories, e.name = "okhttp-3.0".toList ∧
        e.kinds = [.library, .agent] ∧ e.path = ⟨"/r/a/okhttp-3.0".toList⟩) ∧
      List.Forall₂ SameFacts (aggregate directories) (aggregate directories.reverse) := by
  have hperm : directories.Perm directories.reverse := (List.reverse_perm _).symm
  obtain ⟨-, -, hkeys, hentry, hreordered⟩ := aggregate_groups directories
  refine ⟨hperm, ?_, hreordered _ hperm⟩
  obtain ⟨e, he, hkey⟩ := List.mem_map.mp
    ((hkeys (directory "a" "okhttp-3.0" .library).key).mpr ⟨_, by decide, rfl⟩)
  obtain ⟨m, hm, heq⟩ := hentry e he
  rw [hkey] at hm heq
  have hfirst : m = directory "a" "okhttp-3.0" .library :=
    Option.some.inj (hm.symm.trans (by decide))
  subst hfirst
  exact ⟨e, he, by rw [heq]; rfl, by rw [heq]; decide, by rw [heq]; decide⟩

end Instrumentation

end ModuleDocs

import Mathlib.Order.Bounds.Basic
import ModuleDocs.Proofs.Instrumentation.Attribution

/-!
# Dependency facts in any order

Descriptors are resolved one by one, and each adds versions to the set of its kind and may
ask for a higher platform version. What is there after several of them is told by which
facts were added, not by when or how often: a version is there if it was or one of them
brings it (`mem_versionsFor_addDependencies`), a kind has a set if it had one or one of them
brings a version for it (`isSome_addDependencies`), and the platform version is the highest
one asked for (`isHighest_addDependencies`). As an instrumentation differs from what it was
in nothing else, facts that are the same as a set come to the same
(`addDependencies_congr`), so modules may be resolved in any order.
-/

namespace ModuleDocs

namespace TargetVersions

theorem ext_get? {t t' : TargetVersions} (h : ∀ k, t.get? k = t'.get? k) : t = t' := by
  obtain ⟨agent, library⟩ := t
  obtain ⟨agent', library'⟩ := t'
  have hagent : agent = agent' := h .agent
  have hlibrary : library = library' := h .library
  rw [hagent, hlibrary]

end TargetVersions

namespace Instrumentation

variable {e f : Instrumentation} {kind t : ModuleKind} {info : DependencyInfo} {v : Text}
  {facts facts' : List (ModuleKind × DependencyInfo)}

/-- Adds what several descriptors say, each about its kind. -/
def addDependencies (e : Instrumentation) (facts : List (ModuleKind × DependencyInfo)) :
    Instrumentation :=
  facts.foldl (fun e fact => e.addDependencyInfo fact.1 fact.2) e

/-! ## Versions -/

/-- The versions for a kind are those from before and those of the facts about it. -/
theorem mem_versionsFor_addDependencies : v ∈ (e.addDependencies facts).versionsFor t ↔
    v ∈ e.versionsFor t ∨ ∃ fact ∈ facts, fact.1 = t ∧ v ∈ fact.2.versions := by
  induction facts generalizing e with
  | nil => simp [addDependencies]
  | cons fact facts ih =>
    rw [addDependencies, List.foldl_cons, ← addDependencies, ih, mem_versionsFor_addDependencyInfo,
      or_assoc, List.exists_mem_cons_iff, eq_comm (a := t)]

theorem isSome_addDependencyInfo :
    ((e.addDependencyInfo kind info).targetVersions.get? t).isSome ↔
      (e.targetVersions.get? t).isSome ∨ kind = t ∧ ∃ v, v ∈ info.versions := by
  have hversions : (∃ v, v ∈ info.versions) ↔ info.versions.toList ≠ [] :=
    ⟨fun ⟨_, hv⟩ => List.ne_nil_of_mem hv, List.exists_mem_of_ne_nil _⟩
  rw [addDependencyInfo, hversions]
  by_cases hnone : info.versions.toList = []
  · simp [hnone]
  · by_cases ht : t = kind
    · simp [hnone, ht, TargetVersions.add]
    · simp [hnone, ht, Ne.symm ht, TargetVersions.add]

/-- A kind has a set if it had one, or some fact about it brings a version. -/
theorem isSome_addDependencies : ((e.addDependencies facts).targetVersions.get? t).isSome ↔
    (e.targetVersions.get? t).isSome ∨
      ∃ fact ∈ facts, fact.1 = t ∧ ∃ v, v ∈ fact.2.versions := by
  induction facts generalizing e with
  | nil => simp [addDependencies]
  | cons fact facts ih =>
    rw [addDependencies, List.foldl_cons, ← addDependencies, ih, isSome_addDependencyInfo,
      or_assoc, List.exists_mem_cons_iff]

/-- Sets for the kinds are told by which kinds have one and what is in it. -/
theorem targetVersions_eq
    (hsome : ∀ t, (e.targetVersions.get? t).isSome ↔ (f.targetVersions.get? t).isSome)
    (hmem : ∀ t v, v ∈ e.versionsFor t ↔ v ∈ f.versionsFor t) :
    e.targetVersions = f.targetVersions := by
  refine TargetVersions.ext_get? fun t => ?_
  have hversions : e.versionsFor t = f.versionsFor t := TextSet.ext (hmem t)
  have hsome := hsome t
  rw [versionsFor, versionsFor] at hversions
  cases he : e.targetVersions.get? t with
  | none =>
    rw [he] at hsome
    exact (Option.not_isSome_iff_eq_none.mp fun h => by simpa using hsome.mpr h).symm
  | some s =>
    rw [he] at hsome hversions
    obtain ⟨s', hs'⟩ := Option.isSome_iff_exists.mp (hsome.mp rfl)
    rw [hs'] at hversions ⊢
    exact congrArg some hversions

/-! ## The platform version -/

/-- The highest of some versions, if there are any. -/
def IsHighest (highest : Option Nat) (versions : Set Nat) : Prop :=
  match highest with
  | none => versions = ∅
  | some n => IsGreatest versions n

theorem isHighest_self (highest : Option Nat) : IsHighest highest {n | highest = some n} := by
  cases highest with
  | none => simp [IsHighest]
  | some n => simp [IsHighest, IsGreatest, upperBounds]

theorem IsHighest.max {a b : Option Nat} {A B : Set Nat} (ha : IsHighest a A)
    (hb : IsHighest b B) : IsHighest (max a b) (A ∪ B) := by
  cases a with
  | none =>
    have ha : A = ∅ := ha
    rwa [ha, Set.empty_union, Option.max_none_left]
  | some n =>
    cases b with
    | none =>
      have hb : B = ∅ := hb
      rwa [hb, Set.union_empty, Option.max_none_right]
    | some k =>
      have hgreatest : IsGreatest (A ∪ B) (Nat.max n k) := IsGreatest.union ha hb
      exact hgreatest

theorem IsHighest.unique {a b : Option Nat} {A : Set Nat} (ha : IsHighest a A)
    (hb : IsHighest b A) : a = b := by
  cases a with
  | none =>
    cases b with
    | none => rfl
    | some k =>
      have ha : A = ∅ := ha
      have hk : k ∈ A := hb.1
      simp [ha] at hk
  | some n =>
    cases b with
    | none =>
      have hb : A = ∅ := hb
      have hn : n ∈ A := ha.1
      simp [hb] at hn
    | some k => exact congrArg some (IsGreatest.unique ha hb)

/-- The platform versions that are asked for. -/
def platformVersions (e : Instrumentation) (facts : List (ModuleKind × DependencyInfo)) : Set Nat :=
  {n | e.minJavaVersion = some n ∨ ∃ fact ∈ facts, fact.2.minJavaVersion = some n}

/-- The platform version is the highest one asked for. -/
theorem isHighest_addDependencies :
    IsHighest (e.addDependencies facts).minJavaVersion (e.platformVersions facts) := by
  induction facts using List.reverseRecOn with
  | nil => simpa [addDependencies, platformVersions] using isHighest_self e.minJavaVersion
  | append_singleton facts fact ih =>
    have hversions : e.platformVersions (facts ++ [fact]) =
        e.platformVersions facts ∪ {n | fact.2.minJavaVersion = some n} := by
      ext n
      simp [platformVersions, or_assoc, or_and_right, exists_or]
    rw [addDependencies, List.foldl_append, hversions]
    exact ih.max (isHighest_self fact.2.minJavaVersion)

/-! ## All facts -/

/-- Nothing else changes. -/
theorem addDependencies_eq : e.addDependencies facts = { e with
    targetVersions := (e.addDependencies facts).targetVersions
    minJavaVersion := (e.addDependencies facts).minJavaVersion } := by
  induction facts generalizing e with
  | nil => rfl
  | cons fact facts ih =>
    rw [addDependencies, List.foldl_cons, ← addDependencies, ih]
    rfl

/-- Facts come to the same in whatever order and how often they are added. -/
theorem addDependencies_congr (h : ∀ fact, fact ∈ facts ↔ fact ∈ facts') :
    e.addDependencies facts = e.addDependencies facts' := by
  have hversions : (e.addDependencies facts).targetVersions =
      (e.addDependencies facts').targetVersions := by
    refine targetVersions_eq (fun t => ?_) fun t v => ?_
    · simp only [isSome_addDependencies, h]
    · simp only [mem_versionsFor_addDependencies, h]
  have hplatform : (e.addDependencies facts).minJavaVersion =
      (e.addDependencies facts').minJavaVersion := by
    have hasked : e.platformVersions facts = e.platformVersions facts' := by
      simp only [platformVersions, h]
    refine isHighest_addDependencies.unique ?_
    rw [hasked]
    exact isHighest_addDependencies
  rw [addDependencies_eq, hversions, hplatform]
  exact addDependencies_eq.symm

/-- **Dependency facts merge in any order.** The versions for a kind are united, and a kind
without a set gets one only for a version; the platform version is the highest of those
there are. Nothing else changes, and neither the order of the facts nor their repetition
makes a difference. -/
theorem addDependencies_any_order (e : Instrumentation)
    (facts : List (ModuleKind × DependencyInfo)) :
    (∀ t v, v ∈ (e.addDependencies facts).versionsFor t ↔
      v ∈ e.versionsFor t ∨ ∃ fact ∈ facts, fact.1 = t ∧ v ∈ fact.2.versions) ∧
    (∀ t, ((e.addDependencies facts).targetVersions.get? t).isSome ↔
      (e.targetVersions.get? t).isSome ∨
        ∃ fact ∈ facts, fact.1 = t ∧ ∃ v, v ∈ fact.2.versions) ∧
    IsHighest (e.addDependencies facts).minJavaVersion (e.platformVersions facts) ∧
    e.addDependencies facts = { e with
      targetVersions := (e.addDependencies facts).targetVersions
      minJavaVersion := (e.addDependencies facts).minJavaVersion } ∧
    (∀ facts', facts.Perm facts' → e.addDependencies facts' = e.addDependencies facts) ∧
    ∀ fact ∈ facts, (e.addDependencies facts).addDependencyInfo fact.1 fact.2 =
      e.addDependencies facts := by
  refine ⟨fun t v => mem_versionsFor_addDependencies, fun t => isSome_addDependencies,
    isHighest_addDependencies, addDependencies_eq, fun facts' hperm => ?_, fun fact hfact => ?_⟩
  · exact addDependencies_congr fun fact => hperm.mem_iff.symm
  · have hagain : (e.addDependencies facts).addDependencyInfo fact.1 fact.2 =
        e.addDependencies (facts ++ [fact]) := by
      rw [addDependencies, addDependencies, List.foldl_append]
      rfl
    rw [hagain]
    refine addDependencies_congr fun fact' => ?_
    simp only [List.mem_append, List.mem_singleton, or_iff_left_iff_imp]
    rintro rfl
    exact hfact

namespace Sample

/-- An instrumentation of which only the names are known. -/
def bare : Instrumentation where
  path := ⟨"r/a".toList⟩
  sourcePath := "a".toList
  name := "a".toList
  nameSpace := "a".toList
  group := "a".toList

/-- What three descriptors say; the one about the agent declares no version. -/
def resolved : List (ModuleKind × DependencyInfo) :=
  [(.library, ⟨.ofList ["g:a:1".toList], some 8⟩), (.agent, ⟨.empty, some 17⟩),
    (.library, ⟨.ofList ["g:b:2".toList], none⟩)]

end Sample

open Instrumentation.Sample in
/-- A descriptor without a version makes no set, but its platform version counts. -/
theorem addDependencies_any_order_sample :
    resolved.Perm resolved.reverse ∧
      bare.addDependencies resolved.reverse = bare.addDependencies resolved ∧
      (∃ fact ∈ resolved, (bare.addDependencies resolved).addDependencyInfo fact.1 fact.2 =
        bare.addDependencies resolved) ∧
      "g:b:2".toList ∈ (bare.addDependencies resolved).versionsFor .library ∧
      (bare.addDependencies resolved).targetVersions.get? .agent = none ∧
      (bare.addDependencies resolved).minJavaVersion = some 17 := by
  have hperm : resolved.Perm resolved.reverse := (List.reverse_perm _).symm
  obtain ⟨hversions, -, -, -, horder, hagain⟩ := addDependencies_any_order bare resolved
  exact ⟨hperm, horder _ hperm, ⟨_, List.mem_cons_self, hagain _ List.mem_cons_self⟩,
    (hversions _ _).mpr (Or.inr ⟨(.library, ⟨.ofList ["g:b:2".toList], none⟩), by simp [resolved],
      rfl, by simp⟩), by decide, by decide⟩

end Instrumentation

end ModuleDocs

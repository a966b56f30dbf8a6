import Mathlib.Data.List.Induction
import Mathlib.Data.List.Nodup
import ModuleDocs.Instrumentation

/-!
# One instrumentation for each key

Module directories are entered one by one: the first of a key starts its instrumentation,
the others add their kinds to it. So each key among the directories has one
instrumentation, which lies where the first directory of the key says and knows no
version yet (`aggregated`).
-/

namespace ModuleDocs

namespace Instrumentation

variable {e : Instrumentation} {es : List Instrumentation} {m : ModuleDir}
  {modules : List ModuleDir}

/-! ## Adding a kind -/

@[simp] theorem key_addKind (e : Instrumentation) (kind : ModuleKind) :
    (e.addKind kind).key = e.key := by
  rw [addKind]
  split <;> rfl

@[simp] theorem path_addKind (e : Instrumentation) (kind : ModuleKind) :
    (e.addKind kind).path = e.path := by
  rw [addKind]
  split <;> rfl

@[simp] theorem targetVersions_addKind (e : Instrumentation) (kind : ModuleKind) :
    (e.addKind kind).targetVersions = e.targetVersions := by
  rw [addKind]
  split <;> rfl

/-! ## Entering a directory -/

/-- Entering a directory adds its key, unless it is there. -/
theorem keys_enter (es : List Instrumentation) (m : ModuleDir) :
    (enter es m).map key =
      if (ofModule m).key ∈ es.map key then es.map key else es.map key ++ [(ofModule m).key] := by
  induction es with
  | nil => simp [enter]
  | cons e r ih =>
    rw [enter]
    by_cases he : e.key = (ofModule m).key
    · simp [he]
    · rw [if_neg he, List.map_cons, ih, List.map_cons]
      by_cases hr : (ofModule m).key ∈ r.map key
      · rw [if_pos hr, if_pos (List.mem_cons_of_mem _ hr)]
      · rw [if_neg hr, if_neg (by simpa [Ne.symm he] using hr), List.cons_append]

/-- After a directory is entered, an instrumentation is one from before, if with one more
kind, or starts with the directory. -/
theorem mem_enter (h : e ∈ enter es m) :
    (∃ d ∈ es, e = d ∨ e = d.addKind m.kind) ∨ e = (ofModule m).addKind m.kind := by
  induction es with
  | nil => exact Or.inr (List.mem_singleton.mp h)
  | cons d r ih =>
    rw [enter] at h
    split at h
    · rcases List.mem_cons.mp h with rfl | hr
      · exact Or.inl ⟨d, List.mem_cons_self, Or.inr rfl⟩
      · exact Or.inl ⟨e, List.mem_cons_of_mem _ hr, Or.inl rfl⟩
    · rcases List.mem_cons.mp h with rfl | hr
      · exact Or.inl ⟨e, List.mem_cons_self, Or.inl rfl⟩
      · rcases ih hr with ⟨d', hd', he⟩ | he
        · exact Or.inl ⟨d', List.mem_cons_of_mem _ hd', he⟩
        · exact Or.inr he

/-! ## Entering all directories -/

/-- Instrumentations that stand for the keys of module directories. -/
structure Aggregated (modules : List ModuleDir) (es : List Instrumentation) : Prop where
  nodup : (es.map key).Nodup
  /-- Every directory has the instrumentation of its key. -/
  covers : ∀ m ∈ modules, (ofModule m).key ∈ es.map key
  /-- An instrumentation starts with a directory of its key. -/
  starts : ∀ e ∈ es, ∃ m ∈ modules,
    (ofModule m).key = e.key ∧ (ofModule m).path = e.path ∧ e.targetVersions = {}

/-- One more directory is entered. -/
theorem Aggregated.enter (h : Aggregated modules es) (m : ModuleDir) :
    Aggregated (modules ++ [m]) (enter es m) where
  nodup := by
    rw [keys_enter]
    split
    · exact h.nodup
    · next hnew =>
      refine h.nodup.append (List.nodup_singleton _) fun k hk hm => hnew ?_
      rwa [← List.mem_singleton.mp hm]
  covers := by
    intro m' hm'
    rw [keys_enter]
    rcases List.mem_append.mp hm' with hold | hlast
    · split
      · exact h.covers m' hold
      · exact List.mem_append_left _ (h.covers m' hold)
    · rw [List.mem_singleton.mp hlast]
      split
      · assumption
      · exact List.mem_append_right _ List.mem_cons_self
  starts := by
    intro e he
    rcases mem_enter he with ⟨d, hd, hde⟩ | rfl
    · obtain ⟨m', hm', hkey, hpath, hversions⟩ := h.starts d hd
      refine ⟨m', List.mem_append_left _ hm', ?_⟩
      rcases hde with rfl | rfl
      · exact ⟨hkey, hpath, hversions⟩
      · simpa using ⟨hkey, hpath, hversions⟩
    · exact ⟨m, by simp, by simp [ofModule]⟩

/-- **Each key among module directories has one instrumentation**, which starts with a
directory of that key. -/
theorem aggregated (modules : List ModuleDir) : Aggregated modules (aggregate modules) := by
  have hall : Aggregated modules (modules.foldl Instrumentation.enter []) := by
    induction modules using List.reverseRecOn with
    | nil => exact ⟨by simp, by simp, by simp⟩
    | append_singleton modules m ih =>
      rw [List.foldl_append]
      exact ih.enter m
  have hperm : (aggregate modules).Perm (modules.foldl Instrumentation.enter []) :=
    List.mergeSort_perm _ _
  refine ⟨(hperm.map key).nodup_iff.mpr hall.nodup, fun m hm => ?_, fun e he => ?_⟩
  · exact (hperm.map key).mem_iff.mpr (hall.covers m hm)
  · exact hall.starts e (hperm.mem_iff.mp he)

end Instrumentation

end ModuleDocs

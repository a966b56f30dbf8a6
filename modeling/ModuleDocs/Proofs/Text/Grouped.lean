import Mathlib.Data.List.Basic
import Mathlib.Data.List.Induction
import Mathlib.Data.List.Nodup
import ModuleDocs.Proofs.Text.Keyed

/-!
# Sorting in groups

Lists are sorted here in two ways: all at once, or by collecting the elements in a map
under a text and sorting what is at each key. The map is settled by `entries_groupBy`:
at each key that occurs stand the elements of that key, in the order they came in.

Sorted lists are not determined by their elements when some of these tie, so comparing
the two ways needs more than `List.Perm`: both keep tied elements in the order they
came in, and a sorted list is known by what it holds of each tie (`eq_of_tied`).
With it, sorting in groups is sorting by the key first (`flatMap_groupBy`).
-/

namespace ModuleDocs

variable {α : Type} {cmp : α → α → Ordering} {l m : List α} {a x : α}

/-! ## Stable sorting -/

/-- Sorts a list; elements that tie keep the order they came in. -/
def sortBy (cmp : α → α → Ordering) (l : List α) : List α :=
  l.mergeSort fun a b => (cmp a b).isLE

/-- The elements that tie with `a`, in the order they stand. -/
def tied (cmp : α → α → Ordering) (a : α) (l : List α) : List α :=
  l.filter fun x => cmp a x = .eq

theorem mem_tied : x ∈ tied cmp a l ↔ x ∈ l ∧ cmp a x = .eq := by
  simp [tied]

theorem sortBy_perm : (sortBy cmp l).Perm l := List.mergeSort_perm l _

section

variable [Std.TransCmp cmp]

theorem isLE_total (a b : α) : ((cmp a b).isLE || (cmp b a).isLE) = true := by
  have hswap : cmp b a = (cmp a b).swap := Std.OrientedCmp.eq_swap
  rw [hswap]
  cases cmp a b <;> rfl

theorem pairwise_sortBy : (sortBy cmp l).Pairwise fun a b => (cmp a b).isLE :=
  List.pairwise_mergeSort (fun _ _ _ => Std.TransCmp.isLE_trans) isLE_total l

theorem mem_iff_of_tied (h : tied cmp x l = tied cmp x m) : x ∈ l ↔ x ∈ m := by
  have hself : cmp x x = .eq := Std.ReflCmp.compare_self
  have hmem : x ∈ tied cmp x l ↔ x ∈ tied cmp x m := by rw [h]
  rwa [mem_tied, mem_tied, and_iff_left hself, and_iff_left hself] at hmem

/-- The first element of a sorted list is below all of them. -/
theorem isLE_of_mem_cons {y : α} (hl : (x :: l).Pairwise fun a b => (cmp a b).isLE)
    (hy : y ∈ x :: l) : (cmp x y).isLE := by
  rcases List.mem_cons.mp hy with rfl | hy
  · have hself : cmp y y = .eq := Std.ReflCmp.compare_self
    rw [hself]
    rfl
  · exact (List.pairwise_cons.mp hl).1 y hy

/-- Two sorted lists are equal if they hold the same of each tie. -/
theorem eq_of_tied (hl : l.Pairwise fun a b => (cmp a b).isLE)
    (hm : m.Pairwise fun a b => (cmp a b).isLE) (h : ∀ a, tied cmp a l = tied cmp a m) :
    l = m := by
  induction l generalizing m with
  | nil =>
    refine (List.eq_nil_iff_forall_not_mem.mpr fun y hy => ?_).symm
    cases (mem_iff_of_tied (h y)).mpr hy
  | cons x l ih =>
    cases m with
    | nil => cases (mem_iff_of_tied (h x)).mp List.mem_cons_self
    | cons y m =>
      have htie : cmp x y = .eq := Std.OrientedCmp.isLE_antisymm
        (isLE_of_mem_cons hl ((mem_iff_of_tied (h y)).mpr List.mem_cons_self))
        (isLE_of_mem_cons hm ((mem_iff_of_tied (h x)).mp List.mem_cons_self))
      -- The heads tie, so both stand first among the elements that tie with them.
      have heq : x = y := by
        have hself : cmp x x = .eq := Std.ReflCmp.compare_self
        have hheads := h x
        rw [tied, tied, List.filter_cons_of_pos (by simp [hself]),
          List.filter_cons_of_pos (by simp [htie])] at hheads
        exact (List.cons.inj hheads).1
      subst heq
      refine congrArg (x :: ·) (ih hl.tail hm.tail fun a => ?_)
      have ha := h a
      rw [tied, tied, List.filter_cons, List.filter_cons] at ha
      split at ha
      · exact (List.cons.inj ha).2
      · exact ha

/-- Sorting leaves tied elements in the order they came in. -/
theorem tied_sortBy (a : α) : tied cmp a (sortBy cmp l) = tied cmp a l := by
  have hties : (tied cmp a l).Pairwise fun a b => (cmp a b).isLE := by
    refine List.pairwise_of_forall_mem_list fun x hx y hy => ?_
    have hxy : cmp x y = .eq :=
      Std.TransCmp.eq_trans (Std.OrientedCmp.eq_symm (mem_tied.mp hx).2) (mem_tied.mp hy).2
    rw [hxy]
    rfl
  have hkept : (tied cmp a l).Sublist (sortBy cmp l) :=
    List.sublist_mergeSort (fun _ _ _ => Std.TransCmp.isLE_trans) isLE_total hties
      List.filter_sublist
  have hsub := hkept.filter fun x => decide (cmp a x = .eq)
  rw [tied, List.filter_filter] at hsub
  simp only [Bool.and_self] at hsub
  exact (hsub.eq_of_length ((sortBy_perm.filter _).length_eq.symm)).symm

/-- The order elements come in does not show in a sorted list if only equal keys tie and
no two elements share one. -/
theorem sortBy_eq_of_perm {β : Type} {key : α → β} (hkey : ∀ a b, cmp a b = .eq → key a = key b)
    (h : l.Perm m) (hkeys : (l.map key).Nodup) : sortBy cmp l = sortBy cmp m := by
  refine List.Perm.eq_of_pairwise (fun a b ha hb hab hba => ?_) pairwise_sortBy pairwise_sortBy
    (sortBy_perm.trans (h.trans sortBy_perm.symm))
  have ha : a ∈ l := sortBy_perm.mem_iff.mp ha
  have hb : b ∈ l := h.mem_iff.mpr (sortBy_perm.mem_iff.mp hb)
  exact List.inj_on_of_nodup_map hkeys ha hb (hkey a b (Std.OrientedCmp.isLE_antisymm hab hba))

end

/-! ## Groups -/

namespace TextMap

/-- The elements of a list under their keys, each group in the order it came in. -/
def groupBy (key : α → Text) (l : List α) : TextMap (List α) :=
  l.foldl (fun m x => m.insertWith (· ++ ·) (key x) [x]) empty

variable {key : α → Text} {k q : Text}

theorem keys_groupBy : (groupBy key l).keys = (TextSet.ofList (l.map key)).toList := by
  suffices h : ∀ (m : TextMap (List α)) (s : TextSet), m.keys = s.toList →
      (l.foldl (fun m x => m.insertWith (· ++ ·) (key x) [x]) m).keys =
        (s.insertMany (l.map key)).toList from h _ _ rfl
  intro m s hms
  induction l generalizing m s with
  | nil => exact hms
  | cons x l ih =>
    refine ih _ (s.insert (key x)) ?_
    refine (keys_insertInto _ _ _ m.entries).trans ?_
    exact congrArg (TextSet.insertInto (key x)) hms

theorem groupBy_concat :
    groupBy key (l ++ [x]) = (groupBy key l).insertWith (· ++ ·) (key x) [x] := by
  rw [groupBy, List.foldl_append]
  rfl

theorem get?_groupBy : (groupBy key l).get? k =
    if l.filter (key · = k) = [] then none else some (l.filter (key · = k)) := by
  induction l using List.reverseRecOn with
  | nil => rfl
  | append_singleton l x ih =>
    rw [groupBy_concat, get?_insertWith, List.filter_append]
    by_cases hk : k = key x
    · subst hk
      rw [if_pos rfl, ih]
      by_cases hnil : l.filter (key · = key x) = []
      · simp [hnil]
      · simp [hnil]
    · rw [if_neg hk, ih]
      simp [Ne.symm hk]

/-- **At each key that occurs stand the elements of that key**, as they came in. -/
theorem entries_groupBy : (groupBy key l).entries =
    (TextSet.ofList (l.map key)).toList.map fun k => (k, l.filter (key · = k)) := by
  rw [← keys_groupBy, keys, List.map_map]
  refine (List.map_id _).symm.trans (List.map_congr_left fun e he => ?_)
  have hget := mem_entries_iff.mp he
  rw [get?_groupBy] at hget
  split at hget
  · cases hget
  · exact Prod.ext rfl (Option.some.inj hget).symm

theorem filter_eq_nil_of_not_mem (h : q ∉ (TextSet.ofList (l.map key)).toList) :
    l.filter (key · = q) = [] := by
  rw [List.filter_eq_nil_iff]
  intro x hx hxq
  refine h (TextSet.mem_def.mp (TextSet.mem_ofList.mpr ?_))
  exact List.mem_map.mpr ⟨x, hx, by simpa using hxq⟩

theorem key_of_mem_sortBy (h : x ∈ sortBy cmp (l.filter (key · = k))) : key x = k := by
  simpa using (List.mem_filter.mp (sortBy_perm.mem_iff.mp h)).2

/-- The elements of one key, when the groups are put behind one another. -/
theorem filter_flatMap_sortBy {ks : List Text} (hks : ks.Nodup) :
    (ks.flatMap fun k => sortBy cmp (l.filter (key · = k))).filter (key · = q) =
      if q ∈ ks then sortBy cmp (l.filter (key · = q)) else [] := by
  induction ks with
  | nil => rfl
  | cons k ks ih =>
    obtain ⟨hk, hks⟩ := List.nodup_cons.mp hks
    rw [List.flatMap_cons, List.filter_append, ih hks]
    by_cases hkq : k = q
    · subst hkq
      rw [if_neg hk, if_pos List.mem_cons_self, List.append_nil, List.filter_eq_self]
      intro x hx
      simpa using key_of_mem_sortBy hx
    · have hnone : (sortBy cmp (l.filter (key · = k))).filter (key · = q) = [] := by
        rw [List.filter_eq_nil_iff]
        intro x hx hq
        exact hkq ((key_of_mem_sortBy hx).symm.trans (by simpa using hq))
      rw [hnone, List.nil_append]
      simp [Ne.symm hkq]

/-- What the groups hold of one key is the group of that key. -/
theorem filter_flatMap_groupBy :
    ((groupBy key l).entries.flatMap fun g => sortBy cmp g.2).filter (key · = q) =
      sortBy cmp (l.filter (key · = q)) := by
  have hks : (TextSet.ofList (l.map key)).toList.Nodup := by
    rw [← keys_groupBy]
    exact (groupBy key l).nodup_keys
  rw [entries_groupBy, List.flatMap_map, filter_flatMap_sortBy hks]
  split
  · rfl
  · next hnot => rw [filter_eq_nil_of_not_mem hnot, sortBy, List.mergeSort_nil]

/-- A tie lies inside one group, since the key comes first. -/
theorem tied_compareLex :
    tied (compareLex (compareOn key) cmp) a l = tied cmp a (l.filter (key · = key a)) := by
  rw [tied, tied, List.filter_filter]
  refine List.filter_congr fun x _ => ?_
  simp only [compareLex_eq_eq, compareOn, Std.LawfulEqCmp.compare_eq_iff_eq, Bool.decide_and]
  rw [Bool.and_comm, decide_eq_decide.mpr (eq_comm (a := key a))]

variable [Std.TransCmp cmp]

/-- **Sorting each group, and the groups by key, is sorting by the key first.** -/
theorem flatMap_groupBy : (groupBy key l).entries.flatMap (fun g => sortBy cmp g.2) =
    sortBy (compareLex (compareOn key) cmp) l := by
  refine eq_of_tied ?_ pairwise_sortBy fun a => ?_
  · rw [entries_groupBy, List.flatMap_map, List.pairwise_flatMap]
    constructor
    · intro k _
      refine List.Pairwise.imp_of_mem (fun {x y} hx hy hxy => ?_) pairwise_sortBy
      have hkey : compare (key x) (key y) = .eq := Std.LawfulEqCmp.compare_eq_iff_eq.mpr
        ((key_of_mem_sortBy hx).trans (key_of_mem_sortBy hy).symm)
      rw [compareLex, compareOn, hkey]
      exact hxy
    · refine (TextSet.ofList (l.map key)).increasing.imp fun {k q} hlt x hx y hy => ?_
      rw [compareLex, compareOn, key_of_mem_sortBy hx, key_of_mem_sortBy hy, hlt]
      rfl
  · rw [tied_sortBy, tied_compareLex, tied_compareLex, filter_flatMap_groupBy, tied_sortBy]

/-- The elements of one key in a sorted list are those elements, sorted. -/
theorem filter_sortBy : (sortBy (compareLex (compareOn key) cmp) l).filter (key · = q) =
    sortBy cmp (l.filter (key · = q)) := by
  rw [← flatMap_groupBy, filter_flatMap_groupBy]

end TextMap

end ModuleDocs

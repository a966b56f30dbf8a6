import ModuleDocs.Path

/-!
# The order of paths

Paths are put in the order of their components, which is a linear order: what is
sorted by path comes out the same whatever order it was found in. Spellings of one
path have the same components and so the same place; a list of different paths in
this order is settled by what is in it (`Increasing.ext`).
-/

namespace ModuleDocs

namespace Component

/-- The place of a component among the kinds. -/
def rank : Component → Nat
  | root => 0
  | current => 1
  | parent => 2
  | name _ => 3

/-- What tells components of one kind apart. -/
def label : Component → Text
  | name n => n
  | _ => []

/-- Components are compared by their kinds, then by their names. -/
theorem order_eq : order = compareLex (compareOn rank) (compareOn label) := by
  funext a b
  cases a <;> cases b <;> rfl

instance : Std.TransCmp order := by
  rw [order_eq]
  infer_instance

theorem eq_of_order {a b : Component} (h : order a b = .eq) : a = b := by
  rw [order_eq, compareLex_eq_eq, compareOn, compareOn] at h
  have hrank := Std.LawfulEqCmp.eq_of_compare h.1
  have hlabel := Std.LawfulEqCmp.eq_of_compare h.2
  cases a <;> cases b <;> simp_all [rank, label]

instance : Std.LawfulEqCmp order where
  compare_self := Std.ReflCmp.compare_self
  eq_of_compare := eq_of_order

end Component

namespace Path

/-- Components are compared one by one. -/
theorem orderComponents_eq : orderComponents = List.compareLex Component.order := by
  funext as bs
  induction as generalizing bs with
  | nil => cases bs <;> rfl
  | cons a as ih =>
    cases bs with
    | nil => rfl
    | cons b bs => rw [orderComponents, List.compareLex_cons_cons, ih]

variable {p q r : Path}

theorem order_isLE_trans (hpq : (order p q).isLE = true) (hqr : (order q r).isLE = true) :
    (order p r).isLE = true := by
  rw [order, orderComponents_eq] at *
  exact Std.TransCmp.isLE_trans hpq hqr

theorem order_isLE_total (p q : Path) : ((order p q).isLE || (order q p).isLE) = true := by
  rw [order, order, orderComponents_eq]
  cases h : List.compareLex Component.order p.components q.components with
  | gt => rw [Std.OrientedCmp.lt_of_gt h]; rfl
  | lt | eq => rfl

/-- Different paths that are ordered are strictly ordered. -/
theorem order_eq_lt (hle : (order p q).isLE = true) (hne : p.components ≠ q.components) :
    order p q = .lt := by
  cases h : order p q with
  | lt => rfl
  | eq =>
    rw [order, orderComponents_eq] at h
    exact absurd (Std.LawfulEqCmp.eq_of_compare h) hne
  | gt =>
    rw [h] at hle
    cases hle

/-- The paths of a list, read off by `key`, are strictly increasing. -/
def Increasing {α : Type} (key : α → List Component) (l : List α) : Prop :=
  l.Pairwise fun a b => orderComponents (key a) (key b) = .lt

/-- Increasing lists with the same members are equal. -/
theorem Increasing.ext {α : Type} {key : α → List Component} {l m : List α}
    (hl : Increasing key l) (hm : Increasing key m) (h : ∀ x, x ∈ l ↔ x ∈ m) : l = m := by
  rw [Increasing, orderComponents_eq] at hl hm
  have hirrefl (as : List Component) : List.compareLex Component.order as as ≠ .lt := by
    have heq : List.compareLex Component.order as as = .eq := Std.ReflCmp.compare_self
    simp [heq]
  have hnodup {k : List α}
      (hk : k.Pairwise fun a b => List.compareLex Component.order (key a) (key b) = .lt) :
      k.Nodup := by
    refine hk.imp fun hab heq => ?_
    rw [heq] at hab
    exact hirrefl _ hab
  have hperm := (List.perm_ext_iff_of_nodup (hnodup hl) (hnodup hm)).mpr h
  refine hperm.eq_of_pairwise (fun a b _ _ hab hba => ?_) hl hm
  exact absurd (Std.TransCmp.lt_trans hab hba) (hirrefl _)

/-- Sorted paths are in strict order, if no two spell one path. -/
theorem increasing_sort {ps : List Path} (h : (ps.map components).Nodup) :
    Increasing components (sort ps) := by
  have hsorted : (sort ps).Pairwise fun p q => (order p q).isLE = true := by
    refine List.pairwise_mergeSort ?_ ?_ _
    · exact fun _ _ _ => order_isLE_trans
    · exact fun _ _ => order_isLE_total _ _
  have hdistinct : (sort ps).Pairwise fun p q => p.components ≠ q.components :=
    List.pairwise_map.mp (((List.mergeSort_perm ps _).map components).nodup_iff.mpr h)
  exact (hsorted.and hdistinct).imp fun hpq => order_eq_lt hpq.1 hpq.2

theorem mem_sort {ps : List Path} {p : Path} : p ∈ sort ps ↔ p ∈ ps :=
  (List.mergeSort_perm ps _).mem_iff

theorem length_sort {ps : List Path} : (sort ps).length = ps.length :=
  (List.mergeSort_perm ps _).length_eq

end Path

end ModuleDocs

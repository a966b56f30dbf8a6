import Mathlib.Data.List.Induction
import ModuleDocs.Text.Sorted

/-!
# Maps by what is looked up

A `TextMap` is known by its look-ups: an entry is in it exactly if it is found
(`mem_entries_iff`), and it is empty exactly if nothing is (`isEmpty_iff`). So a map
that is built entry by entry is settled by which of several entries at a key wins.
-/

namespace ModuleDocs

namespace TextMap

variable {α β : Type} {m : TextMap α} {l : List (Text × α)} {k q : Text} {v : α}

/-! ## Entries -/

theorem eq_of_entries_eq {m' : TextMap α} (h : m.entries = m'.entries) : m = m' := by
  obtain ⟨entries, increasing⟩ := m
  subst h
  rfl

theorem mem_of_lookup (h : lookup k l = some v) : (k, v) ∈ l := by
  induction l with
  | nil => cases h
  | cons e l ih =>
    obtain ⟨k', v'⟩ := e
    rw [lookup] at h
    split at h
    · next hk =>
      cases h
      rw [hk]
      exact List.mem_cons_self
    · exact List.mem_cons_of_mem _ (ih h)

theorem lookup_of_mem (hl : (l.map Prod.fst).Nodup) (h : (k, v) ∈ l) : lookup k l = some v := by
  induction l with
  | nil => cases h
  | cons e l ih =>
    obtain ⟨k', v'⟩ := e
    rw [List.map_cons, List.nodup_cons] at hl
    rw [lookup]
    rcases List.mem_cons.mp h with heq | hmem
    · cases heq
      rw [if_pos rfl]
    · have hk : k ≠ k' := fun heq => hl.1 (heq ▸ List.mem_map.mpr ⟨_, hmem, rfl⟩)
      rw [if_neg hk, ih hl.2 hmem]

/-- The first entry at a key is looked up. -/
theorem lookup_eq_some_iff : lookup k l = some v ↔
    ∃ earlier later, l = earlier ++ (k, v) :: later ∧ ∀ e ∈ earlier, e.1 ≠ k := by
  induction l with
  | nil => simp [lookup]
  | cons e l ih =>
    obtain ⟨k', v'⟩ := e
    rw [lookup]
    split
    · next hk =>
      constructor
      · intro h
        cases h
        exact ⟨[], l, by rw [hk]; rfl, by simp⟩
      · rintro ⟨earlier, later, hl, hearlier⟩
        cases earlier with
        | nil =>
          cases hl
          rfl
        | cons e earlier =>
          cases hl
          exact absurd hk.symm (hearlier _ List.mem_cons_self)
    · next hk =>
      rw [ih]
      constructor
      · rintro ⟨earlier, later, rfl, hearlier⟩
        exact ⟨(k', v') :: earlier, later, rfl, List.forall_mem_cons.mpr ⟨Ne.symm hk, hearlier⟩⟩
      · rintro ⟨earlier, later, hl, hearlier⟩
        cases earlier with
        | nil =>
          cases hl
          exact absurd rfl hk
        | cons e earlier =>
          cases hl
          exact ⟨earlier, later, rfl, (List.forall_mem_cons.mp hearlier).2⟩

theorem lookup_isSome_iff : (lookup k l).isSome ↔ k ∈ l.map Prod.fst := by
  induction l with
  | nil => simp [lookup]
  | cons e l ih =>
    obtain ⟨k', v'⟩ := e
    rw [lookup, List.map_cons, List.mem_cons, ← ih]
    split
    · next hk => simp [hk]
    · next hk => simp [hk]

theorem lookup_map {f : Text → α → β} :
    lookup k (l.map fun e => (e.1, f e.1 e.2)) = (lookup k l).map (f k) := by
  induction l with
  | nil => rfl
  | cons e l ih =>
    obtain ⟨k', v'⟩ := e
    rw [List.map_cons, lookup, lookup]
    split
    · next h => rw [h, Option.map_some]
    · exact ih

/-- Leaving out keys leaves the others as they are. -/
theorem lookup_filter {p : Text → Bool} :
    lookup k (l.filter fun e => p e.1) = if p k then lookup k l else none := by
  induction l with
  | nil => simp [lookup]
  | cons e l ih =>
    obtain ⟨k', v'⟩ := e
    rw [List.filter_cons]
    by_cases hk : k = k'
    · subst hk
      cases hp : p k <;> simp [hp, ih, lookup]
    · cases p k' <;> simp [ih, lookup, hk]

/-- Of the entries that a list gives rise to, in its order, the first one at a key is looked up. -/
theorem lookup_filterMap_eq_some_iff {R : β → β → Prop} {l : List β} {f : β → Option (Text × α)}
    (hl : l.Pairwise R) (hR : ∀ a b, R a b → ¬ R b a) :
    lookup k (l.filterMap f) = some v ↔
      ∃ a ∈ l, f a = some (k, v) ∧ ∀ b ∈ l, ∀ w, f b = some (k, w) → ¬ R b a := by
  induction l with
  | nil => simp [lookup]
  | cons a l ih =>
    obtain ⟨hahead, hl⟩ := List.pairwise_cons.mp hl
    -- an element that gives no entry at the key can be left out on both sides
    have hskip (hne : ∀ w, f a ≠ some (k, w)) :
        (∃ b ∈ l, f b = some (k, v) ∧ ∀ b' ∈ l, ∀ w, f b' = some (k, w) → ¬ R b' b) ↔
          ∃ b ∈ a :: l, f b = some (k, v) ∧ ∀ b' ∈ a :: l, ∀ w, f b' = some (k, w) → ¬ R b' b := by
      simp only [List.mem_cons, forall_eq_or_imp, exists_eq_or_imp, hne, false_and, false_or,
        false_implies, implies_true, true_and]
    cases hfa : f a with
    | none =>
      rw [List.filterMap_cons_none hfa, ih hl, hskip (by simp [hfa])]
    | some e =>
      obtain ⟨k', v'⟩ := e
      rw [List.filterMap_cons_some hfa, lookup]
      by_cases hk : k = k'
      · subst hk
        rw [if_pos rfl]
        constructor
        · intro h
          cases h
          refine ⟨a, List.mem_cons_self, hfa, ?_⟩
          intro b hb w _ hba
          rcases List.mem_cons.mp hb with rfl | hmem
          · exact hR b b hba hba
          · exact hR b a hba (hahead b hmem)
        · intro h
          obtain ⟨b, hb, hfb, hfirst⟩ := h
          rcases List.mem_cons.mp hb with rfl | hmem
          · rw [hfa, Option.some.injEq, Prod.mk.injEq] at hfb
            rw [hfb.2]
          · exact absurd (hahead b hmem) (hfirst a List.mem_cons_self v' hfa)
      · rw [if_neg hk, ih hl, hskip]
        intro w hw
        rw [hfa, Option.some.injEq, Prod.mk.injEq] at hw
        exact hk hw.1.symm

theorem lookup_filterMap_eq_none_iff {l : List β} {f : β → Option (Text × α)} :
    lookup k (l.filterMap f) = none ↔ ∀ a ∈ l, ∀ w, f a ≠ some (k, w) := by
  induction l with
  | nil => simp [lookup]
  | cons a l ih =>
    cases hfa : f a with
    | none => simp [List.filterMap_cons_none hfa, ih, hfa]
    | some e =>
      obtain ⟨k', v'⟩ := e
      rw [List.filterMap_cons_some hfa, lookup]
      by_cases hk : k = k'
      · simp [hk, hfa]
      · simp [hk, Ne.symm hk, hfa, ih]

theorem nodup_keys (m : TextMap α) : (m.entries.map Prod.fst).Nodup := by
  refine m.increasing.imp fun hlt heq => ?_
  rw [heq] at hlt
  simp at hlt

/-- An entry is in a map exactly if it is found. -/
theorem mem_entries_iff : (k, v) ∈ m.entries ↔ m.get? k = some v :=
  ⟨lookup_of_mem m.nodup_keys, mem_of_lookup⟩

theorem mem_keys_iff : k ∈ m.keys ↔ (m.get? k).isSome := by
  rw [keys, List.mem_map, Option.isSome_iff_exists]
  constructor
  · rintro ⟨⟨k, v⟩, hmem, rfl⟩
    exact ⟨v, mem_entries_iff.mp hmem⟩
  · rintro ⟨v, hv⟩
    exact ⟨(k, v), mem_entries_iff.mpr hv, rfl⟩

/-- Maps with the same look-ups are equal. -/
theorem ext_get? {m' : TextMap α} (h : ∀ k, m.get? k = m'.get? k) : m = m' := by
  refine eq_of_entries_eq ?_
  have hincreasing (m : TextMap α) : m.entries.Pairwise fun a b => compare a.1 b.1 = .lt :=
    List.pairwise_map.mp m.increasing
  have hnodup (m : TextMap α) : m.entries.Nodup :=
    (List.pairwise_map.mp m.nodup_keys).imp fun hne heq => hne (congrArg Prod.fst heq)
  have hperm : m.entries.Perm m'.entries := by
    refine (List.perm_ext_iff_of_nodup (hnodup m) (hnodup m')).mpr fun e => ?_
    rw [mem_entries_iff, mem_entries_iff, h]
  refine hperm.eq_of_pairwise (fun a b _ _ hab hba => ?_) (hincreasing m) (hincreasing m')
  rw [Std.OrientedCmp.gt_of_lt hab] at hba
  cases hba

theorem isEmpty_iff : m.isEmpty = true ↔ ∀ k, m.get? k = none := by
  rw [isEmpty, List.isEmpty_iff]
  constructor
  · intro h k
    rw [get?, h, lookup]
  · intro h
    refine List.eq_nil_iff_forall_not_mem.mpr fun e he => ?_
    have hfound := mem_entries_iff.mp he
    rw [h] at hfound
    cases hfound

theorem get?_mapValues {f : Text → α → β} : (m.mapValues f).get? k = (m.get? k).map (f k) :=
  lookup_map

theorem isEmpty_mapValues {f : Text → α → β} : (m.mapValues f).isEmpty = m.isEmpty := by
  simp [isEmpty, mapValues]

/-! ## Insertions -/

theorem get?_insert : (m.insert k v).get? q = if q = k then some v else m.get? q := by
  rw [insert, get?_insertWith]
  cases m.get? k <;> rfl

theorem get?_insertIfNew :
    (m.insertIfNew k v).get? q = if q = k then some ((m.get? k).getD v) else m.get? q := by
  rw [insertIfNew, get?_insertWith]
  cases m.get? k <;> rfl

/-- Of entries that are inserted where there is none the first one at a key stays. -/
theorem get?_foldl_insertIfNew : (l.foldl (fun m e => m.insertIfNew e.1 e.2) m).get? k =
    (m.get? k).or (lookup k l) := by
  induction l generalizing m with
  | nil => simp [lookup]
  | cons e l ih =>
    obtain ⟨k', v'⟩ := e
    rw [List.foldl_cons, ih, get?_insertIfNew, lookup]
    split
    · next h =>
      rw [h]
      cases m.get? k' <;> rfl
    · rfl

/-- Of the entries that a map is made of the last one at a key stands. -/
theorem get?_ofList : (ofList l).get? k = lookup k l.reverse := by
  induction l using List.reverseRecOn with
  | nil => rfl
  | append_singleton l e ih =>
    rw [ofList, List.foldl_append, List.foldl_cons, List.foldl_nil, ← ofList, get?_insert, ih,
      List.reverse_append, List.reverse_singleton, List.singleton_append, lookup]

/-- It has no other entry at its key behind it. -/
theorem get?_ofList_eq_some_iff : (ofList l).get? k = some v ↔
    ∃ earlier later, l = earlier ++ (k, v) :: later ∧ ∀ e ∈ later, e.1 ≠ k := by
  rw [get?_ofList, lookup_eq_some_iff]
  constructor
  · rintro ⟨later, earlier, hl, hlater⟩
    refine ⟨earlier.reverse, later.reverse, ?_, by simpa using hlater⟩
    rw [← l.reverse_reverse, hl]
    simp
  · rintro ⟨earlier, later, rfl, hlater⟩
    exact ⟨later.reverse, earlier.reverse, by simp, by simpa using hlater⟩

theorem mem_keys_ofList : k ∈ (ofList l).keys ↔ k ∈ l.map Prod.fst := by
  rw [mem_keys_iff, get?_ofList, lookup_isSome_iff, List.map_reverse, List.mem_reverse]

theorem mem_of_get?_ofList (h : (ofList l).get? k = some v) : (k, v) ∈ l := by
  rw [get?_ofList] at h
  exact List.mem_reverse.mp (mem_of_lookup h)

end TextMap

end ModuleDocs

import Mathlib.Data.List.Infix
import ModuleDocs.Proofs.Text.Search

/-!
# What is replaced

`Text.replaceAll` goes through a text with a count of the characters that are still to be passed
over. Passing over them is dropping them (`replaceFrom_eq_replaceAll_drop`), so two equations say
all: where the needle does not stand the next character stays (`replaceAll_cons`), and where it
stands it is replaced and the search goes on behind it (`replaceAll_needle_append`). A text is made
of these two kinds of steps (`occurrence_induction`).

A needle that is not in a text changes nothing there; and if the replacement lacks a character of
the needle, every occurrence leaves less of that character (`count_replaceAll_lt`).
-/

namespace ModuleDocs

namespace Text

variable {needle replacement s a b u : Text} {x : Char} {skip : Nat}

/-! ## Steps -/

theorem replaceFrom_eq_replaceAll_drop :
    replaceFrom needle replacement skip s = replaceAll (s.drop skip) needle replacement := by
  induction s generalizing skip with
  | nil => cases skip <;> rfl
  | cons c s ih =>
    cases skip with
    | zero => rfl
    | succ skip => exact ih

theorem replaceAll_cons {c : Char} (h : ¬ needle <+: c :: s) :
    replaceAll (c :: s) needle replacement = c :: replaceAll s needle replacement := by
  rw [← List.isPrefixOf_iff_prefix] at h
  rw [replaceAll, replaceFrom, if_neg h, replaceAll]

theorem replaceAll_needle_append (hn : needle ≠ []) :
    replaceAll (needle ++ s) needle replacement =
      replacement ++ replaceAll s needle replacement := by
  obtain ⟨c, n, rfl⟩ := List.exists_cons_of_ne_nil hn
  have hp : (c :: n).isPrefixOf (c :: (n ++ s)) = true :=
    List.isPrefixOf_iff_prefix.mpr (List.prefix_append (c :: n) s)
  have hdrop : (n ++ s).drop ((c :: n).length - 1) = s := List.drop_left
  rw [List.cons_append, replaceAll, replaceFrom, if_pos hp, replaceFrom_eq_replaceAll_drop, hdrop]

/-- A text is gone through character by character, and occurrence by occurrence. -/
@[elab_as_elim]
theorem occurrence_induction {P : Text → Prop} (hn : needle ≠ []) (nil : P [])
    (cons : ∀ c s, ¬ needle <+: c :: s → P s → P (c :: s))
    (occurrence : ∀ s, P s → P (needle ++ s)) (s : Text) : P s := by
  obtain ⟨n, hlength⟩ : ∃ n, s.length = n := ⟨_, rfl⟩
  induction n using Nat.strong_induction_on generalizing s with
  | _ n ih =>
  cases s with
  | nil => exact nil
  | cons c s =>
    by_cases hp : needle <+: c :: s
    · obtain ⟨rest, hrest⟩ := hp
      have hpos := List.length_pos_iff.mpr hn
      rw [← hrest, List.length_append] at hlength
      rw [← hrest]
      exact occurrence rest (ih rest.length (by omega) rest rfl)
    · rw [List.length_cons] at hlength
      exact cons c s hp (ih s.length (by omega) s rfl)

/-- A text without the first character of the needle is passed over. -/
theorem replaceAll_append_of_not_mem (hu : x ∉ u) :
    replaceAll (u ++ s) (x :: needle) replacement =
      u ++ replaceAll s (x :: needle) replacement := by
  induction u with
  | nil => rfl
  | cons c u ih =>
    simp only [List.mem_cons, not_or] at hu
    obtain ⟨hc, hu⟩ := hu
    rw [List.cons_append, replaceAll_cons fun hp => hc (List.cons_prefix_cons.mp hp).1, ih hu,
      List.cons_append]

/-! ## Beside a character that the needle lacks -/

theorem prefix_append_cons_iff (hx : x ∉ needle) : needle <+: a ++ x :: b ↔ needle <+: a := by
  constructor
  · intro h
    obtain ⟨rest, hrest⟩ := h
    rcases append_cons_split (p := []) hx hrest.symm with ⟨s', ha, -⟩ | ⟨p', hp, -⟩
    · exact ⟨s', ha.symm⟩
    · simp at hp
  · intro h
    exact h.trans (List.prefix_append a _)

/-- What is replaced on one side of a character that the needle lacks does not depend on the
other side. -/
theorem replaceAll_append_cons (hn : needle ≠ []) (hx : x ∉ needle) :
    replaceAll (a ++ x :: b) needle replacement =
      replaceAll a needle replacement ++ x :: replaceAll b needle replacement := by
  induction a using occurrence_induction hn with
  | nil =>
    refine replaceAll_cons fun hp => hn ?_
    exact List.prefix_nil.mp ((prefix_append_cons_iff (a := []) hx).mp hp)
  | cons c a hp ih =>
    have hp' : ¬ needle <+: c :: (a ++ x :: b) :=
      fun h => hp ((prefix_append_cons_iff (a := c :: a) hx).mp h)
    rw [List.cons_append, replaceAll_cons hp', replaceAll_cons hp, ih, List.cons_append]
  | occurrence a ih =>
    rw [List.append_assoc, replaceAll_needle_append hn, replaceAll_needle_append hn, ih,
      List.append_assoc]

/-! ## What comes in and what goes out -/

theorem mem_of_mem_replaceAll (hn : needle ≠ []) (h : x ∈ replaceAll s needle replacement) :
    x ∈ s ∨ x ∈ replacement := by
  induction s using occurrence_induction hn with
  | nil => cases h
  | cons c s hp ih =>
    rw [replaceAll_cons hp] at h
    rcases List.mem_cons.mp h with hx | hx
    · exact Or.inl (hx ▸ List.mem_cons_self)
    · exact (ih hx).imp_left (List.mem_cons_of_mem c)
  | occurrence s ih =>
    rw [replaceAll_needle_append hn] at h
    rcases List.mem_append.mp h with hx | hx
    · exact Or.inr hx
    · exact (ih hx).imp_left (List.mem_append_right needle)

/-- A needle that does not stand in a text leaves it as it is. -/
theorem replaceAll_of_not_infix (h : ¬ needle <:+: s) : replaceAll s needle replacement = s := by
  induction s with
  | nil => rfl
  | cons c s ih =>
    rw [replaceAll_cons fun hp => h hp.isInfix,
      ih fun hs => h (hs.trans (List.suffix_cons c s).isInfix)]

/-- A character that the replacement lacks does not get more. -/
theorem count_replaceAll_le (hn : needle ≠ []) (hr : x ∉ replacement) :
    (replaceAll s needle replacement).count x ≤ s.count x := by
  induction s using occurrence_induction hn with
  | nil => exact Nat.le_refl _
  | cons c s hp ih =>
    rw [replaceAll_cons hp, List.count_cons, List.count_cons]
    exact Nat.add_le_add_right ih _
  | occurrence s ih =>
    rw [replaceAll_needle_append hn, List.count_append, List.count_append,
      List.count_eq_zero_of_not_mem hr]
    omega

/-- If the needle has it, each occurrence takes some of it out. -/
theorem count_replaceAll_lt (hx : x ∈ needle) (hr : x ∉ replacement) (h : needle <:+: s) :
    (replaceAll s needle replacement).count x < s.count x := by
  have hn : needle ≠ [] := List.ne_nil_of_mem hx
  induction s using occurrence_induction hn with
  | nil => exact absurd (List.eq_nil_of_infix_nil h) hn
  | cons c s hp ih =>
    have hs : needle <:+: s := (List.infix_cons_iff.mp h).resolve_left hp
    rw [replaceAll_cons hp, List.count_cons, List.count_cons]
    exact Nat.add_lt_add_right (ih hs) _
  | occurrence s ih =>
    have hle := count_replaceAll_le (s := s) hn hr
    have hpos := List.count_pos_iff.mpr hx
    rw [replaceAll_needle_append hn, List.count_append, List.count_append,
      List.count_eq_zero_of_not_mem hr]
    omega

end Text

end ModuleDocs

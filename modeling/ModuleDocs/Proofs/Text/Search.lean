import Mathlib.Data.List.Infix
import Mathlib.Data.List.TakeWhile
import ModuleDocs.Text.Basic

/-!
# Where a needle occurs

`Text.cut?` is a recursion on its input. Here it is read as what it finds:

> `cut?_eq_some_iff`: a cut is the decomposition `pre ++ needle ++ post` whose
> `pre ++ needle` holds the needle at its end only.

So whether a cut is the leftmost one is settled by the text up to the end of the
needle, and what follows may change freely.

The second half is about line breaks. A needle without the character `x` that
lies in `a ++ x :: b` lies in `a` or in `b` (`append_cons_split`). This is what
keeps a one-line marker from being made by text that is put on lines of its own.
-/

namespace ModuleDocs

namespace Text

variable {needle s pre post : Text}

/-! ## Cuts -/

theorem after?_isSome_iff {lead s : Text} : (after? lead s).isSome ↔ lead <+: s := by
  rw [Option.isSome_iff_exists]
  constructor
  · intro h
    obtain ⟨rest, h⟩ := h
    exact ⟨rest, (after?_eq_some.mp h).symm⟩
  · intro h
    obtain ⟨rest, h⟩ := h
    exact ⟨rest, after?_eq_some.mpr h.symm⟩

theorem append_dropLast_isPrefix (pre needle post : Text) :
    pre ++ needle.dropLast <+: pre ++ needle ++ post := by
  rw [List.append_assoc]
  exact (List.prefix_append_right_inj _).mpr
    ((List.dropLast_prefix needle).trans (List.prefix_append _ _))

/-- A needle that begins the text cannot stand later in a leftmost cut. -/
theorem eq_nil_of_prefix (hp : needle <+: pre ++ needle ++ post)
    (hl : ¬ needle <:+: pre ++ needle.dropLast) : pre = [] := by
  cases pre with
  | nil => rfl
  | cons c pre =>
    refine absurd (List.IsPrefix.isInfix ?_) hl
    refine List.prefix_of_prefix_length_le hp (append_dropLast_isPrefix _ _ _) ?_
    simp only [List.cons_append, List.length_cons, List.length_append, List.length_dropLast]
    omega

/-- **What a cut finds**: the decomposition in which the needle does not occur
before its end. -/
theorem cut?_eq_some_iff (hn : needle ≠ []) :
    cut? needle s = some (pre, post) ↔
      s = pre ++ needle ++ post ∧ ¬ needle <:+: pre ++ needle.dropLast := by
  induction s generalizing pre with
  | nil =>
    have he : needle.isEmpty = false := by simpa using hn
    simp [cut?, he, hn]
  | cons c r ih =>
    unfold cut?
    cases ha : after? needle (c :: r) with
    | some rest =>
      -- the needle stands at the front, and no cut can be further on
      have hr : c :: r = needle ++ rest := after?_eq_some.mp ha
      constructor
      · intro h
        cases h
        refine ⟨by simpa using hr, fun hi => ?_⟩
        have hlen := hi.length_le
        have hpos := List.length_pos_iff.mpr hn
        simp only [List.nil_append, List.length_dropLast] at hlen
        omega
      · intro h
        obtain ⟨hs, hl⟩ := h
        have hp : pre = [] := eq_nil_of_prefix (by rw [← hs, hr]; exact List.prefix_append _ _) hl
        subst hp
        have hpost : rest = post := List.append_cancel_left (hr.symm.trans (by simpa using hs))
        rw [hpost]
    | none =>
      -- a cut is one of the rest, as no occurrence begins with the first character
      have hnp : ¬ needle <+: c :: r := by
        rw [← after?_isSome_iff, ha]
        simp
      constructor
      · intro h
        obtain ⟨p, hp, he⟩ := Option.map_eq_some_iff.mp h
        cases he
        obtain ⟨hs, hl⟩ := ih.mp hp
        refine ⟨by rw [hs]; rfl, fun hi => ?_⟩
        rcases List.infix_cons_iff.mp hi with hpre | hinf
        · refine hnp (hpre.trans ?_)
          rw [hs]
          exact append_dropLast_isPrefix (c :: p.1) needle p.2
        · exact hl hinf
      · intro h
        obtain ⟨hs, hl⟩ := h
        cases pre with
        | nil => exact absurd ⟨post, by simpa using hs.symm⟩ hnp
        | cons d pre =>
          simp only [List.cons_append, List.cons.injEq] at hs
          obtain ⟨rfl, hs⟩ := hs
          have hl' : ¬ needle <:+: pre ++ needle.dropLast := fun hi => hl (List.infix_cons hi)
          rw [ih.mpr ⟨hs, hl'⟩]
          rfl

/-- There is a cut exactly when the needle occurs. -/
theorem cut?_isSome_iff : (cut? needle s).isSome ↔ needle <:+: s := by
  constructor
  · intro h
    obtain ⟨⟨pre, post⟩, hp⟩ := Option.isSome_iff_exists.mp h
    exact ⟨pre, post, (cut?_eq_some hp).symm⟩
  · induction s with
    | nil =>
      intro h
      simp [cut?, List.infix_nil.mp h]
    | cons c r ih =>
      intro h
      unfold cut?
      cases ha : after? needle (c :: r) with
      | some rest => rfl
      | none =>
        rcases List.infix_cons_iff.mp h with hp | hi
        · rw [← after?_isSome_iff, ha] at hp
          exact absurd hp (by simp)
        · simpa using ih hi

/-- A needle that occurs is cut no later than there. -/
theorem exists_cut?_of_eq {p q : Text} (hn : needle ≠ []) (h : s = p ++ needle ++ q) :
    ∃ pre post, cut? needle s = some (pre, post) ∧ q <:+ post := by
  have hs : (cut? needle s).isSome := cut?_isSome_iff.mpr ⟨p, q, h.symm⟩
  obtain ⟨⟨pre, post⟩, hc⟩ := Option.isSome_iff_exists.mp hs
  refine ⟨pre, post, hc, ?_⟩
  obtain ⟨hpost, hl⟩ := (cut?_eq_some_iff hn).mp hc
  have hsq : q <:+ s := ⟨p ++ needle, h.symm⟩
  have hspost : post <:+ s := ⟨pre ++ needle, hpost.symm⟩
  rcases List.suffix_or_suffix_of_suffix hsq hspost with hq | hp
  · exact hq
  · -- a shorter rest would put an occurrence before the end of the leftmost one
    rcases eq_or_ne post q with rfl | hne
    · exact List.suffix_rfl
    · obtain ⟨w, rfl⟩ := hp
      have hw : w ≠ [] := fun hw => hne (by simp [hw])
      have he : pre ++ needle = p ++ needle ++ w := by
        have hs : pre ++ needle ++ post = p ++ needle ++ w ++ post := by
          rw [← hpost, h]
          simp
        exact List.append_cancel_right hs
      refine absurd ⟨p, w.dropLast, ?_⟩ hl
      rw [← List.dropLast_append_of_ne_nil hn, he, List.dropLast_append_of_ne_nil hw]

/-- No occurrence lies ahead of the one that a cut finds. -/
theorem length_le_of_leftmost {p q : Text} (hn : needle ≠ [])
    (hl : ¬ needle <:+: pre ++ needle.dropLast) (h : pre ++ needle ++ post = p ++ needle ++ q) :
    pre.length ≤ p.length := by
  by_contra hlt
  have hpos := List.length_pos_iff.mpr hn
  have hlen : (p ++ needle).length ≤ (pre ++ needle.dropLast).length := by
    simp only [List.length_append, List.length_dropLast]
    omega
  have hp : p ++ needle <+: pre ++ needle ++ post := h ▸ List.prefix_append _ _
  have hprefix := List.prefix_of_prefix_length_le hp (append_dropLast_isPrefix pre needle post) hlen
  exact hl ((List.suffix_append p needle).isInfix.trans hprefix.isInfix)

/-! ## Beginnings of one text -/

/-- Two beginnings of one text are ordered by their byte lengths. -/
theorem prefix_iff_byteLength_le {d p s : Text} (hp : p <+: d) (hs : s <+: d) :
    p <+: s ↔ byteLength p ≤ byteLength s := by
  constructor
  · intro h
    obtain ⟨w, rfl⟩ := h
    simp
  · intro hle
    rcases List.prefix_or_prefix_of_prefix hp hs with h | ⟨w, rfl⟩
    · exact h
    · cases w with
      | nil => simp
      | cons c w =>
        have := c.utf8Size_pos
        simp only [byteLength_append, byteLength_cons] at hle
        omega

/-! ## Line breaks -/

/-- An occurrence of a text without `x` in `a ++ x :: b` lies before that `x` or
behind it. -/
theorem append_cons_split {x : Char} {o a b p s : Text} (ho : x ∉ o)
    (h : a ++ x :: b = p ++ o ++ s) :
    (∃ s', a = p ++ o ++ s' ∧ s = s' ++ x :: b) ∨ ∃ p', p = a ++ x :: p' ∧ b = p' ++ o ++ s := by
  rcases List.append_eq_append_iff.mp h with ⟨w, hw, hb⟩ | ⟨w, hw, hs⟩
  · cases w with
    | nil => exact Or.inl ⟨[], by simpa using hw.symm, by simpa using hb.symm⟩
    | cons y w =>
      obtain ⟨rfl, rfl⟩ := List.cons.inj hb
      rcases List.append_eq_append_iff.mp hw with ⟨v, _, hv⟩ | ⟨v, hv, hxw⟩
      · exact absurd (by rw [hv]; simp) ho
      · cases v with
        | nil => exact absurd (by rw [show o = x :: w from hxw.symm]; simp) ho
        | cons z v =>
          obtain ⟨rfl, rfl⟩ := List.cons.inj hxw
          exact Or.inr ⟨v, hv, rfl⟩
  · exact Or.inl ⟨w, hw, hs⟩

theorem infix_append_cons_iff {x : Char} {o a b : Text} (ho : x ∉ o) :
    o <:+: a ++ x :: b ↔ o <:+: a ∨ o <:+: b := by
  constructor
  · intro h
    obtain ⟨p, s, h⟩ := h
    rcases append_cons_split ho h.symm with ⟨s', ha, _⟩ | ⟨p', _, hb⟩
    · exact Or.inl ⟨p, s', ha.symm⟩
    · exact Or.inr ⟨p', s, hb.symm⟩
  · intro h
    rcases h with h | h
    · exact h.trans (List.prefix_append _ _).isInfix
    · exact h.trans ((List.suffix_cons x b).trans (List.suffix_append _ _)).isInfix

/-! ## Trimming -/

/-- What is left of a text begins with its first character that is no white space. -/
theorem trimStart_eq_cons_iff {x : Char} {rest : Text} : s.trimStart = x :: rest ↔
    isSpace x = false ∧ ∃ space, (∀ y ∈ space, isSpace y = true) ∧ s = space ++ x :: rest := by
  constructor
  · intro h
    refine ⟨?_, s.takeWhile isSpace, fun y hy => List.mem_takeWhile_imp hy, ?_⟩
    · have hhead := List.head?_dropWhile_not isSpace s
      rw [← trimStart, h] at hhead
      simpa using hhead
    · rw [← h, trimStart, List.takeWhile_append_dropWhile]
  · intro h
    obtain ⟨hx, space, hspace, rfl⟩ := h
    rw [trimStart, List.dropWhile_append_of_pos hspace, List.dropWhile_cons_of_neg (by simp [hx])]

/-- Trimming only takes from the ends. -/
theorem trim_infix (s : Text) : s.trim <:+: s := by
  have hs : s.trimStart <:+ s := List.dropWhile_suffix _
  have he : s.trim <+: s.trimStart := by
    rw [← List.reverse_suffix, show s.trim.reverse = s.trimStart.reverse.dropWhile isSpace by
      simp [trim, trimEnd]]
    exact List.dropWhile_suffix _
  exact he.isInfix.trans hs.isInfix

end Text

end ModuleDocs

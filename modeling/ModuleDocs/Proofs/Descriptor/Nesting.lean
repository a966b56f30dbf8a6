import ModuleDocs.Proofs.Descriptor.Place

/-!
# What a closing delimiter closes

`closing?` counts delimiters while it goes through literals and comments. What it accepts can be said
without it: code is a sequence of characters, delimiters, literals and comments, and it *closes* `n`
delimiters if each of those open ahead of it and each that it opens itself is closed in it, in turn
(`Closes`). What stands in a literal or a comment is no delimiter, whatever it is.

> `closing?_eq_some_iff`: the lexer splits a text at the delimiter behind code that closes what is
> open.

So there is at most one such place, and whether a block ends somewhere does not depend on the text
behind it. In the proof each mode of the lexer has what is left of its item to read (`ClosesFrom`).
-/

namespace ModuleDocs

namespace Descriptor

variable {o c x : Char} {n : Nat} {s t u v w : Text} {mode : Mode}

/-! ## Code -/

/-- What a literal holds: each quote in it is escaped, and each backslash escapes a character. -/
inductive Quoted : Text → Prop
  | nil : Quoted []
  | char {x : Char} {v : Text} : x ≠ '"' → x ≠ '\\' → Quoted v → Quoted (x :: v)
  | escaped {x : Char} {v : Text} : Quoted v → Quoted ('\\' :: x :: v)

/-- Code that closes `n` delimiters which are open ahead of it, and each that it opens itself. -/
inductive Closes (o c : Char) : Nat → Text → Prop
  | nil : Closes o c 0 []
  | char {x : Char} {n : Nat} {u : Text} : x ≠ '"' → x ≠ o → x ≠ c → ¬ OpensComment (x :: u) →
      Closes o c n u → Closes o c n (x :: u)
  | opened {n : Nat} {u : Text} : Closes o c (n + 1) u → Closes o c n (o :: u)
  | closed {n : Nat} {u : Text} : Closes o c n u → Closes o c (n + 1) (c :: u)
  | literal {n : Nat} {v u : Text} : Quoted v → Closes o c n u →
      Closes o c n ('"' :: (v ++ '"' :: u))
  | lineComment {n : Nat} {v u : Text} : '\n' ∉ v → Closes o c n u →
      Closes o c n ('/' :: '/' :: (v ++ '\n' :: u))
  | blockComment {n : Nat} {v u : Text} : ¬ ['*', '/'] <:+: v → Closes o c n u →
      Closes o c n ('/' :: '*' :: (v ++ '*' :: '/' :: u))

/-- Code with the delimiters in it balanced. -/
def Nested (o c : Char) (u : Text) : Prop := Closes o c 0 u

/-- Characters that can delimit: an opening and a closing one that begin nothing else. -/
def Delimits (o c : Char) : Prop := [o, c, '"', '/', '*'].Nodup

instance : Decidable (Delimits o c) := inferInstanceAs (Decidable (List.Nodup _))

/-! ## What the lexer has passed over -/

/-- What is left of the item that a mode lies in, and code behind it. -/
def ClosesFrom (o c : Char) : Mode → Nat → Text → Prop
  | .code, n, u => Closes o c n u
  | .literal, n, u => ∃ v t, u = v ++ '"' :: t ∧ Quoted v ∧ Closes o c n t
  | .lineComment, n, u => ∃ v t, u = v ++ '\n' :: t ∧ '\n' ∉ v ∧ Closes o c n t
  | .blockComment, n, u =>
    ∃ v t, u = v ++ '*' :: '/' :: t ∧ ¬ ['*', '/'] <:+: v ∧ Closes o c n t

theorem exists_of_passing {split? : Option (Text × Text)}
    (h : split?.map (passing x) = some (u, w)) : ∃ t, u = x :: t ∧ split? = some (t, w) := by
  obtain ⟨p, hp, heq⟩ := Option.map_eq_some_iff.mp h
  cases heq
  exact ⟨p.1, rfl, hp⟩

theorem exists_of_passing_two {y : Char} {split? : Option (Text × Text)}
    (h : split?.map (passing x ∘ passing y) = some (u, w)) :
    ∃ t, u = x :: y :: t ∧ split? = some (t, w) := by
  rw [← Option.map_map] at h
  obtain ⟨t, rfl, ht⟩ := exists_of_passing h
  obtain ⟨t', rfl, ht'⟩ := exists_of_passing ht
  exact ⟨t', rfl, ht'⟩

/-- A block comment goes on behind a character that does not end it. -/
theorem not_infix_cons (hv : ¬ ['*', '/'] <:+: v) (hx : x = '*' → v.head? ≠ some '/') :
    ¬ ['*', '/'] <:+: x :: v := by
  intro h
  rcases List.infix_cons_iff.mp h with hprefix | hinfix
  · obtain ⟨t, ht⟩ := hprefix
    obtain ⟨hstar, hrest⟩ := List.cons.inj ht
    exact hx hstar.symm (by rw [← hrest]; rfl)
  · exact hv hinfix

theorem closesFrom_of_closing? (h : closing? o c mode n s = some (u, w)) :
    ClosesFrom o c mode n u := by
  fun_induction closing? o c mode n s generalizing u with
  | case1 => cases h
  | case2 n x r ih =>
    obtain ⟨t, rfl, ht⟩ := exists_of_passing_two h
    obtain ⟨v, t, rfl, hv, hcode⟩ := ih ht
    exact ⟨'\\' :: x :: v, t, rfl, hv.escaped, hcode⟩
  | case3 n x r hescape ih =>
    obtain ⟨t, rfl, ht⟩ := exists_of_passing h
    by_cases hquote : x = '"'
    · subst hquote
      exact ⟨[], t, rfl, .nil, ih ht⟩
    · rw [if_neg hquote] at ht ih
      obtain ⟨v, t, rfl, hv, hcode⟩ := ih ht
      have hslash : x ≠ '\\' := by
        rintro rfl
        cases r with
        | nil => cases ht
        | cons y r => exact hescape y r rfl rfl
      exact ⟨x :: v, t, rfl, hv.char hquote hslash, hcode⟩
  | case4 n x r ih =>
    obtain ⟨t, rfl, ht⟩ := exists_of_passing h
    by_cases hbreak : x = '\n'
    · subst hbreak
      exact ⟨[], t, rfl, by simp, ih ht⟩
    · rw [if_neg hbreak] at ht ih
      obtain ⟨v, t, rfl, hv, hcode⟩ := ih ht
      exact ⟨x :: v, t, rfl, by simp [hv, Ne.symm hbreak], hcode⟩
  | case5 n r ih =>
    obtain ⟨t, rfl, ht⟩ := exists_of_passing_two h
    exact ⟨[], t, rfl, by simp, ih ht⟩
  | case6 n x r hend ih =>
    obtain ⟨t, rfl, ht⟩ := exists_of_passing h
    obtain ⟨v, t, rfl, hv, hcode⟩ := ih ht
    refine ⟨x :: v, t, rfl, not_infix_cons hv ?_, hcode⟩
    rintro rfl hhead
    obtain ⟨v, rfl⟩ := List.head?_eq_some_iff.mp hhead
    exact hend _ rfl (closing?_eq_some ht)
  | case7 n r ih =>
    obtain ⟨t, rfl, ht⟩ := exists_of_passing h
    obtain ⟨v, t, rfl, hv, hcode⟩ := ih ht
    exact hcode.literal hv
  | case8 n r ih =>
    obtain ⟨t, rfl, ht⟩ := exists_of_passing_two h
    obtain ⟨v, t, rfl, hv, hcode⟩ := ih ht
    exact hcode.lineComment hv
  | case9 n r ih =>
    obtain ⟨t, rfl, ht⟩ := exists_of_passing_two h
    obtain ⟨v, t, rfl, hv, hcode⟩ := ih ht
    exact hcode.blockComment hv
  | case10 n r _ _ _ ih =>
    obtain ⟨t, rfl, ht⟩ := exists_of_passing h
    exact Closes.opened (ih ht)
  | case11 =>
    cases h
    exact Closes.nil
  | case12 r _ _ _ _ n ih =>
    obtain ⟨t, rfl, ht⟩ := exists_of_passing h
    exact Closes.closed (ih ht)
  | case13 n x r hquote hline hblock hopener hcloser ih =>
    obtain ⟨t, rfl, ht⟩ := exists_of_passing h
    have hrest : r = t ++ c :: w := closing?_eq_some ht
    refine (ih ht).char hquote hopener hcloser ?_
    rintro (⟨t', ht'⟩ | ⟨t', ht'⟩)
    · obtain ⟨hx, rfl⟩ := List.cons.inj ht'
      exact hline _ hx.symm hrest
    · obtain ⟨hx, rfl⟩ := List.cons.inj ht'
      exact hblock _ hx.symm hrest

/-! ## What the lexer passes over -/

theorem closing?_literal_of_quoted (hv : Quoted v) :
    closing? o c .literal n (v ++ '"' :: w) =
      (closing? o c .code n w).map (passingText (v ++ ['"'])) := by
  induction hv with
  | nil =>
    rw [List.nil_append, closing?_literal (by decide), if_pos rfl]
    rfl
  | char hquote hslash hv ih =>
    rw [List.cons_append, closing?_literal hslash, if_neg hquote, ih, Option.map_map,
      passing_comp_passingText, List.cons_append]
  | escaped hv ih =>
    rw [List.cons_append, List.cons_append, closing?, ih, Option.map_map]
    rfl

theorem closing?_lineComment_append (hv : '\n' ∉ v) :
    closing? o c .lineComment n (v ++ '\n' :: w) =
      (closing? o c .code n w).map (passingText (v ++ ['\n'])) := by
  induction v with
  | nil =>
    rw [List.nil_append, closing?, if_pos rfl]
    rfl
  | cons x v ih =>
    rw [List.mem_cons, not_or] at hv
    rw [List.cons_append, closing?, if_neg (Ne.symm hv.1), ih hv.2, Option.map_map,
      passing_comp_passingText, List.cons_append]

theorem closing?_blockComment_append (hv : ¬ ['*', '/'] <:+: v) :
    closing? o c .blockComment n (v ++ '*' :: '/' :: w) =
      (closing? o c .code n w).map (passingText (v ++ ['*', '/'])) := by
  induction v with
  | nil =>
    rw [List.nil_append, closing?]
    rfl
  | cons x v ih =>
    have hends : ∀ r, x = '*' → v ++ '*' :: '/' :: w = '/' :: r → False := by
      rintro r rfl hr
      cases v with
      | nil => cases hr
      | cons y v =>
        obtain ⟨rfl, -⟩ := List.cons.inj hr
        exact hv (List.IsPrefix.isInfix ⟨v, rfl⟩)
    rw [List.cons_append, closing?, ih fun hinfix => hv (List.infix_cons hinfix), Option.map_map,
      passing_comp_passingText, List.cons_append]
    exact hends

/-- A character that begins no comment begins none in front of a delimiter, either. -/
theorem not_opensComment_append (hslash : c ≠ '/') (hstar : c ≠ '*')
    (h : ¬ OpensComment (x :: u)) : ¬ OpensComment (x :: (u ++ c :: w)) := by
  cases u with
  | nil =>
    rintro (⟨t, ht⟩ | ⟨t, ht⟩)
    · exact hslash (List.cons.inj (List.cons.inj ht).2).1.symm
    · exact hstar (List.cons.inj (List.cons.inj ht).2).1.symm
  | cons y u =>
    rintro (⟨t, ht⟩ | ⟨t, ht⟩)
    all_goals
      obtain ⟨hx, hrest⟩ := List.cons.inj ht
      obtain ⟨hy, -⟩ := List.cons.inj hrest
      subst hx
      subst hy
    · exact h (Or.inl ⟨u, rfl⟩)
    · exact h (Or.inr ⟨u, rfl⟩)

/-- The lexer goes through code that closes what is open, and stops at the delimiter behind it. -/
theorem closing?_of_closes (hd : Delimits o c) (hu : Closes o c n u) :
    closing? o c .code n (u ++ c :: w) = some (u, w) := by
  obtain ⟨⟨hoc, hoquote, hoslash, -⟩, hcquote, hcslash, hcstar⟩ :
      (o ≠ c ∧ o ≠ '"' ∧ o ≠ '/' ∧ o ≠ '*') ∧ c ≠ '"' ∧ c ≠ '/' ∧ c ≠ '*' := by
    simpa [Delimits] using hd
  induction hu with
  | nil => rw [List.nil_append, closing?_code hcquote hcslash, if_neg hoc.symm, if_pos rfl]
  | char hquote ho hc hcomment hu ih =>
    have hbehind := not_opensComment_append (w := w) hcslash hcstar hcomment
    rw [List.cons_append, closing?_code_of_not_opensComment hquote hbehind, if_neg ho, if_neg hc,
      ih]
    rfl
  | opened hu ih =>
    rw [List.cons_append, closing?_code hoquote hoslash, if_pos rfl, ih]
    rfl
  | closed hu ih =>
    rw [List.cons_append, closing?_code hcquote hcslash, if_neg hoc.symm, if_pos rfl]
    dsimp only
    rw [ih]
    rfl
  | literal hv hu ih =>
    rw [List.cons_append, List.append_assoc, List.cons_append, closing?_code_quote,
      closing?_literal_of_quoted hv, ih]
    simp [passing, passingText]
  | lineComment hv hu ih =>
    rw [List.cons_append, List.cons_append, List.append_assoc, List.cons_append, closing?,
      closing?_lineComment_append hv, ih]
    simp [passing, passingText]
  | blockComment hv hu ih =>
    rw [List.cons_append, List.cons_append, List.append_assoc, List.cons_append, List.cons_append,
      closing?, closing?_blockComment_append hv, ih]
    simp [passing, passingText]

/-- **Where a delimiter closes**: behind code that closes what else is open. -/
theorem closing?_eq_some_iff (hd : Delimits o c) :
    closing? o c .code n s = some (u, w) ↔ s = u ++ c :: w ∧ Closes o c n u := by
  constructor
  · intro h
    exact ⟨closing?_eq_some h, closesFrom_of_closing? h⟩
  · rintro ⟨rfl, hu⟩
    exact closing?_of_closes hd hu

/-- A block is its body if braces are balanced in it. -/
theorem braced?_eq_some_iff :
    braced? s = some (u, w) ↔ s = u ++ '\x7d' :: w ∧ Nested '\x7b' '\x7d' u :=
  closing?_eq_some_iff (by decide)

theorem parenthesised?_eq_some_iff :
    parenthesised? s = some (u, w) ↔ s = u ++ ')' :: w ∧ Nested '(' ')' u :=
  closing?_eq_some_iff (by decide)

end Descriptor

end ModuleDocs

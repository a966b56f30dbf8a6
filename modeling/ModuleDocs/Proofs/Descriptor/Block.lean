import Mathlib.Data.List.TakeWhile
import ModuleDocs.Descriptor.Block
import ModuleDocs.Proofs.Text.Hit

/-!
# Blocks of a text that is put together

`closing?` splits a text at the delimiter that closes it. A text is *balanced* if the lexer
goes through it from code to code without a change of nesting, whatever stands behind it
(`Balanced`). Balanced texts one after the other are balanced, and so is one between
delimiters; a literal is balanced whatever it holds, which is why the braces in it do not
count. What begins with a balanced text and a closing brace is split there
(`braced?_balanced`).

The blocks of a keyword are then those of the parts: a part that is passed over adds none,
and a part that begins with the keyword and a brace adds its own (`bodiesFrom_block`).
-/

namespace ModuleDocs

namespace Descriptor

open Text (readings ending? PassesOver IsHead OpensWith)

variable {o c x : Char} {n : Nat} {s u w k : Text} {before : Option Char}

/-! ## Steps of the lexer -/

/-- A comment begins. -/
def OpensComment (s : Text) : Prop := "//".toList <+: s ∨ "/*".toList <+: s

theorem not_opensComment (h : x ≠ '/') : ¬ OpensComment (x :: w) := by
  rintro (⟨t, ht⟩ | ⟨t, ht⟩)
  all_goals exact h (List.cons.inj ht).1.symm

theorem closing?_code_of_not_opensComment (hquote : x ≠ '"') (hcomment : ¬ OpensComment (x :: w)) :
    closing? o c .code n (x :: w) =
      if x = o then (closing? o c .code (n + 1) w).map (passing x)
      else if x = c then
        match n with
        | 0 => some ([], w)
        | n + 1 => (closing? o c .code n w).map (passing x)
      else (closing? o c .code n w).map (passing x) := by
  cases n <;> rw [closing?]
  all_goals first
    | exact hquote
    | exact fun r hx hw => hcomment (Or.inl ⟨r, by rw [hx, hw]; rfl⟩)
    | exact fun r hx hw => hcomment (Or.inr ⟨r, by rw [hx, hw]; rfl⟩)

theorem closing?_code (hquote : x ≠ '"') (hslash : x ≠ '/') :
    closing? o c .code n (x :: w) =
      if x = o then (closing? o c .code (n + 1) w).map (passing x)
      else if x = c then
        match n with
        | 0 => some ([], w)
        | n + 1 => (closing? o c .code n w).map (passing x)
      else (closing? o c .code n w).map (passing x) :=
  closing?_code_of_not_opensComment hquote (not_opensComment hslash)

theorem closing?_code_quote :
    closing? o c .code n ('"' :: w) = (closing? o c .literal n w).map (passing '"') := by
  rw [closing?]

theorem closing?_literal (h : x ≠ '\\') :
    closing? o c .literal n (x :: w) =
      (closing? o c (if x = '"' then .code else .literal) n w).map (passing x) := by
  rw [closing?]
  exact fun _ _ hx => absurd hx (by simp [h])

/-! ## Balanced texts -/

/-- Puts a text in front of what was passed over. -/
def passingText (u : Text) (p : Text × Text) : Text × Text := (u ++ p.1, p.2)

@[simp] theorem passingText_nil : passingText [] = id := rfl

theorem passing_comp_passingText : passing x ∘ passingText u = passingText (x :: u) := rfl

/-- The lexer goes through a text in code and comes back to the same nesting. -/
def Balanced (o c : Char) (u : Text) : Prop :=
  ∀ n w, closing? o c .code n (u ++ w) = (closing? o c .code n w).map (passingText u)

theorem balanced_nil : Balanced o c [] := by
  intro n w
  rw [List.nil_append, passingText_nil, Option.map_id_apply]

theorem Balanced.append (hu : Balanced o c u) (hw : Balanced o c w) : Balanced o c (u ++ w) := by
  intro n s
  rw [List.append_assoc, hu, hw, Option.map_map]
  congr 1
  funext p
  simp [passingText]

theorem Balanced.flatMap {β : Type} {f : β → Text} {bs : List β}
    (h : ∀ b ∈ bs, Balanced o c (f b)) : Balanced o c (bs.flatMap f) := by
  induction bs with
  | nil => exact balanced_nil
  | cons b bs ih =>
    rw [List.flatMap_cons]
    exact (h b List.mem_cons_self).append (ih fun a ha => h a (List.mem_cons_of_mem _ ha))

/-- Code without literals, comments and delimiters is balanced. -/
theorem balanced_plain (h : '"' ∉ u ∧ '/' ∉ u ∧ o ∉ u ∧ c ∉ u) : Balanced o c u := by
  induction u with
  | nil => exact balanced_nil
  | cons x u ih =>
    intro n w
    simp only [List.mem_cons, not_or] at h
    obtain ⟨⟨hquote, hquote'⟩, ⟨hslash, hslash'⟩, ⟨ho, ho'⟩, ⟨hc, hc'⟩⟩ := h
    rw [List.cons_append, closing?_code (Ne.symm hquote) (Ne.symm hslash), if_neg (Ne.symm ho),
      if_neg (Ne.symm hc), ih ⟨hquote', hslash', ho', hc'⟩, Option.map_map,
      passing_comp_passingText]

/-- From the middle of a literal the lexer goes on to its closing quote. -/
theorem closing?_literal_append (h : '"' ∉ u ∧ '\\' ∉ u) :
    closing? o c .literal n (u ++ '"' :: w) =
      (closing? o c .code n w).map (passingText (u ++ ['"'])) := by
  induction u with
  | nil =>
    rw [List.nil_append, closing?_literal (by decide), if_pos rfl]
    rfl
  | cons x u ih =>
    simp only [List.mem_cons, not_or] at h
    obtain ⟨⟨hquote, hquote'⟩, ⟨hslash, hslash'⟩⟩ := h
    rw [List.cons_append, closing?_literal (Ne.symm hslash), if_neg (Ne.symm hquote),
      ih ⟨hquote', hslash'⟩, Option.map_map, passing_comp_passingText, List.cons_append]

/-- A literal is balanced, whatever braces and comments seem to be in it. -/
theorem balanced_literal (h : '"' ∉ u ∧ '\\' ∉ u) :
    Balanced o c ('"' :: (u ++ ['"'])) := by
  intro n w
  rw [List.cons_append, List.append_assoc, closing?_code_quote, List.singleton_append,
    closing?_literal_append h, Option.map_map, passing_comp_passingText]

/-- A balanced text between delimiters is balanced. -/
theorem Balanced.enclosed (hu : Balanced '{' '}' u) : Balanced '{' '}' ('{' :: (u ++ ['}'])) := by
  intro n w
  rw [List.cons_append, List.append_assoc, closing?_code (by decide) (by decide), if_pos rfl, hu,
    List.singleton_append, closing?_code (by decide) (by decide), if_neg (by decide), if_pos rfl,
    Option.map_map, Option.map_map]
  congr 1
  funext p
  simp [passing, passingText]

/-- A balanced text ends at the brace behind it. -/
theorem braced?_balanced (hu : Balanced '{' '}' u) : braced? (u ++ '}' :: w) = some (u, w) := by
  rw [braced?, hu, closing?_code (by decide) (by decide), if_neg (by decide), if_pos rfl]
  simp [passingText]

/-! ## Blocks -/

theorem opener_eq_some (hk : IsHead k o) (hbefore : before.any Text.isWord = false)
    (hs : ∀ x ∈ s, Text.isSpace x = true) :
    opener k o before (k ++ s ++ o :: w) = some ((), w) := by
  have hword : Text.keyword? k before (k ++ s ++ o :: w) = some (s ++ o :: w) :=
    Text.keyword?_eq_some_iff.mpr ⟨hbefore, List.append_assoc k s _⟩
  have hspace : Text.trimStart (s ++ o :: w) = o :: w :=
    Text.trimStart_eq_cons_iff.mpr ⟨hk.delimiter, s, hs, rfl⟩
  have hdelimiter : Text.after? [o] (o :: w) = some w := Text.after?_eq_some.mpr rfl
  simp only [opener, hword, hspace, hdelimiter, bind, Option.bind, pure]

/-- What an opener reads is its keyword, white space and the delimiter. -/
theorem opener_eq_some_split {rest : Text} {v : Unit} (h : opener k o before s = some (v, rest)) :
    before.any Text.isWord = false ∧ ∃ space, (∀ x ∈ space, Text.isSpace x = true) ∧
      s = k ++ space ++ [o] ++ rest := by
  simp only [opener, bind, Option.bind_eq_some_iff, pure, Option.some.injEq, Prod.mk.injEq] at h
  obtain ⟨t, hword, w, hdelimiter, -, hw⟩ := h
  subst hw
  obtain ⟨hbefore, hs⟩ := Text.keyword?_eq_some_iff.mp hword
  obtain ⟨-, space, hspace, ht⟩ := Text.trimStart_eq_cons_iff.mp (Text.after?_eq_some.mp hdelimiter)
  exact ⟨hbefore, space, hspace, by rw [hs, ht]; simp⟩

theorem opensWith_opener (hk : IsHead k o) : OpensWith (opener k o) k o where
  toIsHead := hk
  reads := by
    intro before s h
    obtain ⟨⟨v, rest⟩, hread⟩ := Option.isSome_iff_exists.mp h
    obtain ⟨-, space, hspace, hs⟩ := opener_eq_some_split hread
    exact ⟨space, rest, hspace, by rw [hs, List.append_assoc, List.singleton_append]⟩

/-- The bodies of the blocks that begin in a text. -/
def bodiesFrom (k : Text) (before : Option Char) (s : Text) : List Text :=
  (readings (opener k '{') before s).filterMap fun p => (braced? p.2).map Prod.fst

theorem map_body_blocks (k s : Text) : (blocks k s).map Block.body = bodiesFrom k none s := by
  rw [blocks, bodiesFrom, readings, List.map_filterMap, List.filterMap_map]
  congr 1
  funext h
  rw [Option.map_map]
  rfl

/-- A part that is passed over adds no block. -/
theorem bodiesFrom_append (hu : PassesOver (opener k '{') u) :
    bodiesFrom k before (u ++ w) = bodiesFrom k (ending? before u) w := by
  rw [bodiesFrom, hu, ← bodiesFrom]

theorem bodiesFrom_eq_nil (hu : PassesOver (opener k '{') u) : bodiesFrom k before u = [] := by
  rw [bodiesFrom, hu.readings_eq_nil, List.filterMap_nil]

/-- A part that begins with the keyword and a brace adds a block. -/
theorem bodiesFrom_block (hk : IsHead k '{') (hbefore : before.any Text.isWord = false)
    (hs : ∀ x ∈ s, Text.isSpace x = true) (hu : Balanced '{' '}' u) :
    bodiesFrom k before (k ++ s ++ '{' :: (u ++ '}' :: w)) =
      u :: bodiesFrom k (some '{') (u ++ '}' :: w) := by
  have hread := opener_eq_some (w := u ++ '}' :: w) hk hbefore hs
  rw [List.append_cons] at hread ⊢
  rw [bodiesFrom, Text.readings_of_some (by simp) hread, List.filterMap_cons_some (b := u),
    ← bodiesFrom]
  · simp [Text.ending?]
  · rw [braced?_balanced hu, Option.map_some]

end Descriptor

end ModuleDocs

import ModuleDocs.Proofs.Path.Descent
import ModuleDocs.Proofs.Text.Search
import ModuleDocs.Text.LetterCase

/-!
# Needles in texts that are put together

Texts are put together out of parts and fixed frames around them. Where a needle begins
with a character that the frame ahead of a part lacks, and ends with one that the frame
behind it lacks, the frame cannot take part in an occurrence. Between two parts it is
enough that some character of the separator is not in the needle
(`infix_intercalate_iff`).

What a change of letter case leaves out is settled here, too: a text in lower case has no
Latin capital in it (`not_mem_toLower`), and a capital makes three at most.
-/

namespace ModuleDocs

namespace Text

variable {o a b s before behind : Text} {x first last sep : Char} {ts : List Text}

/-! ## Frames -/

/-- A frame ahead cannot take part in an occurrence that begins with a character which it
lacks. -/
theorem infix_append_right_iff (ho : o.head? = some x) (h : x ∉ a) :
    o <:+: a ++ b ↔ o <:+: b := by
  refine ⟨fun hi => ?_, fun hi => hi.trans (List.suffix_append a b).isInfix⟩
  induction a with
  | nil => exact hi
  | cons y a ih =>
    obtain ⟨hxy, ha⟩ := not_or.mp (mt List.mem_cons.mpr h)
    rw [List.cons_append] at hi
    rcases List.infix_cons_iff.mp hi with hp | hi
    · cases o with
      | nil => cases ho
      | cons z r =>
        obtain ⟨hzy, _⟩ := List.cons_prefix_cons.mp hp
        exact absurd ((Option.some.inj ho).symm.trans hzy) hxy
    · exact ih ha hi

/-- A frame behind cannot take part in an occurrence that ends with a character which it
lacks. -/
theorem infix_append_left_iff (ho : o.getLast? = some x) (h : x ∉ b) :
    o <:+: a ++ b ↔ o <:+: a := by
  have hreverse : o.reverse.head? = some x := by rw [List.head?_reverse, ho]
  rw [← List.reverse_infix, List.reverse_append,
    infix_append_right_iff hreverse (mt List.mem_reverse.mp h), List.reverse_infix]

/-- A needle lies in one of the parts if some character of the separator is not in it, and
the others cannot begin or end it. -/
theorem infix_intercalate_iff (hfirst : o.head? = some first) (hlast : o.getLast? = some last)
    (hx : x ∉ o) (hbefore : last ∉ before) (hbehind : first ∉ behind) :
    o <:+: List.intercalate (before ++ x :: behind) ts ↔ ∃ t ∈ ts, o <:+: t := by
  induction ts with
  | nil =>
    have ho : o ≠ [] := fun hnil => by simp [hnil] at hfirst
    simp [ho]
  | cons t ts ih =>
    cases ts with
    | nil => simp
    | cons u ts =>
      have hparts : List.intercalate (before ++ x :: behind) (t :: u :: ts) =
          (t ++ before) ++ x :: (behind ++ List.intercalate (before ++ x :: behind) (u :: ts)) := by
        simp
      rw [hparts, infix_append_cons_iff hx, infix_append_left_iff hlast hbefore,
        infix_append_right_iff hfirst hbehind, ih]
      simp only [List.exists_mem_cons_iff]

/-! ## Fixed texts

A fixed text is best looked through as the list of characters that its literal stands for:
to take it apart as a string costs a pass over its bytes for every character. -/

theorem not_mem_ofList (h : x ∉ s) : x ∉ (String.ofList s).toList := by
  rwa [String.toList_ofList]

theorem not_mem_append_string {s t : String} (hs : x ∉ s.toList) (ht : x ∉ t.toList) :
    x ∉ (s ++ t).toList := by
  rw [String.toList_append, List.mem_append, not_or]
  exact ⟨hs, ht⟩

/-- A table of fixed texts is looked through entry by entry. -/
theorem forall_mem_cons_ofList {P : Text → Text → Prop} {l : List (String × String)}
    (h : P a b) (hl : ∀ e ∈ l, P e.1.toList e.2.toList) :
    ∀ e ∈ (String.ofList a, String.ofList b) :: l, P e.1.toList e.2.toList := by
  rw [List.forall_mem_cons, String.toList_ofList, String.toList_ofList]
  exact ⟨h, hl⟩

/-! ## Separators -/

theorem length_splitOn : (s.splitOn sep).length = s.count sep + 1 := by
  induction s with
  | nil => rfl
  | cons c r ih =>
    rw [List.splitOn_cons_eq_if_modifyHead]
    split
    · next h => rw [eq_of_beq h, List.length_cons, ih, List.count_cons_self]
    · next h => rw [List.length_modifyHead, ih, List.count_cons_of_ne (by simpa using h)]

theorem not_mem_of_mem_splitOn (h : a ∈ s.splitOn sep) : sep ∉ a := by
  induction s generalizing a with
  | nil =>
    rw [List.mem_singleton.mp h]
    exact List.not_mem_nil
  | cons c r ih =>
    rw [List.splitOn_cons_eq_if_modifyHead] at h
    split at h
    · rcases List.mem_cons.mp h with rfl | h
      · exact List.not_mem_nil
      · exact ih h
    · next hc =>
      cases hf : r.splitOn sep with
      | nil => exact absurd hf (List.splitOn_ne_nil sep r)
      | cons f fs =>
        rw [hf] at h ih
        rcases List.mem_cons.mp h with rfl | h
        · rw [List.mem_cons, not_or]
          exact ⟨fun heq => hc (beq_iff_eq.mpr heq.symm), ih List.mem_cons_self⟩
        · exact ih (List.mem_cons_of_mem f h)

theorem before?_eq_some (h : before? o s = some a) : s = a ++ o := by
  rw [before?, List.isSuffixOf?, Option.map_eq_some_iff] at h
  obtain ⟨r, hr, rfl⟩ := h
  have hs : s.reverse = o.reverse ++ r := after?_eq_some.mp hr
  rw [← List.reverse_inj, hs]
  simp

theorem before?_append : before? o (a ++ o) = some a := by
  have hafter : after? o.reverse (o.reverse ++ a.reverse) = some a.reverse :=
    after?_eq_some.mpr rfl
  rw [before?, List.isSuffixOf?, List.reverse_append, ← after?, hafter, Option.map_some,
    List.reverse_reverse]

/-- The first separator splits where it is found. -/
theorem splitFirst?_eq_map_findIdx? : splitFirst? sep s =
    (s.findIdx? fun c => c = sep).map fun i => (s.take i, s.drop (i + 1)) := by
  induction s with
  | nil => rfl
  | cons c r ih =>
    rw [splitFirst?, List.findIdx?_cons]
    by_cases hc : c = sep
    · simp [hc]
    · simp [hc, ih, Function.comp_def]

theorem splitFirst?_eq_some (h : splitFirst? sep s = some (a, b)) : s = a ++ sep :: b := by
  induction s generalizing a with
  | nil => cases h
  | cons c r ih =>
    rw [splitFirst?] at h
    split at h
    · next hc =>
      cases h
      rw [hc]
      rfl
    · obtain ⟨p, hp, heq⟩ := Option.map_eq_some_iff.mp h
      cases heq
      rw [ih hp]
      rfl

/-- The first separator has none ahead of it. -/
theorem not_mem_of_splitFirst? (h : splitFirst? sep s = some (a, b)) : sep ∉ a := by
  induction s generalizing a with
  | nil => cases h
  | cons c r ih =>
    rw [splitFirst?] at h
    split at h
    · cases h
      exact List.not_mem_nil
    · next hc =>
      obtain ⟨p, hp, heq⟩ := Option.map_eq_some_iff.mp h
      cases heq
      rw [List.mem_cons, not_or]
      exact ⟨Ne.symm hc, ih hp⟩

theorem splitFirst?_append (h : sep ∉ a) : splitFirst? sep (a ++ sep :: b) = some (a, b) := by
  induction a with
  | nil => simp [splitFirst?]
  | cons c a ih =>
    obtain ⟨hc, ha⟩ := not_or.mp (mt List.mem_cons.mpr h)
    rw [List.cons_append, splitFirst?, if_neg (Ne.symm hc), ih ha]
    rfl

/-- The needle's separators bound those of the text. -/
theorem count_le_of_infix (h : o <:+: s) : o.count x ≤ s.count x := h.sublist.count_le x

/-! ## Letter case -/

theorem isUpper_iff : x.isUpper = true ↔ 0x41 ≤ x.toNat ∧ x.toNat ≤ 0x5A := by
  change decide (x.val ≥ 'A'.val ∧ x.val ≤ 'Z'.val) = true ↔ _
  rw [decide_eq_true_iff]
  exact Iff.rfl

/-- A number that is no character stands for the null character. -/
theorem toNat_ofNat_cases (n : Nat) : (Char.ofNat n).toNat = n ∨ (Char.ofNat n).toNat = 0 := by
  by_cases hvalid : n.isValidChar
  · have hn : Char.ofNat n = Char.ofNatAux n hvalid := dif_pos hvalid
    rw [hn]
    exact Or.inl rfl
  · have hn : Char.ofNat n = Char.ofNat 0 := dif_neg hvalid
    rw [hn]
    exact Or.inr rfl

/-- Outside of ASCII nothing has a Latin capital for its lower case. -/
theorem shifted_lowerRuns :
    ∀ r ∈ lowerRuns, r.last < 0x80 ∨ (0x5A : Int) < (r.first : Int) + r.shift := by
  decide +kernel

theorem lt_of_image? {r : CaseRun} {n m : Nat} (hr : r ∈ lowerRuns) (hn : 0x80 ≤ n)
    (h : r.image? n = some m) : 0x5A < m := by
  rw [CaseRun.image?] at h
  split at h
  · next hrange =>
    have hm : (n + r.shift).toNat = m := Option.some.inj h
    rcases shifted_lowerRuns r hr with hlast | hshift
    · omega
    · omega
  · cases h

theorem isUpper_ascii_toLower : ∀ n : Fin 0x80, (Char.ofNat n).toLower.isUpper = false := by
  decide

/-- The lower case of a character is no Latin capital. -/
theorem not_mem_lowerChar (hx : x.isUpper = true) (c : Char) : x ∉ lowerChar c := by
  intro hmem
  rw [lowerChar] at hmem
  split at hmem
  · next hascii =>
    have hlower := isUpper_ascii_toLower ⟨c.toNat, hascii⟩
    rw [Char.ofNat_toNat, ← List.mem_singleton.mp hmem, hx] at hlower
    cases hlower
  · next hascii =>
    split at hmem
    · simp only [List.mem_cons, List.not_mem_nil, or_false] at hmem
      rcases hmem with rfl | rfl <;> revert hx <;> decide
    · have hupper := isUpper_iff.mp hx
      rw [List.mem_singleton.mp hmem] at hupper
      cases hrun : lowerRuns.findSome? (·.image? c.toNat) with
      | none =>
        rw [hrun] at hupper
        change 0x41 ≤ c.toNat ∧ c.toNat ≤ 0x5A at hupper
        omega
      | some m =>
        obtain ⟨r, hr, hm⟩ := List.exists_of_findSome?_eq_some hrun
        have hlt := lt_of_image? hr (by omega) hm
        rw [hrun, Option.map_some, Option.getD_some] at hupper
        rcases toNat_ofNat_cases m with heq | heq <;> omega

/-- **A text in lower case** holds no Latin capital. -/
theorem not_mem_toLower (hx : x.isUpper = true) (s : Text) : x ∉ s.toLower := by
  rw [toLower]
  generalize ([] : Text) = before
  induction s generalizing before with
  | nil => exact List.not_mem_nil
  | cons c r ih =>
    rw [lowerAfter, List.mem_append, not_or]
    refine ⟨?_, ih _⟩
    split
    · -- a sigma stays a Greek letter
      split
      · intro hmem
        rw [List.mem_singleton.mp hmem] at hx
        revert hx
        decide
      · intro hmem
        rw [List.mem_singleton.mp hmem] at hx
        revert hx
        decide
    · exact not_mem_lowerChar hx c

theorem length_upperSequences : ∀ e ∈ upperSequences, e.2.length ≤ 3 := by
  decide

/-- The upper case of a character is short. -/
theorem length_upperChar (c : Char) : (upperChar c).length ≤ 3 := by
  rw [upperChar]
  split
  · exact Nat.le_add_left 1 2
  · split
    · next ns hns =>
      obtain ⟨l, l', hl, _⟩ := List.lookup_eq_some_iff.mp hns
      rw [List.length_map]
      exact length_upperSequences (c.toNat, ns) (by rw [hl]; simp)
    · exact Nat.le_add_left 1 2

/-- A needle with a Latin capital at its end cannot lie in a word of which only the first
letter is a capital, unless that letter makes up all of it. -/
theorem length_le_of_infix_capitalize (hlast : o.getLast? = some last)
    (hupper : last.isUpper = true) (h : o <:+: s.toLower.capitalize) : o.length ≤ 3 := by
  have hlower : last ∉ s.toLower := not_mem_toLower hupper s
  cases hs : s.toLower with
  | nil =>
    rw [hs, capitalize, List.infix_nil] at h
    rw [h]
    exact Nat.zero_le 3
  | cons c r =>
    rw [hs, List.mem_cons, not_or] at hlower
    rw [hs, capitalize, infix_append_left_iff hlast hlower.2] at h
    exact h.length_le.trans (length_upperChar c)

end Text

end ModuleDocs

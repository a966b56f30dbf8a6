import ModuleDocs.Proofs.Text.Joined

/-!
# Delimiters in texts that are changed

A delimiter of a table is in a text exactly if it is in it after a change of letter case: none of
the characters that letter case turns into others, or makes of others, is one.
-/

namespace ModuleDocs

namespace Text

variable {c x : Char} {s sep : Text} {ts : List Text} {n m : Nat} {r : CaseRun}

/-- What ends a cell of a table, and what ends a line. -/
def delimiters : List Char := ['|', '\n']

theorem forall_mem_delimiters {p : Char → Prop} (hbar : p '|') (hbreak : p '\n') :
    ∀ x ∈ delimiters, p x :=
  List.forall_mem_cons.mpr ⟨hbar, List.forall_mem_singleton.mpr hbreak⟩

/-! ## Letter case -/

theorem ascii_toLower : ∀ x ∈ delimiters, ∀ n : Fin 0x80,
    x = (Char.ofNat n).toLower ↔ x = Char.ofNat n :=
  forall_mem_delimiters (by decide) (by decide)

theorem ascii_toUpper : ∀ x ∈ delimiters, ∀ n : Fin 0x80,
    x = (Char.ofNat n).toUpper ↔ x = Char.ofNat n :=
  forall_mem_delimiters (by decide) (by decide)

/-- No run of letters leads to a delimiter. -/
theorem delimiter_not_shifted : ∀ x ∈ delimiters, ∀ r ∈ lowerRuns ++ upperRuns,
    ¬ ((r.first : Int) ≤ x.toNat - r.shift ∧ (x.toNat : Int) - r.shift ≤ r.last) :=
  forall_mem_delimiters (by decide +kernel) (by decide +kernel)

theorem delimiter_not_in_upperSequences : ∀ x ∈ delimiters, ∀ e ∈ upperSequences, ∀ n ∈ e.2,
    n ≠ x.toNat :=
  forall_mem_delimiters (by decide) (by decide)

theorem toNat_delimiter : ∀ x ∈ delimiters, 0 < x.toNat ∧ x.toNat < 0x80 :=
  forall_mem_delimiters (by decide) (by decide)

theorem ne_ofNat (hx : x ∈ delimiters) (h : m ≠ x.toNat) : x ≠ Char.ofNat m := by
  have hpos := toNat_delimiter x hx
  intro heq
  rw [heq] at h hpos
  rcases toNat_ofNat_cases m with hm | hm <;> omega

theorem ne_of_image? (hx : x ∈ delimiters) (hr : r ∈ lowerRuns ++ upperRuns)
    (h : r.image? n = some m) : m ≠ x.toNat := by
  rw [CaseRun.image?] at h
  split at h
  · next hrange =>
    have hm : (n + r.shift).toNat = m := Option.some.inj h
    have hrun := delimiter_not_shifted x hx r hr
    have hpos := toNat_delimiter x hx
    omega
  · cases h

/-- Outside of ASCII a look-up among the runs gives no delimiter. -/
theorem ne_getD_image? {runs : List CaseRun} (hx : x ∈ delimiters)
    (hruns : ∀ r ∈ runs, r ∈ lowerRuns ++ upperRuns) (hc : 0x80 ≤ c.toNat) :
    x ≠ ((runs.findSome? (·.image? c.toNat)).map Char.ofNat).getD c := by
  cases hrun : runs.findSome? (·.image? c.toNat) with
  | none =>
    have hascii := toNat_delimiter x hx
    rw [Option.map_none, Option.getD_none]
    rintro rfl
    omega
  | some m =>
    obtain ⟨r, hr, hm⟩ := List.exists_of_findSome?_eq_some hrun
    exact ne_ofNat hx (ne_of_image? hx (hruns r hr) hm)

theorem mem_lowerChar_iff (hx : x ∈ delimiters) : x ∈ lowerChar c ↔ x = c := by
  have hascii := toNat_delimiter x hx
  rw [lowerChar]
  split
  · next hc =>
    have hlower := ascii_toLower x hx ⟨c.toNat, hc⟩
    rwa [Char.ofNat_toNat, ← List.mem_singleton] at hlower
  · next hc =>
    have hne : x ≠ c := by
      rintro rfl
      exact hc hascii.2
    refine iff_of_false ?_ hne
    split
    · have hdotted : ∀ x ∈ delimiters, x ∉ ['i', Char.ofNat 0x307] :=
        forall_mem_delimiters (by decide) (by decide)
      exact hdotted x hx
    · rw [List.mem_singleton]
      exact ne_getD_image? hx (fun r hr => List.mem_append_left _ hr) (Nat.le_of_not_lt hc)

theorem mem_upperChar_iff (hx : x ∈ delimiters) : x ∈ upperChar c ↔ x = c := by
  have hascii := toNat_delimiter x hx
  rw [upperChar]
  split
  · next hc =>
    have hupper := ascii_toUpper x hx ⟨c.toNat, hc⟩
    rwa [Char.ofNat_toNat, ← List.mem_singleton] at hupper
  · next hc =>
    have hne : x ≠ c := by
      rintro rfl
      exact hc hascii.2
    refine iff_of_false ?_ hne
    split
    · next ns hns =>
      obtain ⟨l, l', hl, -⟩ := List.lookup_eq_some_iff.mp hns
      have hmem : (c.toNat, ns) ∈ upperSequences := by rw [hl]; simp
      intro hxns
      obtain ⟨n, hn, heq⟩ := List.mem_map.mp hxns
      exact ne_ofNat hx (delimiter_not_in_upperSequences x hx _ hmem n hn) heq.symm
    · rw [List.mem_singleton]
      exact ne_getD_image? hx (fun r hr => List.mem_append_right _ hr) (Nat.le_of_not_lt hc)

theorem mem_toLower_iff (hx : x ∈ delimiters) : x ∈ s.toLower ↔ x ∈ s := by
  rw [toLower]
  generalize ([] : Text) = before
  induction s generalizing before with
  | nil => rfl
  | cons c s ih =>
    rw [lowerAfter, List.mem_append, ih, List.mem_cons]
    refine or_congr_left ?_
    split
    · next hc =>
      -- a sigma stays a Greek letter
      have hsigma : ∀ x ∈ delimiters, x ∉ ['ς'] ∧ x ∉ ['σ'] ∧ x ≠ 'Σ' :=
        forall_mem_delimiters (by decide) (by decide)
      obtain ⟨hfinal, hinner, hne⟩ := hsigma x hx
      rw [hc]
      split
      · exact iff_of_false hfinal hne
      · exact iff_of_false hinner hne
    · exact mem_lowerChar_iff hx

theorem mem_toUpper_iff (hx : x ∈ delimiters) : x ∈ s.toUpper ↔ x ∈ s := by
  simp [toUpper, List.mem_flatMap, mem_upperChar_iff hx]

theorem mem_capitalize_iff (hx : x ∈ delimiters) : x ∈ s.capitalize ↔ x ∈ s := by
  cases s with
  | nil => rfl
  | cons c s => rw [capitalize, List.mem_append, mem_upperChar_iff hx, List.mem_cons]

/-! ## Joining -/

theorem mem_intercalate_iff (hx : x ∉ sep) : x ∈ List.intercalate sep ts ↔ ∃ t ∈ ts, x ∈ t := by
  induction ts with
  | nil => simp
  | cons t ts ih =>
    cases ts with
    | nil => simp
    | cons u ts =>
      rw [List.intercalate_cons_cons, List.mem_append, List.mem_append, ih, or_iff_left hx]
      simp only [List.exists_mem_cons_iff]

theorem mem_splitOn_iff {d : Char} (hx : x ≠ d) : (∃ f ∈ s.splitOn d, x ∈ f) ↔ x ∈ s := by
  have hsep : x ∉ [d] := by simpa using hx
  rw [← mem_intercalate_iff hsep, List.intercalate_splitOn]

theorem count_intercalate (t : Text) (x : Char) : (List.intercalate sep (t :: ts)).count x =
    ts.length * sep.count x + (t :: ts).flatten.count x := by
  induction ts generalizing t with
  | nil => simp
  | cons u ts ih =>
    rw [List.intercalate_cons_cons, List.count_append, List.count_append, ih, List.length_cons,
      Nat.succ_mul, List.flatten_cons (l := t), List.count_append]
    omega

end Text

end ModuleDocs

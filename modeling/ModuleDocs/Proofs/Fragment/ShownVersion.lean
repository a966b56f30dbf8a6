import ModuleDocs.Descriptor.Resolve
import ModuleDocs.Proofs.Fragment.Markers
import ModuleDocs.Proofs.Path.Descent

/-!
# Version constraints as readers see them

Of a coordinate the version is shown, and of a range its bounds. A coordinate has two colons or
more, so its version is what follows the last one (`versionPart_coordinate`), whatever brackets
and commas stand in front. A range is what can be cut at its first comma into bounds of which the
lower one is not blank and the upper one has no comma (`rangeBounds?_eq_some_iff`). What is shown
is neither: at most one colon is left of it, and either it does not close a range or it has no
comma (`shown_shownVersion`). So it is shown as it is.
-/

namespace ModuleDocs

namespace Fragment

open Text

variable {s c v l u : Text}

/-! ## Ranges -/

theorem getLast?_range (a b : Text) : (VersionSpec.range a b).text.getLast? = some ')' := by
  rw [VersionSpec.text, List.getLast?_concat]

/-- A bound of a range as it can be declared. -/
structure IsBound (t : Text) : Prop where
  nonempty : t ≠ []
  trimmed : t.trim = t
  colon : ':' ∉ t
  comma : ',' ∉ t

instance (t : Text) : Decidable (IsBound t) :=
  decidable_of_iff (t ≠ [] ∧ t.trim = t ∧ ':' ∉ t ∧ ',' ∉ t)
    ⟨fun h => ⟨h.1, h.2.1, h.2.2.1, h.2.2.2⟩, fun h => ⟨h.nonempty, h.trimmed, h.colon, h.comma⟩⟩

theorem IsBound.not_blank (h : IsBound l) : isBlank l = false := by
  rw [Bool.eq_false_iff]
  intro hblank
  have hstart : l.trimStart = [] := by
    rw [trimStart, List.dropWhile_eq_nil_iff]
    exact List.all_eq_true.mp hblank
  have htrim : l.trim = [] := by
    rw [trim, hstart]
    rfl
  exact h.nonempty (h.trimmed.symm.trans htrim)

theorem shownRange_range (hl : IsBound l) (hu : IsBound u) :
    shownRange (VersionSpec.range l u).text = l ++ " - ".toList ++ u := by
  have hbounds : rangeBounds? (VersionSpec.range l u).text = some (l, u) :=
    rangeBounds?_eq_some_iff.mpr
      ⟨l, u, rfl, hl.comma, hu.comma, hl.not_blank, hl.trimmed.symm, hu.trimmed.symm⟩
  obtain ⟨c, u, rfl⟩ := List.exists_cons_of_ne_nil hu.nonempty
  rw [shownRange, hbounds]

theorem shownRange_open (hl : IsBound l) :
    shownRange (VersionSpec.range l []).text = l ++ ['+'] := by
  have hbounds : rangeBounds? (VersionSpec.range l []).text = some (l, []) :=
    rangeBounds?_eq_some_iff.mpr
      ⟨l, [], rfl, hl.comma, List.not_mem_nil, hl.not_blank, hl.trimmed.symm, rfl⟩
  rw [shownRange, hbounds]

/-- What has not the form of a range is shown as it is. -/
theorem shownRange_of_not_range
    (h : ¬ ∃ a b, v = (VersionSpec.range a b).text ∧ isBlank a = false ∧ ',' ∉ b) :
    shownRange v = v := by
  cases hbounds : rangeBounds? v with
  | none => rw [shownRange, hbounds]
  | some bounds =>
    obtain ⟨a, b, hv, -, hb, ha, -, -⟩ := rangeBounds?_eq_some_iff.mp hbounds
    exact absurd ⟨a, b, hv, ha, hb⟩ h

/-! ## Coordinates -/

/-- **The version of a coordinate** is what follows its last colon. -/
theorem versionPart_coordinate (hc : ':' ∈ c) (hv : ':' ∉ v) : versionPart (c ++ ':' :: v) = v := by
  have hfields : List.splitOn ':' (c ++ ':' :: v) = c.splitOn ':' ++ [v] := by
    rw [List.splitOn_append_cons_self, List.splitOn_eq_singleton hv]
  have hlength : 3 ≤ (c.splitOn ':' ++ [v]).length := by
    have hcount : 0 < c.count ':' := List.count_pos_iff.mpr hc
    rw [List.length_append, length_splitOn, List.length_singleton]
    omega
  rw [versionPart, hfields]
  simp only [hlength, if_true, List.getLast?_concat, Option.getD_some]

/-- A text of at most two parts is its own version. -/
theorem versionPart_of_count (h : s.count ':' ≤ 1) : versionPart s = s := by
  have hlength : ¬ 3 ≤ (s.splitOn ':').length := by
    rw [length_splitOn]
    omega
  rw [versionPart]
  exact if_neg hlength

theorem colon_not_mem_range (hl : ':' ∉ l) (hu : ':' ∉ u) :
    ':' ∉ (VersionSpec.range l u).text := by
  simp [VersionSpec.text, hl, hu]

/-! ## What is shown -/

/-- A text as a version is shown: no coordinate, and no range. -/
structure IsShown (s : Text) : Prop where
  colons : s.count ':' ≤ 1
  noRange : rangeBounds? s = none

theorem IsShown.shownVersion_eq (h : IsShown s) : shownVersion s = s := by
  rw [shownVersion, versionPart_of_count h.colons, shownRange, h.noRange]

/-- What is shown of a range is not a range: it does not end in a parenthesis, or it has no
comma. -/
theorem rangeBounds?_shownRange (v : Text) : rangeBounds? (shownRange v) = none := by
  have hnone {t : Text} (h : ∀ a b, t = (VersionSpec.range a b).text → False) :
      rangeBounds? t = none := by
    rw [Option.eq_none_iff_forall_ne_some]
    intro bounds hbounds
    obtain ⟨a, b, ht, -⟩ := rangeBounds?_eq_some_iff.mp hbounds
    exact h a b ht
  have htrim (t : Text) : t.trim ⊆ t := List.IsInfix.subset <| trim_infix t
  rw [shownRange]
  split
  · assumption
  · refine hnone fun a b heq => ?_
    have hlast := congrArg List.getLast? heq
    rw [List.getLast?_concat, getLast?_range] at hlast
    exact absurd hlast (by decide)
  · next lower upper _ hbounds =>
    obtain ⟨a, b, -, ha, hb, -, rfl, rfl⟩ := rangeBounds?_eq_some_iff.mp hbounds
    refine hnone fun a' b' heq => ?_
    have hcomma : ',' ∈ a.trim ++ " - ".toList ++ b.trim := by
      rw [heq]
      simp [VersionSpec.text]
    have hdash : ',' ∉ " - ".toList := by decide
    rcases List.mem_append.mp hcomma with hcomma | hcomma
    · exact (List.mem_append.mp hcomma).elim (fun h => ha (htrim a h)) hdash
    · exact hb (htrim b hcomma)

theorem shown_shownVersion (s : Text) : IsShown (shownVersion s) where
  colons := (count_shownRange _).trans (count_versionPart s)
  noRange := rangeBounds?_shownRange _

/-- **Version constraints are shown faithfully.** Of a coordinate with a range from `l` up to `u`
readers see `l - u`, without an upper bound `l+`, and any other version as it is. What is shown
once is shown as it is ever after, whatever text it was made of. -/
theorem shownVersion_faithful :
    (∀ c, ':' ∈ c →
      (∀ l u, IsBound l → IsBound u →
        shownVersion (c ++ ':' :: (VersionSpec.range l u).text) = l ++ " - ".toList ++ u) ∧
      (∀ l, IsBound l →
        shownVersion (c ++ ':' :: (VersionSpec.range l []).text) = l ++ ['+']) ∧
      ∀ v, ':' ∉ v →
        (¬ ∃ a b, v = (VersionSpec.range a b).text ∧ isBlank a = false ∧ ',' ∉ b) →
        shownVersion (c ++ ':' :: (VersionSpec.pinned v).text) = v) ∧
    ∀ s, shownVersion (shownVersion s) = shownVersion s := by
  refine ⟨fun c hc => ⟨fun l u hl hu => ?_, fun l hl => ?_, fun v hv hrange => ?_⟩,
    fun s => (shown_shownVersion s).shownVersion_eq⟩
  · rw [shownVersion, versionPart_coordinate hc (colon_not_mem_range hl.colon hu.colon),
      shownRange_range hl hu]
  · rw [shownVersion, versionPart_coordinate hc (colon_not_mem_range hl.colon List.not_mem_nil),
      shownRange_open hl]
  · rw [VersionSpec.text, shownVersion, versionPart_coordinate hc hv,
      shownRange_of_not_range hrange]

/-- A coordinate whose bounds have brackets in them, and one whose version is closed by a
bracket. -/
theorem shownVersion_faithful_sample :
    (':' ∈ "org.a:[b".toList ∧ IsBound "[5)".toList ∧ IsBound "(6".toList ∧
      shownVersion "org.a:[b:[[5),(6)".toList = "[5) - (6".toList) ∧
    (':' ∉ "[2.0,3.0]".toList ∧
      (¬ ∃ a b, "[2.0,3.0]".toList = (VersionSpec.range a b).text ∧ isBlank a = false ∧
        ',' ∉ b) ∧
      shownVersion "org.a:[b:[2.0,3.0]".toList = "[2.0,3.0]".toList) := by
  have hc : ':' ∈ "org.a:[b".toList := by decide
  have hl : IsBound "[5)".toList := by decide
  have hu : IsBound "(6".toList := by decide
  have hv : ':' ∉ "[2.0,3.0]".toList := by decide
  have hclosed : ¬ ∃ a b, "[2.0,3.0]".toList = (VersionSpec.range a b).text ∧
      isBlank a = false ∧ ',' ∉ b := by
    rintro ⟨a, b, heq, -, -⟩
    have hlast := congrArg List.getLast? heq
    rw [getLast?_range] at hlast
    exact absurd hlast (by decide)
  have hrange : "org.a:[b:[[5),(6)".toList =
      "org.a:[b".toList ++ ':' :: (VersionSpec.range "[5)".toList "(6".toList).text := by decide
  have hpinned : "org.a:[b:[2.0,3.0]".toList =
      "org.a:[b".toList ++ ':' :: (VersionSpec.pinned "[2.0,3.0]".toList).text := by decide
  obtain ⟨hshown, -, hplain⟩ := shownVersion_faithful.1 _ hc
  refine ⟨⟨hc, hl, hu, ?_⟩, hv, hclosed, ?_⟩
  · rw [hrange, hshown _ _ hl hu]
    decide
  · rw [hpinned, hplain _ hv hclosed]

end Fragment

end ModuleDocs

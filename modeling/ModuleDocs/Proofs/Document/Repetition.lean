import ModuleDocs.Proofs.Document.Filling

/-!
# The same update again

A documentation run is repeated on every build, so an update should find its own
result and leave it alone. It does as long as the content keeps off its own end
marker. The begin marker is where it was in any case; what the second search finds
behind it is decided by the trimmed content:

- without the end marker in it, the filled region as it is
  (`find?_fill_of_trim`), and filling that once more changes nothing;
- with the end marker in it, a region that stops inside the content
  (`find?_fill_of_cut`). What follows the marker in the content is then prose, and
  every further update leaves another copy of it behind.

`updateContent_again` puts both cases together, so the condition is exact.
-/

namespace ModuleDocs

namespace Region

variable {m : MarkerPair} {d x : Text} {r : Region}

@[simp] theorem fill_fill (r : Region) (x y : Text) : (r.fill x).fill y = r.fill y := rfl

/-! ## A content with the end marker in it -/

/-- A filled region ends at the first end marker of its content. -/
theorem find?_fill_of_cut {kept left : Text} (hm : m.Solid) (hline : '\n' ∉ m.closing)
    (hx : Text.cut? m.closing x.trim = some (kept, left)) (hr : find? m d = some r) :
    find? m ((r.fill x).document m) =
      some ⟨r.before, '\n' :: kept, left ++ '\n' :: m.closing ++ r.after⟩ := by
  obtain ⟨htrim, hfirst⟩ := (Text.cut?_eq_some_iff hm.2).mp hx
  refine (find?_eq_some_iff hm).mpr ⟨?_, ((find?_eq_some_iff hm).mp hr).2.1, fun hi => ?_⟩
  · simp [document, htrim]
  · -- the line break in front of the content is no part of a marker
    rcases (Text.infix_append_cons_iff (a := []) hline).mp hi with hnil | hi
    · exact hm.2 (List.infix_nil.mp hnil)
    · exact hfirst hi

end Region

open Region

variable {m : MarkerPair} {d x : Text} {r : Region}

/-- **A second update changes nothing** if the content keeps off the end marker. -/
theorem put_put_of_unclosed (hm : m.Solid) (hline : '\n' ∉ m.closing)
    (hx : ¬ m.closing <:+: x.trim) (hr : find? m d = some r) :
    m.put x (m.put x d) = m.put x d := by
  rw [put_of_find? hr, put_of_find? (find?_fill_of_trim hm hline hx hr), fill_fill]

/-- **A second update grows the document** if the content holds the end marker: by
what follows the marker in the content, and a line with the marker itself. -/
theorem byteLength_put_put {kept left : Text} (hm : m.Solid) (hline : '\n' ∉ m.closing)
    (hx : Text.cut? m.closing x.trim = some (kept, left)) (hr : find? m d = some r) :
    Text.byteLength (m.put x (m.put x d)) =
      Text.byteLength (m.put x d) + Text.byteLength (left ++ '\n' :: m.closing) := by
  rw [put_of_find? hr, put_of_find? (find?_fill_of_cut hm hline hx hr)]
  simp only [document, fill_before, fill_body, fill_after, Text.byteLength_append]
  omega

theorem byteLength_lt_put_put (hm : m.Solid) (hline : '\n' ∉ m.closing)
    (hx : m.closing <:+: x.trim) (hr : find? m d = some r) :
    Text.byteLength (m.put x d) < Text.byteLength (m.put x (m.put x d)) := by
  obtain ⟨⟨kept, left⟩, hcut⟩ := Option.isSome_iff_exists.mp (Text.cut?_isSome_iff.mpr hx)
  rw [byteLength_put_put hm hline hcut hr, Text.byteLength_append, Text.byteLength_cons]
  have hbreak := Char.utf8Size_pos '\n'
  omega

/-- **When an update is idempotent.** An update that succeeded succeeds again on its
own result. It changes nothing there exactly if the trimmed content does not hold
the end marker; otherwise the document grows. -/
theorem updateContent_again {style : MarkerStyle} {component source : Text} {u : Update}
    (hline : (style.markers component source).OneLine)
    (h : updateContent style d component source x = .ok u) :
    ∃ v, updateContent style u.content component source x = .ok v ∧
      (v.changed = false ∧ v.content = u.content ↔
        ¬ (style.markers component source).closing <:+: x.trim) ∧
      ((style.markers component source).closing <:+: x.trim →
        Text.byteLength u.content < Text.byteLength v.content) := by
  have hm := style.markers_solid component source
  cases hr : find? (style.markers component source) d with
  | none =>
    rw [updateContent_of_none hr] at h
    cases h
  | some r =>
    rw [updateContent_of_find? hr] at h
    cases h
    -- the begin marker stands where it was, with an end marker behind it
    obtain ⟨r', hr', _⟩ := exists_find?_put_self (x := x) hm hr
    refine ⟨_, updateContent_of_find? hr', ⟨fun hv hx => ?_, fun hx => ?_⟩, fun hx => ?_⟩
    · have hgrows := byteLength_lt_put_put hm hline.2 hx hr
      exact absurd (congrArg Text.byteLength hv.2) (Nat.ne_of_gt hgrows)
    · simp [put_put_of_unclosed hm hline.2 hx hr]
    · exact byteLength_lt_put_put hm hline.2 hx hr

/-- A content that holds its own end marker: the second update leaves a copy of what
follows it behind. -/
theorem updateContent_again_sample :
    ∃ u v, (Sample.markers "a".toList).closing <:+: (Sample.markers "a".toList).closing.trim ∧
      updateContent {} Sample.document "a".toList "s".toList (Sample.markers "a".toList).closing =
        .ok u ∧
      updateContent {} u.content "a".toList "s".toList (Sample.markers "a".toList).closing =
        .ok v ∧
      Text.byteLength u.content < Text.byteLength v.content := by
  have hx : (Sample.markers "a".toList).closing <:+: (Sample.markers "a".toList).closing.trim := by
    decide +kernel
  obtain ⟨u, hu⟩ : ∃ u, updateContent {} Sample.document "a".toList "s".toList
      (Sample.markers "a".toList).closing = .ok u := ⟨_, updateContent_of_find? Sample.find?_regionA⟩
  obtain ⟨v, hv, _, hgrows⟩ := updateContent_again Sample.markers_oneLine.1 hu
  exact ⟨u, v, hx, hu, hv, hgrows hx⟩

end ModuleDocs

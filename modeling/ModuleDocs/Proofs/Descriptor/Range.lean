import Mathlib.Data.List.Basic
import ModuleDocs.Proofs.Descriptor.Declared
import ModuleDocs.Proofs.Descriptor.Interpolation

/-!
# The ends of a range

A version becomes a range in two ways. A test library is put below a compile-only version if it
differs from it and is bounded, that is, has no `+` in it; a latest dependency becomes the upper
end whatever it is. Both look at the versions as they are declared, and the variables are
substituted afterwards. Interpolation keeps the two ends apart (`emitted_halfOpen`), so what is
written is a range of the interpolated ends, and what was checked of the ends holds of these only
where they have no reference in them.

> `ends_of_ranges`: no range has equal ends exactly if no interpolated pair of ends is equal. Where
> versions are literal, that is if no latest dependency is the version that a range starts at.
-/

namespace ModuleDocs

namespace Descriptor

variable {s a c v l u l' u' t : Text} {x : Char}

/-- What a text says once the references to the variables of a descriptor are replaced. -/
def emitted (s t : Text) : Text := interpolate t (declaredVariables s)

/-- Whether a text ends in the range of these ends. -/
def EndsInRange (x l u : Text) : Prop := halfOpen l u <:+ x

/-- A descriptor in which the frame of a range comes from nowhere else. -/
structure Bracketless (s : Text) : Prop where
  versions : ∀ d ∈ declared s, '[' ∉ d.2 ∧ ',' ∉ d.2
  values : ∀ b ∈ declaredVariables s, '[' ∉ b.2 ∧ ',' ∉ b.2
  coordinates : ∀ d ∈ declared s, '[' ∉ d.1

/-! ## Interpolated ranges -/

theorem emitted_append_cons (hx : OutsideReferences x) :
    emitted s (a ++ x :: t) = emitted s a ++ x :: emitted s t :=
  interpolate_append_cons (named_declaredVariables s) hx

theorem emitted_of_not_mem (h : '$' ∉ t) : emitted s t = t := interpolate_of_not_mem h

theorem not_mem_emitted (ht : x ∉ t) (hvalues : ∀ b ∈ declaredVariables s, x ∉ b.2) :
    x ∉ emitted s t := by
  intro h
  rcases mem_of_mem_interpolate h with h | ⟨b, hb, h⟩
  · exact ht h
  · exact hvalues b hb h

theorem emitted_halfOpen : emitted s (halfOpen l u) = halfOpen (emitted s l) (emitted s u) := by
  have hnil : emitted s [] = [] := emitted_of_not_mem (by simp)
  have hparts (l u : Text) : halfOpen l u = [] ++ '[' :: (l ++ ',' :: (u ++ ')' :: [])) := by
    simp [halfOpen]
  rw [hparts, emitted_append_cons (by decide), emitted_append_cons (by decide),
    emitted_append_cons (by decide), hnil, ← hparts]

theorem emitted_of_pinned (h : range? s c v = none) :
    emitted s (written s c v) = emitted s c ++ ':' :: emitted s v := by
  rw [written_of_pinned h, emitted_append_cons (by decide)]

theorem emitted_of_range (h : range? s c v = some (l, u)) :
    emitted s (written s c v) =
      emitted s c ++ ':' :: halfOpen (emitted s l) (emitted s u) := by
  rw [written_of_range h, emitted_append_cons (by decide), emitted_halfOpen]

/-! ## Reading the ends off -/

/-- The ends of a range can be read off a text in which its frame stands once. -/
theorem ends_eq_of_endsInRange (ha : '[' ∉ a) (hl : '[' ∉ l ∧ ',' ∉ l) (hu : '[' ∉ u ∧ ',' ∉ u)
    (h : EndsInRange (a ++ halfOpen l u) l' u') : l' = l ∧ u' = u := by
  obtain ⟨p, hp⟩ := h
  -- there is one bracket and, behind it, one comma
  have hbehind : '[' ∉ l ++ ',' :: u ++ [')'] := by simp [hl.1, hu.1]
  have hends : a ++ '[' :: (l ++ ',' :: u ++ [')']) = p ++ '[' :: (l' ++ ',' :: u' ++ [')']) := by
    simpa [halfOpen] using hp.symm
  obtain ⟨-, -, hrest⟩ := (List.append_cons_inj_of_notMem ha hbehind).mp hends
  obtain ⟨hlower, -, hupper⟩ :=
    (List.append_cons_inj_of_notMem hl.2 hu.2).mp (List.append_cancel_right hrest)
  exact ⟨hlower.symm, hupper.symm⟩

theorem not_endsInRange (h : '[' ∉ t) : ¬ EndsInRange t l u := by
  intro hrange
  exact h (hrange.subset (by simp [halfOpen]))

namespace Bracketless

variable (hs : Bracketless s)

include hs

theorem version (h : (c, t) ∈ declared s) : '[' ∉ emitted s t ∧ ',' ∉ emitted s t :=
  ⟨not_mem_emitted (hs.versions _ h).1 fun b hb => (hs.values b hb).1,
    not_mem_emitted (hs.versions _ h).2 fun b hb => (hs.values b hb).2⟩

theorem coordinate (h : (c, t) ∈ declared s) : '[' ∉ emitted s c ++ [':'] := by
  have hc : '[' ∉ emitted s c :=
    not_mem_emitted (hs.coordinates _ h) fun b hb => (hs.values b hb).1
  simp [hc]

/-- The range that a version ends in is that of its coordinate. -/
theorem endsInRange_iff (hbase : (tier s).base? s c = some v) :
    EndsInRange (emitted s (written s c v)) l' u' ↔
      ∃ l u, range? s c v = some (l, u) ∧ emitted s l = l' ∧ emitted s u = u' := by
  have hv := mem_declared_of_base? hbase
  constructor
  · intro h
    cases hrange : range? s c v with
    | none =>
      rw [emitted_of_pinned hrange, List.append_cons] at h
      refine absurd h (not_endsInRange ?_)
      rw [List.mem_append, not_or]
      exact ⟨hs.coordinate hv, (hs.version hv).1⟩
    | some ends =>
      obtain ⟨l, u⟩ := ends
      obtain ⟨hl, hu⟩ := mem_declared_of_range? hbase hrange
      rw [emitted_of_range hrange, List.append_cons] at h
      obtain ⟨hlower, hupper⟩ :=
        ends_eq_of_endsInRange (hs.coordinate hv) (hs.version hl) (hs.version hu) h
      exact ⟨l, u, rfl, hlower.symm, hupper.symm⟩
  · intro h
    obtain ⟨l, u, hrange, hlower, hupper⟩ := h
    subst hlower
    subst hupper
    exact ⟨emitted s c ++ [':'], by rw [emitted_of_range hrange, List.append_assoc]; rfl⟩

/-- Ranges with different ends are those whose interpolated ends differ. -/
theorem ends_ne_iff :
    (∀ x ∈ (resolve s .library).versions, ∀ l u, EndsInRange x l u → l ≠ u) ↔
      ∀ c v l u, (tier s).base? s c = some v → range? s c v = some (l, u) →
        emitted s l ≠ emitted s u := by
  constructor
  · intro h c v l u hbase hrange
    exact h _ (mem_versions_iff.mpr ⟨c, v, hbase, rfl⟩) _ _
      ((hs.endsInRange_iff hbase).mpr ⟨l, u, hrange, rfl, rfl⟩)
  · intro h x hx l' u' hends
    obtain ⟨c, v, hbase, hx⟩ := mem_versions_iff.mp hx
    subst hx
    obtain ⟨l, u, hrange, hlower, hupper⟩ := (hs.endsInRange_iff hbase).mp hends
    rw [← hlower, ← hupper]
    exact h c v l u hbase hrange

end Bracketless

/-! ## What the checks ensure -/

/-- A range has equal ends as they are declared exactly if a latest dependency is the version it
starts at. -/
theorem ends_eq_iff (h : range? s c v = some (l, u)) : l = u ↔ upper? s c = some l := by
  unfold range? at h
  split at h
  next => cases h
  next hlower hupper =>
    cases h
    have hne := (of_lower?_eq_some hlower).2.2.1
    rw [hupper]
    simp [hne.symm]
  next hlower hupper =>
    cases h
    rw [hupper, Option.some.injEq, eq_comm]
  next hlower hupper =>
    cases h
    rw [hupper, Option.some.injEq, eq_comm]

/-- **The ends of ranges.** The versions of a library module are interpolated coordinates with an
interpolated version or the range of two of them. No range has equal ends exactly if no
interpolated pair of ends is equal. A test library at the lower end differs from the compile-only
version and has no `+` as long as both are as they were declared; a `+` that it has in the end
comes from the value of a variable. If versions are declared without references, a range has equal
ends exactly if a latest dependency of its coordinate is the version that it starts at, and no
test library at a lower end has a `+`. -/
theorem ends_of_ranges (s : Text) :
    (∀ x, x ∈ (resolve s .library).versions ↔ ∃ c v, (tier s).base? s c = some v ∧
      (range? s c v = none ∧ x = emitted s c ++ ':' :: emitted s v ∨
        ∃ l u, range? s c v = some (l, u) ∧
          x = emitted s c ++ ':' :: halfOpen (emitted s l) (emitted s u))) ∧
    (Bracketless s →
      ((∀ x ∈ (resolve s .library).versions, ∀ l u, EndsInRange x l u → l ≠ u) ↔
        ∀ c v l u, (tier s).base? s c = some v → range? s c v = some (l, u) →
          emitted s l ≠ emitted s u)) ∧
    (∀ c v l, (tier s).lower? s c v = some l → v ≠ l ∧ '+' ∉ l ∧
      ('+' ∈ emitted s l → '$' ∈ l ∧ ∃ b ∈ declaredVariables s, '+' ∈ b.2)) ∧
    ((∀ d ∈ declared s, '$' ∉ d.2) →
      (∀ c v l u, (tier s).base? s c = some v → range? s c v = some (l, u) →
        (emitted s l = emitted s u ↔ upper? s c = some l)) ∧
      ∀ c v l, (tier s).lower? s c v = some l → '+' ∉ emitted s l) := by
  refine ⟨?_, fun hs => hs.ends_ne_iff, ?_, ?_⟩
  · intro x
    rw [mem_versions_iff]
    refine exists_congr fun c => exists_congr fun v => and_congr_right fun _ => ?_
    rw [← emitted]
    cases hrange : range? s c v with
    | none => simp [emitted_of_pinned hrange]
    | some ends =>
      obtain ⟨l, u⟩ := ends
      simp [emitted_of_range hrange]
  · intro c v l hlower
    obtain ⟨-, -, hne, hplus⟩ := of_lower?_eq_some hlower
    refine ⟨hne, hplus, ?_⟩
    intro hmem
    refine ⟨?_, (mem_of_mem_interpolate hmem).resolve_left hplus⟩
    by_contra hdollar
    rw [emitted_of_not_mem hdollar] at hmem
    exact hplus hmem
  · intro hliteral
    constructor
    · intro c v l u hbase hrange
      obtain ⟨hl, hu⟩ := mem_declared_of_range? hbase hrange
      rw [emitted_of_not_mem (hliteral _ hl), emitted_of_not_mem (hliteral _ hu)]
      exact ends_eq_iff hrange
    · intro c v l hlower
      rw [emitted_of_not_mem (hliteral _ (mem_declared_of_lower? hlower))]
      exact (of_lower?_eq_some hlower).2.2.2

namespace Sample

/-- The version of the test library is that of the compile-only declaration under a name. -/
def sameEnds : Text := "val v = \"1\"\ncompileOnly(\"g:a:1\")\ntestLibrary(\"g:a:$v\")\n".toList

/-- The version of the test library is unbounded under a name. -/
def unboundedEnd : Text :=
  "val v = \"2.+\"\ncompileOnly(\"g:a:4\")\ntestLibrary(\"g:a:$v\")\n".toList

theorem bracketless_sameEnds : Bracketless sameEnds where
  versions := by decide +kernel
  values := by decide +kernel
  coordinates := by decide +kernel

theorem range?_sameEnds : range? sameEnds "g:a".toList "1".toList =
    some ("$v".toList, "1".toList) := by
  decide +kernel

end Sample

/-- A range of nothing, and a range that starts at an unbounded version. -/
theorem ends_of_ranges_sample :
    ¬ (∀ x ∈ (resolve Sample.sameEnds .library).versions, ∀ l u, EndsInRange x l u → l ≠ u) ∧
      "g:a:[1,1)".toList ∈ (resolve Sample.sameEnds .library).versions ∧
      (tier Sample.unboundedEnd).lower? Sample.unboundedEnd "g:a".toList "4".toList =
        some "$v".toList ∧
      "g:a:[2.+,4)".toList ∈ (resolve Sample.unboundedEnd .library).versions := by
  refine ⟨?_, ?_, by decide +kernel, ?_⟩
  · intro h
    exact ((ends_of_ranges Sample.sameEnds).2.1 Sample.bracketless_sameEnds).mp h "g:a".toList
      "1".toList "$v".toList "1".toList (by decide +kernel) Sample.range?_sameEnds
      (by decide +kernel)
  · exact ((ends_of_ranges _).1 _).mpr ⟨"g:a".toList, "1".toList, by decide +kernel,
      Or.inr ⟨"$v".toList, "1".toList, Sample.range?_sameEnds, by decide +kernel⟩⟩
  · exact ((ends_of_ranges _).1 _).mpr ⟨"g:a".toList, "4".toList, by decide +kernel,
      Or.inr ⟨"$v".toList, "4".toList, by decide +kernel, by decide +kernel⟩⟩

end Descriptor

end ModuleDocs

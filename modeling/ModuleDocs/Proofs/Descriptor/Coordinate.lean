import ModuleDocs.Proofs.Descriptor.Declared
import ModuleDocs.Proofs.Descriptor.Interpolation

/-!
# One version for a coordinate

The versions of a library module are kept in a map, so there is one for each coordinate. Whether
that is one for each group and artifact depends on what a coordinate is, and the two ways to
declare one disagree. A call with a block takes the first two fields of its literal. A plain call
takes everything ahead of the last colon, which is the same for three fields, and one field too many
for a literal with a classifier.

> `one_version_per_pair`: there is one version for each group and artifact if the coordinates of the
> tier are told by these, and as a rule only then.

The exception is a version with a colon in it: two coordinates may then be written alike.
-/

namespace ModuleDocs

namespace Descriptor

variable {s c c' v v' w w' x : Text} {y : Char}

/-- The group and the artifact of a text, which are its first two fields. -/
def pair (s : Text) : List Text := (s.splitOn ':').take 2

/-- There is at most one text for each group and artifact. -/
def OnePerPair (versions : TextSet) : Prop :=
  ∀ x ∈ versions, ∀ y ∈ versions, pair x = pair y → x = y

/-- The coordinates of a descriptor are told by their groups and artifacts. -/
def ToldByPair (s : Text) : Prop :=
  ∀ c v c' v', (tier s).base? s c = some v → (tier s).base? s c' = some v' →
    pair c = pair c' → c = c'

/-! ## Fields of a coordinate -/

theorem two_le_length_splitOn (h : ':' ∈ c) : 2 ≤ (c.splitOn ':').length := by
  have hpos := List.count_pos_iff.mpr h
  rw [Text.length_splitOn]
  omega

/-- A version behind a coordinate does not change its pair. -/
theorem pair_append_cons (h : ':' ∈ c) : pair (c ++ ':' :: w) = pair c := by
  rw [pair, List.splitOn_append_cons_self, List.take_append_of_le_length (two_le_length_splitOn h)]
  rfl

/-- A coordinate is its pair if it has no more than these fields. -/
theorem splitOn_eq_pair_iff (h : ':' ∈ c) : c.splitOn ':' = pair c ↔ c.count ':' = 1 := by
  have hlength : (c.splitOn ':').length = c.count ':' + 1 := Text.length_splitOn
  have htwo := two_le_length_splitOn h
  rw [pair, eq_comm, List.take_eq_self_iff, hlength]
  omega

theorem eq_of_splitOn_eq (h : c.splitOn ':' = c'.splitOn ':') : c = c' := by
  have hjoin (s : Text) : List.intercalate [':'] (s.splitOn ':') = s := List.intercalate_splitOn ':'
  rw [← hjoin c, h, hjoin]

/-- Behind the last colon of two equal texts stands the same. -/
theorem eq_of_append_colon_eq (hw : ':' ∉ w) (hw' : ':' ∉ w')
    (h : c ++ ':' :: w = c' ++ ':' :: w') : c = c' := by
  have hfields : c.splitOn ':' ++ [w] = c'.splitOn ':' ++ [w'] := by
    rw [← List.splitOn_eq_singleton hw, ← List.splitOn_eq_singleton hw',
      ← List.splitOn_append_cons_self, ← List.splitOn_append_cons_self, h]
  exact eq_of_splitOn_eq (List.append_inj_left' hfields rfl)

/-! ## Versions of a descriptor without references -/

/-- Behind the coordinate stands what was declared, in brackets or not. -/
theorem exists_version_of_written (hbase : (tier s).base? s c = some v) :
    ∃ w, written s c v = c ++ ':' :: w ∧
      ∀ y ∈ w, y ∈ "[,)".toList ∨ ∃ d ∈ declared s, y ∈ d.2 := by
  cases hrange : range? s c v with
  | none =>
    refine ⟨v, written_of_pinned hrange, ?_⟩
    intro y hy
    exact Or.inr ⟨(c, v), mem_declared_of_base? hbase, hy⟩
  | some ends =>
    obtain ⟨l, u⟩ := ends
    obtain ⟨hl, hu⟩ := mem_declared_of_range? hbase hrange
    refine ⟨halfOpen l u, written_of_range hrange, ?_⟩
    intro y hy
    rcases mem_of_mem_halfOpen hy with hframe | hy | hy
    · exact Or.inl hframe
    · exact Or.inr ⟨(c, l), hl, hy⟩
    · exact Or.inr ⟨(c, u), hu, hy⟩

/-- A text without a `$` has none in what is written. -/
theorem interpolate_written {bindings : List (Text × Text)} (hs : '$' ∉ s)
    (hbase : (tier s).base? s c = some v) :
    interpolate (written s c v) bindings = written s c v := by
  obtain ⟨w, hwritten, hw⟩ := exists_version_of_written hbase
  have hc := (declares_of_mem_declared (mem_declared_of_base? hbase)).coordinate
  refine interpolate_of_not_mem ?_
  rw [hwritten, List.mem_append, List.mem_cons]
  intro hmem
  rcases hmem with hmem | hcolon | hmem
  · exact hs (hc.subset hmem)
  · exact absurd hcolon (by decide)
  · rcases hw _ hmem with hframe | ⟨d, hd, hmem⟩
    · exact absurd hframe (by decide)
    · exact hs ((declares_of_mem_declared hd).version.subset hmem)

theorem mem_versions_iff_written (hs : '$' ∉ s) : x ∈ (resolve s .library).versions ↔
    ∃ c v, (tier s).base? s c = some v ∧ x = written s c v := by
  rw [mem_versions_iff]
  constructor
  · intro h
    obtain ⟨c, v, hbase, hx⟩ := h
    exact ⟨c, v, hbase, by rw [hx, interpolate_written hs hbase]⟩
  · intro h
    obtain ⟨c, v, hbase, hx⟩ := h
    exact ⟨c, v, hbase, by rw [hx, interpolate_written hs hbase]⟩

theorem pair_written (hbase : (tier s).base? s c = some v) : pair (written s c v) = pair c :=
  pair_append_cons (declares_of_mem_declared (mem_declared_of_base? hbase)).colon

/-- Coordinates that are told by their pairs have one version each. -/
theorem onePerPair_of_toldByPair (hs : '$' ∉ s) (h : ToldByPair s) :
    OnePerPair (resolve s .library).versions := by
  intro x hx y hy hpair
  obtain ⟨c, v, hbase, hx⟩ := (mem_versions_iff_written hs).mp hx
  obtain ⟨c', v', hbase', hy⟩ := (mem_versions_iff_written hs).mp hy
  rw [hx, hy, pair_written hbase, pair_written hbase'] at hpair
  obtain rfl := h c v c' v' hbase hbase' hpair
  rw [hx, hy, Option.some.inj (hbase.symm.trans hbase')]

/-- Versions without a colon are told apart by their coordinates. -/
theorem toldByPair_of_onePerPair (hs : '$' ∉ s) (hversions : ∀ d ∈ declared s, ':' ∉ d.2)
    (h : OnePerPair (resolve s .library).versions) : ToldByPair s := by
  have hcolon {c v : Text} (hbase : (tier s).base? s c = some v) :
      ∃ w, written s c v = c ++ ':' :: w ∧ ':' ∉ w := by
    obtain ⟨w, hwritten, hw⟩ := exists_version_of_written hbase
    refine ⟨w, hwritten, ?_⟩
    intro hmem
    rcases hw _ hmem with hframe | ⟨d, hd, hmem⟩
    · exact absurd hframe (by decide)
    · exact hversions d hd hmem
  intro c v c' v' hbase hbase' hpair
  -- both are written the same, so they are the same up to the last colon
  obtain ⟨w, hwritten, hw⟩ := hcolon hbase
  obtain ⟨w', hwritten', hw'⟩ := hcolon hbase'
  have hsame : written s c v = written s c' v' :=
    h _ ((mem_versions_iff_written hs).mpr ⟨c, v, hbase, rfl⟩) _
      ((mem_versions_iff_written hs).mpr ⟨c', v', hbase', rfl⟩)
      (by rw [pair_written hbase, pair_written hbase', hpair])
  exact eq_of_append_colon_eq hw hw' (by rw [← hwritten, hsame, hwritten'])

/-! ## How a call is keyed -/

/-- A plain call has the pair of its coordinate. The coordinate is all its fields but the last,
where a colon at the very end of the literal counts as part of the version. -/
theorem pair_of_splitCoordinate? {content : Text} (h : splitCoordinate? content = some (c, v)) :
    pair content = pair c ∧ content.dropLast.count ':' = c.count ':' + 1 := by
  obtain ⟨hcontent, hne, hlast, hcolon⟩ := splitCoordinate?_eq_some h
  refine ⟨by rw [hcontent, pair_append_cons hcolon], ?_⟩
  rw [hcontent, List.dropLast_append_of_ne_nil (by simp), List.dropLast_cons_of_ne_nil hne,
    List.count_append, List.count_cons_self, List.count_eq_zero_of_not_mem hlast]

/-- **One version for a group and an artifact.** In a descriptor without references there is at
most one version for each group and artifact if the coordinates of the tier are told by these, and
not otherwise as long as no version has a colon in it. They are told by these if every coordinate
has two fields. A compile-only call with a block has such a coordinate always; a plain call has it
exactly if its literal has three fields, and is keyed by all but the last field if it has more. -/
theorem one_version_per_pair (s : Text) :
    ('$' ∉ s → ToldByPair s → OnePerPair (resolve s .library).versions) ∧
    ('$' ∉ s → (∀ d ∈ declared s, ':' ∉ d.2) →
      OnePerPair (resolve s .library).versions → ToldByPair s) ∧
    ((∀ d ∈ declared s, d.1.splitOn ':' = pair d.1) → ToldByPair s) ∧
    (∀ before t c rest, strictOpener before t = some (c, rest) →
      ∃ content behind, call "compileOnly".toList before t = some (content, behind) ∧
        c.splitOn ':' = pair content) ∧
    ∀ k before t c v rest, coordinateCall k before t = some ((c, v), rest) →
      ∃ content, call k before t = some (content, rest) ∧ content = c ++ ':' :: v ∧
        ':' ∉ v.dropLast ∧ (c.splitOn ':' = pair content ↔ content.dropLast.count ':' = 2) := by
  refine ⟨onePerPair_of_toldByPair, toldByPair_of_onePerPair, ?_, ?_, ?_⟩
  · intro h c v c' v' hbase hbase' hpair
    have hc := h (c, v) (mem_declared_of_base? hbase)
    have hc' := h (c', v') (mem_declared_of_base? hbase')
    exact eq_of_splitOn_eq (hc.trans (hpair.trans hc'.symm))
  · intro before t c rest h
    obtain ⟨content, behind, hcall, hlead, -⟩ := strictOpener_eq_some h
    exact ⟨content, behind, hcall, (leadingCoordinate?_eq_some hlead).2.2⟩
  · intro k before t c v rest h
    obtain ⟨content, hcall, hsplit⟩ := coordinateCall_eq_some h
    obtain ⟨hcontent, -, hlast, hcolon⟩ := splitCoordinate?_eq_some hsplit
    obtain ⟨hpair, hcount⟩ := pair_of_splitCoordinate? hsplit
    refine ⟨content, hcall, hcontent, hlast, ?_⟩
    rw [hpair, splitOn_eq_pair_iff hcolon, hcount]
    omega

namespace Sample

/-- One artifact with and without a classifier. -/
def classified : Text := "library(\"g:a:1:sources\")\nlibrary(\"g:a:1\")\n".toList

end Sample

/-- The two calls are keyed apart, so there are two versions of one artifact. -/
theorem one_version_per_pair_sample :
    '$' ∉ Sample.classified ∧ (∀ d ∈ declared Sample.classified, ':' ∉ d.2) ∧
      (resolve Sample.classified .library).versions.toList =
        ["g:a:1".toList, "g:a:1:sources".toList] ∧
      ¬ OnePerPair (resolve Sample.classified .library).versions := by
  have hdollar : '$' ∉ Sample.classified := by decide +kernel
  have hversions : ∀ d ∈ declared Sample.classified, ':' ∉ d.2 := by decide +kernel
  refine ⟨hdollar, hversions, by decide +kernel, ?_⟩
  intro h
  have htold := (one_version_per_pair Sample.classified).2.1 hdollar hversions h
  have hsame := htold "g:a".toList "1".toList "g:a:1".toList "sources".toList
    (by decide +kernel) (by decide +kernel) (by decide +kernel)
  exact absurd hsame (by decide +kernel)

end Descriptor

end ModuleDocs

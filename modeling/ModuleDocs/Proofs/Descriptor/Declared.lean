import Mathlib.Data.Option.Basic
import ModuleDocs.Proofs.Descriptor.Cascade
import ModuleDocs.Proofs.Descriptor.Place
import ModuleDocs.Proofs.Text.Joined

/-!
# What a descriptor declares

Every coordinate and every version that shows in an answer was declared by a call of the
descriptor. A plain call has both in one literal, which is split at its last colon
(`splitCoordinate?_eq_some`); a compile-only call with a block has the coordinate in the literal,
of which it is the first two fields (`leadingCoordinate?_eq_some`), and the version in the block.
In either case they stand in the text of the descriptor (`declares_of_mem_declared`).

The parts of a constraint lead back to the declarations: the base version
(`mem_declared_of_base?`), the lower end (`mem_declared_of_lower?`) and the upper one
(`mem_declared_of_upper?`). So what holds of every declared version holds of what is written for a
coordinate (`written_of_pinned`, `written_of_range`), and these are the versions of a library
module before interpolation (`mem_versions_iff`).
-/

namespace ModuleDocs

namespace Descriptor

open Text (Advances exists_standsIn)

variable {s k c v l u content rest : Text} {before : Option Char} {e : Exclusions}
  {h : Hit Text}

/-! ## Splitting a literal -/

/-- Without a split there is no colon, except perhaps as the last character. -/
theorem not_mem_of_splitLastColon? (h : splitLastColon? s = none) : ':' ∉ s.dropLast := by
  induction s with
  | nil => simp
  | cons x r ih =>
    rw [splitLastColon?] at h
    split at h
    next => cases h
    next hr =>
      split at h
      next => cases h
      next hx =>
        by_cases hnil : r = []
        · simp [hnil]
        · rw [List.dropLast_cons_of_ne_nil hnil, List.mem_cons, not_or]
          exact ⟨fun heq => hx ⟨heq.symm, hnil⟩, ih hr⟩

/-- The split is at the last colon that has something behind it. -/
theorem splitLastColon?_eq_some (h : splitLastColon? s = some (c, v)) :
    s = c ++ ':' :: v ∧ v ≠ [] ∧ ':' ∉ v.dropLast := by
  induction s generalizing c with
  | nil => cases h
  | cons x r ih =>
    rw [splitLastColon?] at h
    split at h
    next b a hr =>
      cases h
      obtain ⟨hs, hne, hlast⟩ := ih hr
      exact ⟨by rw [hs]; rfl, hne, hlast⟩
    next hr =>
      split at h
      next hx =>
        cases h
        exact ⟨by rw [hx.1]; rfl, hx.2, not_mem_of_splitLastColon? hr⟩
      next => cases h

/-- A colon is where the split is if something without a further one stands behind it. -/
theorem splitLastColon?_append (hne : v ≠ []) (hlast : ':' ∉ v.dropLast) :
    splitLastColon? (c ++ ':' :: v) = some (c, v) := by
  induction c with
  | nil =>
    rw [List.nil_append, splitLastColon?]
    cases hv : splitLastColon? v with
    | none => exact if_pos ⟨rfl, hne⟩
    | some p =>
      obtain ⟨hsplit, hbehind, -⟩ := splitLastColon?_eq_some hv
      rw [hsplit, List.dropLast_append_of_ne_nil (by simp),
        List.dropLast_cons_of_ne_nil hbehind] at hlast
      exact absurd hlast (by simp)
  | cons x c ih => rw [List.cons_append, splitLastColon?, ih]

/-- A colon stands in a text with something on both sides of it. -/
theorem hasInnerColon_iff :
    hasInnerColon c = true ↔ ∃ g a, g ≠ [] ∧ a ≠ [] ∧ c = g ++ ':' :: a := by
  unfold hasInnerColon
  rw [List.contains_iff_mem]
  constructor
  · intro h
    cases c with
    | nil => simp at h
    | cons x t =>
      obtain ⟨p, q, hpq⟩ := List.append_of_mem (show ':' ∈ t.dropLast from h)
      have ht : t ≠ [] := by
        intro hnil
        rw [hnil] at hpq
        simp at hpq
      refine ⟨x :: p, q ++ [t.getLast ht], by simp, by simp, ?_⟩
      have hsplit := List.dropLast_append_getLast ht
      rw [hpq] at hsplit
      exact (congrArg (List.cons x) hsplit.symm).trans (by simp)
  · intro h
    obtain ⟨g, a, hg, ha, hc⟩ := h
    obtain ⟨x, g, rfl⟩ := List.exists_cons_of_ne_nil hg
    rw [hc, List.cons_append, List.drop_one, List.tail_cons,
      List.dropLast_append_of_ne_nil (by simp), List.dropLast_cons_of_ne_nil ha]
    simp

/-- A literal is a coordinate and a version: the version is what stands behind the last colon that
has something behind it, and the coordinate has a colon of its own with something on both sides. -/
structure SplitsInto (content c v : Text) : Prop where
  content_eq : content = c ++ ':' :: v
  version_ne : v ≠ []
  last : ':' ∉ v.dropLast
  inner : ∃ g a, g ≠ [] ∧ a ≠ [] ∧ c = g ++ ':' :: a

theorem splitCoordinate?_eq_some_iff :
    splitCoordinate? content = some (c, v) ↔ SplitsInto content c v := by
  simp only [splitCoordinate?, bind, Option.bind_eq_some_iff, Option.guard_eq_some', pure,
    Option.some.injEq, Prod.mk.injEq]
  constructor
  · intro h
    obtain ⟨⟨c', v'⟩, hsplit, -, hcolon, hc, hv⟩ := h
    subst hc
    subst hv
    obtain ⟨hs, hne, hlast⟩ := splitLastColon?_eq_some hsplit
    exact ⟨hs, hne, hlast, hasInnerColon_iff.mp hcolon⟩
  · intro h
    refine ⟨(c, v), ?_, (), hasInnerColon_iff.mpr h.inner, rfl, rfl⟩
    rw [h.content_eq]
    exact splitLastColon?_append h.version_ne h.last

/-- A literal is its coordinate, a colon and its version. The version has no colon, except
perhaps as its last character; the coordinate has one. -/
theorem splitCoordinate?_eq_some (h : splitCoordinate? content = some (c, v)) :
    content = c ++ ':' :: v ∧ v ≠ [] ∧ ':' ∉ v.dropLast ∧ ':' ∈ c := by
  obtain ⟨hs, hne, hlast, g, a, -, -, hc⟩ := splitCoordinate?_eq_some_iff.mp h
  exact ⟨hs, hne, hlast, by simp [hc]⟩

/-- A literal begins with a coordinate: with two fields that are not empty, up to its end or to a
further colon. -/
structure BeginsWith (content c : Text) : Prop where
  fields : ∃ g a, g ≠ [] ∧ a ≠ [] ∧ ':' ∉ g ∧ ':' ∉ a ∧ c = g ++ ':' :: a
  ends : ∃ behind, content = c ++ behind ∧ (behind = [] ∨ behind.head? = some ':')

theorem leadingCoordinate?_eq_some_iff :
    leadingCoordinate? content = some c ↔ BeginsWith content c := by
  simp only [leadingCoordinate?, bind, Option.bind_eq_some_iff, Option.guard_eq_some', pure,
    Option.some.injEq]
  constructor
  · intro h
    obtain ⟨⟨g, t⟩, hgroup, w, hcolon, ⟨a, z⟩, hartifact, -, hbehind, hc⟩ := h
    dsimp only at hcolon hbehind hc
    obtain ⟨hcontent, hg, hgroup, -⟩ := Text.run?_eq_some_iff.mp hgroup
    obtain ⟨hw, ha, hartifact, -⟩ := Text.run?_eq_some_iff.mp hartifact
    have ht : t = ':' :: w := Text.after?_eq_some.mp hcolon
    exact
      { fields := ⟨g, a, hg, ha, fun hmem => absurd (hgroup _ hmem) (by decide),
          fun hmem => absurd (hartifact _ hmem) (by decide), hc.symm⟩
        ends := ⟨z, by rw [hcontent, ht, hw, ← hc]; simp, hbehind⟩ }
  · intro h
    obtain ⟨⟨g, a, hg, ha, hgroup, hartifact, hc⟩, behind, hcontent, hbehind⟩ := h
    have hclass {u : Text} (hu : ':' ∉ u) : ∀ x ∈ u, (x != ':') = true := by
      intro x hx
      rw [bne_iff_ne]
      intro heq
      exact hu (heq ▸ hx)
    have hend : behind.head?.any (· != ':') = false := by
      rcases hbehind with hnil | hhead
      · rw [hnil]
        rfl
      · rw [hhead]
        rfl
    refine ⟨(g, ':' :: (a ++ behind)), ?_, a ++ behind, Text.after?_eq_some.mpr rfl, (a, behind), ?_,
      (), hbehind, hc.symm⟩
    · rw [Text.run?_eq_some_iff, hcontent, hc]
      exact ⟨by simp, hg, hclass hgroup, rfl⟩
    · rw [Text.run?_eq_some_iff]
      exact ⟨rfl, ha, hclass hartifact, hend⟩

/-- The coordinate in front of a literal is its first two fields. -/
theorem leadingCoordinate?_eq_some (h : leadingCoordinate? content = some c) :
    c <+: content ∧ ':' ∈ c ∧ c.splitOn ':' = (content.splitOn ':').take 2 := by
  obtain ⟨⟨g, a, -, -, hg, ha, hc⟩, behind, hcontent, hbehind⟩ :=
    leadingCoordinate?_eq_some_iff.mp h
  have hfields : c.splitOn ':' = [g, a] := by
    rw [hc, List.splitOn_append_cons_self, List.splitOn_eq_singleton hg,
      List.splitOn_eq_singleton ha]
    rfl
  refine ⟨⟨behind, hcontent.symm⟩, by simp [hc], ?_⟩
  rcases hbehind with hnil | hhead
  · rw [hcontent, hnil, List.append_nil, hfields]
    rfl
  · obtain ⟨t, ht⟩ := List.head?_eq_some_iff.mp hhead
    rw [hcontent, ht, List.splitOn_append_cons_self, hfields]
    rfl

/-! ## Calls with a coordinate -/

theorem coordinateCall_eq_some (h : coordinateCall k before s = some ((c, v), rest)) :
    ∃ content, call k before s = some (content, rest) ∧ splitCoordinate? content = some (c, v) := by
  simp only [coordinateCall, bind, Option.bind_eq_some_iff, pure, Option.some.injEq,
    Prod.mk.injEq] at h
  obtain ⟨⟨content, t⟩, hcall, d, hsplit, hd, ht⟩ := h
  subst hd
  subst ht
  exact ⟨content, hcall, hsplit⟩

theorem strictOpener_eq_some (h : strictOpener before s = some (c, rest)) :
    ∃ content behind, call "compileOnly".toList before s = some (content, behind) ∧
      leadingCoordinate? content = some c ∧ behind.trimStart = '{' :: rest := by
  simp only [strictOpener, bind, Option.bind_eq_some_iff, pure, Option.some.injEq,
    Prod.mk.injEq] at h
  obtain ⟨⟨content, t⟩, hcall, d, hlead, w, hbrace, hd, hw⟩ := h
  subst hd
  subst hw
  exact ⟨content, t, hcall, hlead, Text.after?_eq_some.mp hbrace⟩

theorem advances_coordinateCall (k : Text) : Advances (coordinateCall k) := by
  intro before s d rest h
  obtain ⟨content, hcall, -⟩ := coordinateCall_eq_some h
  exact advances_call k _ _ _ _ hcall

theorem advances_strictOpener : Advances strictOpener := by
  intro before s c rest h
  obtain ⟨content, behind, hcall, -, hbrace⟩ := strictOpener_eq_some h
  obtain ⟨u, hu, hs⟩ := advances_call _ _ _ _ _ hcall
  obtain ⟨-, space, -, hbehind⟩ := Text.trimStart_eq_cons_iff.mp hbrace
  exact ⟨u ++ space ++ ['{'], by simp, by rw [hs, hbehind]; simp⟩

/-- The content of a call is a part of what it is read from. -/
theorem infix_of_call (h : call k before s = some (content, rest)) : content <:+: s := by
  obtain ⟨-, -, -, hs⟩ := call_eq_some_iff.mp h
  exact ⟨k ++ "(\"".toList, "\")".toList ++ rest, by rw [hs]; simp⟩

theorem infix_of_firstHit?_call (h : Text.firstHit? (call k) s = some content) :
    content <:+: s := by
  obtain ⟨hit, hhead, hvalue⟩ := Option.map_eq_some_iff.mp h
  obtain ⟨ahead, read, hs⟩ := exists_standsIn (advances_call k) (List.mem_of_head? hhead)
  have hread : content <:+: read ++ hit.rest := hvalue ▸ infix_of_call hs.reads
  exact hread.trans hs.infix_text

/-! ## Declarations -/

/-- A coordinate and a version that stand in a descriptor. -/
structure Declares (s c v : Text) : Prop where
  coordinate : c <:+: s
  version : v <:+: s
  colon : ':' ∈ c

theorem declares_of_mem_declarations (h : (c, v) ∈ declarations k s) : Declares s c v := by
  obtain ⟨hit, hmem, hvalue⟩ := List.mem_map.mp h
  obtain ⟨ahead, read, hs⟩ := exists_standsIn (advances_coordinateCall k) hmem
  obtain ⟨content, hcall, hsplit⟩ := coordinateCall_eq_some (hvalue ▸ hs.reads)
  obtain ⟨hcontent, -, -, hcolon⟩ := splitCoordinate?_eq_some hsplit
  have hinfix : content <:+: s := (infix_of_call hcall).trans hs.infix_text
  have hc : c <+: content := ⟨':' :: v, hcontent.symm⟩
  have hv : v <:+ content := ⟨c ++ [':'], by rw [hcontent]; simp⟩
  exact ⟨hc.isInfix.trans hinfix, hv.isInfix.trans hinfix, hcolon⟩

theorem declares_of_strictDeclaration? (hmem : h ∈ Text.hits strictOpener s)
    (hd : strictDeclaration? h = some (c, v)) : Declares s c v := by
  simp only [strictDeclaration?, strictVersion?, bind, Option.bind_eq_some_iff, pure,
    Option.some.injEq, Prod.mk.injEq] at hd
  obtain ⟨⟨body, behind⟩, hbody, w, ⟨-, -, hstrictly⟩, hc, hw⟩ := hd
  subst hc
  subst hw
  obtain ⟨ahead, read, hs⟩ := exists_standsIn advances_strictOpener hmem
  obtain ⟨content, t, hcall, hlead, -⟩ := strictOpener_eq_some hs.reads
  obtain ⟨hfront, hcolon, -⟩ := leadingCoordinate?_eq_some hlead
  have hread : read ++ h.rest <:+: s := hs.infix_text
  -- the version stands in the body, which is where the rest of the opener begins
  have hrest : body <:+: h.rest := ⟨[], '}' :: behind, (closing?_eq_some hbody).symm⟩
  refine ⟨?_, ?_, hcolon⟩
  · exact (hfront.isInfix.trans (infix_of_call hcall)).trans hread
  · exact ((infix_of_firstHit?_call hstrictly).trans hrest).trans
      ((List.suffix_append read _).isInfix.trans hread)

theorem declares_of_compileOnly (h : (compileOnlyDeclarations s e).get? c = some v) :
    Declares s c v := by
  rw [compileOnlyDeclarations, TextMap.get?_foldl_insertIfNew, Option.or_eq_some_iff] at h
  rcases h with hstrict | ⟨-, hplain⟩
  · obtain ⟨hit, hmem, hd⟩ := List.mem_filterMap.mp (TextMap.mem_of_get?_ofList hstrict)
    exact declares_of_strictDeclaration? (List.mem_of_mem_filter hmem) hd
  · obtain ⟨hit, hmem, hvalue⟩ := List.mem_map.mp (TextMap.mem_of_lookup hplain)
    refine declares_of_mem_declarations (k := "compileOnly".toList) ?_
    exact List.mem_map.mpr ⟨hit, List.mem_of_mem_filter hmem, hvalue⟩

/-- The declarations of a descriptor that can show in the versions of a library module. -/
def declared (s : Text) : List (Text × Text) :=
  declarations "library".toList s ++
    (compileOnlyDeclarations s (Exclusions.ofText s)).entries ++
    testLibraryDeclarations s ++ latestDepDeclarations s

theorem mem_declared_iff {d : Text × Text} : d ∈ declared s ↔
    d ∈ declarations "library".toList s ∨
      d ∈ (compileOnlyDeclarations s (Exclusions.ofText s)).entries ∨
      d ∈ testLibraryDeclarations s ∨ d ∈ latestDepDeclarations s := by
  simp only [declared, List.mem_append, or_assoc]

/-- **What is declared stands in the descriptor.** -/
theorem declares_of_mem_declared (h : (c, v) ∈ declared s) : Declares s c v := by
  rcases mem_declared_iff.mp h with hlibrary | hcompileOnly | htest | hlatest
  · exact declares_of_mem_declarations hlibrary
  · exact declares_of_compileOnly (TextMap.mem_entries_iff.mp hcompileOnly)
  · exact declares_of_mem_declarations htest
  · exact declares_of_mem_declarations hlatest

/-! ## The parts of a constraint -/

theorem mem_declared_of_base? {t : Tier} (h : t.base? s c = some v) : (c, v) ∈ declared s := by
  rw [mem_declared_iff]
  cases t with
  | library => exact Or.inl (TextMap.mem_of_get?_ofList h)
  | compileOnly => exact Or.inr (Or.inl (TextMap.mem_entries_iff.mpr h))
  | testLibrary =>
    rw [Tier.base?] at h
    split at h
    next => cases h
    next => exact Or.inr (Or.inr (Or.inl (TextMap.mem_of_lookup h)))

/-- A lower end is the version of a test library that differs from the base version and has no
`+` in it, each as it is declared. -/
theorem of_lower?_eq_some {t : Tier} (h : t.lower? s c v = some l) :
    t = .compileOnly ∧ (c, l) ∈ testLibraryDeclarations s ∧ v ≠ l ∧ '+' ∉ l := by
  cases t with
  | library => cases h
  | testLibrary => cases h
  | compileOnly =>
    obtain ⟨test, hfind, htest⟩ := Option.map_eq_some_iff.mp h
    have hlowers := List.find?_some hfind
    simp only [lowers, Bool.decide_and, decide_not, Bool.and_eq_true, decide_eq_true_eq,
      Bool.not_eq_eq_eq_not, Bool.not_true, decide_eq_false_iff_not] at hlowers
    obtain ⟨hc, hne, hplus⟩ := hlowers
    subst hc
    subst htest
    exact ⟨rfl, List.mem_of_find?_eq_some hfind, hne, by simpa using hplus⟩

theorem mem_declared_of_lower? {t : Tier} (h : t.lower? s c v = some l) : (c, l) ∈ declared s :=
  mem_declared_iff.mpr (Or.inr (Or.inr (Or.inl (of_lower?_eq_some h).2.1)))

theorem mem_declared_of_upper? (h : upper? s c = some v) : (c, v) ∈ declared s := by
  have hmem : (c, v) ∈ (latestDepDeclarations s).reverse := TextMap.mem_of_lookup h
  exact mem_declared_iff.mpr (Or.inr (Or.inr (Or.inr (List.mem_reverse.mp hmem))))

/-! ## What is written -/

/-- What is written for a coordinate with a base version, before interpolation. -/
def written (s coordinate base : Text) : Text :=
  coordinate ++ ':' :: constraint base ((tier s).lower? s coordinate base) (upper? s coordinate)

/-- The ends of a coordinate's range, if it is not pinned. -/
def range? (s coordinate base : Text) : Option (Text × Text) :=
  match (tier s).lower? s coordinate base, upper? s coordinate with
  | none, none => none
  | some lower, none => some (lower, base)
  | none, some upper => some (base, upper)
  | some lower, some upper => some (lower, upper)

theorem written_of_pinned (h : range? s c v = none) : written s c v = c ++ ':' :: v := by
  unfold range? at h
  split at h
  next hlower hupper => rw [written, hlower, hupper, constraint]
  all_goals cases h

theorem written_of_range (h : range? s c v = some (l, u)) :
    written s c v = c ++ ':' :: halfOpen l u := by
  unfold range? at h
  split at h
  next => cases h
  all_goals
    next hlower hupper =>
      cases h
      rw [written, hlower, hupper, constraint]

theorem mem_of_mem_halfOpen {x : Char} (h : x ∈ halfOpen l u) :
    x ∈ "[,)".toList ∨ x ∈ l ∨ x ∈ u := by
  rcases List.mem_append.mp h with h | h
  · rcases List.mem_append.mp h with h | h
    · rcases List.mem_cons.mp h with h | h
      · exact Or.inl (by simp [h])
      · exact Or.inr (Or.inl h)
    · rcases List.mem_cons.mp h with h | h
      · exact Or.inl (by simp [h])
      · exact Or.inr (Or.inr h)
  · exact Or.inl (by simp [List.mem_singleton.mp h])

/-- The ends of a range are declared for its coordinate. -/
theorem mem_declared_of_range? (hbase : (tier s).base? s c = some v)
    (h : range? s c v = some (l, u)) : (c, l) ∈ declared s ∧ (c, u) ∈ declared s := by
  have hv := mem_declared_of_base? hbase
  unfold range? at h
  split at h
  next => cases h
  next hlower hupper =>
    cases h
    exact ⟨mem_declared_of_lower? hlower, hv⟩
  next hlower hupper =>
    cases h
    exact ⟨hv, mem_declared_of_upper? hupper⟩
  next hlower hupper =>
    cases h
    exact ⟨mem_declared_of_lower? hlower, mem_declared_of_upper? hupper⟩

/-- The versions of a library module, one for each coordinate of the tier. -/
theorem mem_versions_iff {x : Text} : x ∈ (resolve s .library).versions ↔
    ∃ c v, (tier s).base? s c = some v ∧ x = interpolate (written s c v) (declaredVariables s) := by
  have hentry (c t : Text) :
      (∃ spec, (c, spec) ∈ (libraryVersions s (Exclusions.ofText s)).entries ∧ spec.text = t) ↔
        ∃ v, (tier s).base? s c = some v ∧
          constraint v ((tier s).lower? s c v) (upper? s c) = t := by
    simp only [TextMap.mem_entries_iff, ← Option.map_eq_some_iff, text_get?_libraryVersions]
  rw [resolve, TextSet.mem_ofList, List.mem_map]
  constructor
  · intro h
    obtain ⟨⟨c, spec⟩, hmem, hx⟩ := h
    obtain ⟨v, hv, htext⟩ := (hentry c spec.text).mp ⟨spec, hmem, rfl⟩
    exact ⟨c, v, hv, by rw [written, htext, ← hx]⟩
  · intro h
    obtain ⟨c, v, hv, hx⟩ := h
    obtain ⟨spec, hmem, htext⟩ := (hentry c _).mpr ⟨v, hv, rfl⟩
    exact ⟨(c, spec), hmem, by rw [hx, written, ← htext]⟩

end Descriptor

end ModuleDocs

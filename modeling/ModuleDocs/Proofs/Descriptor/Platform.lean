import ModuleDocs.Descriptor.Resolve
import ModuleDocs.Proofs.Descriptor.Place

/-!
# Where the platform version comes from

The platform version is named by a directive in an `otelJava` block. Two kinds of byte ranges meet
here. The exclusions decide which blocks are looked at, by where a block starts; the directive is
then the first one in the body of the block, wherever it stands in it. So a directive in an `if`
inside the block is read, although it does not hold for every build.

> `minJavaVersion_source`: the version is that of the first directive of the first block outside
> the exclusions that has one, and this directive is conditional exactly if an excluded range
> starts inside the block and reaches over it.

An exclusion that covered the directive from further ahead would cover the start of the block.
-/

namespace ModuleDocs

namespace Descriptor

open Text (StandsIn exists_standsIn byteLength ending?)

/-- What a platform version directive begins with. -/
def directiveLead : Text := "minJavaVersionSupported.set(JavaVersion.VERSION_".toList

/-- A platform version directive at a byte offset of a descriptor, with its value. -/
def IsDirective (s : Text) (offset n : Nat) : Prop :=
  ∃ ahead digits rest, s = ahead ++ (directiveLead ++ digits ++ ')' :: rest) ∧
    offset = byteLength ahead ∧ ahead.getLast?.any Text.isWord = false ∧
    smallNumber? digits = some n

/-- Byte offset of the body of a block. -/
def Block.bodyStart (b : Block) : Nat := b.stop - (byteLength b.body + 1)

/-- The platform version that the first directive of a block names. -/
def Block.platform? (b : Block) : Option Nat :=
  (Text.firstHit? minJavaDirective b.body).bind smallNumber?

/-- A block that names a platform version, as the first one of those that start outside the
exclusions. -/
def IsFirstNaming (s : Text) (b : Block) (n : Nat) : Prop :=
  ∃ earlier later,
    ((blocks "otelJava".toList s).filter fun a => !(Exclusions.ofText s).covers a.start) =
      earlier ++ b :: later ∧
    (∀ a ∈ earlier, a.platform? = none) ∧ b.platform? = some n

variable {s rest digits ahead opening behind : Text} {n offset : Nat} {b : Block}
  {before : Option Char} {e : Exclusions}

/-! ## Directives -/

theorem minJavaDirective_eq_some (h : minJavaDirective before s = some (digits, rest)) :
    before.any Text.isWord = false ∧ s = directiveLead ++ digits ++ [')'] ++ rest := by
  simp only [minJavaDirective, bind, Option.bind_eq_some_iff, pure, Option.some.injEq,
    Prod.mk.injEq] at h
  obtain ⟨t, hword, ⟨u, w⟩, hrun, z, hclose, hu, hz⟩ := h
  subst hu
  subst hz
  obtain ⟨hbefore, hs⟩ := Text.keyword?_eq_some_iff.mp hword
  refine ⟨hbefore, ?_⟩
  have hw : w = [')'] ++ z := Text.after?_eq_some.mp hclose
  have ht : t = u ++ w := (Text.run?_eq_some hrun).1
  rw [hs, ht, hw, List.append_assoc, List.append_assoc]
  rfl

theorem advances_minJavaDirective : Text.Advances minJavaDirective := by
  intro before s v rest h
  exact ⟨directiveLead ++ v ++ [')'], by simp, (minJavaDirective_eq_some h).2⟩

/-- The opening brace of a block is what a directive at the start of its body stands behind. -/
theorem getLast?_behind_brace {w : Text} (hopening : opening.getLast? = some '{') :
    (ahead ++ opening ++ w).getLast?.any Text.isWord = (ending? none w).any Text.isWord := by
  rw [List.getLast?_append, List.getLast?_append, hopening]
  cases hw : w.getLast? with
  | some c => simp [ending?, hw]
  | none =>
    have hbrace : Text.isWord '{' = false := by decide
    simp [ending?, hw, hbrace]

/-- **A directive in the body of a block** is one of the descriptor. -/
theorem isDirective_of_hit {h : Hit Text} (hb : b.StandsIn s ahead opening behind)
    (hmem : h ∈ Text.hits minJavaDirective b.body) (hn : smallNumber? h.value = some n) :
    IsDirective s (b.bodyStart + h.start) n ∧ b.start < b.bodyStart + h.start ∧
      b.bodyStart + h.start < b.stop := by
  obtain ⟨inner, read, hs⟩ := exists_standsIn advances_minJavaDirective hmem
  obtain ⟨hbefore, hread⟩ := minJavaDirective_eq_some hs.reads
  have hstart : b.bodyStart = byteLength (ahead ++ opening) := by
    rw [Block.bodyStart, hb.stop_eq, Text.byteLength_append (ahead ++ opening)]
    omega
  have hoffset : b.bodyStart + h.start = byteLength (ahead ++ opening ++ inner) := by
    rw [hstart, hs.start_eq, Nat.zero_add, ← Text.byteLength_append]
  have hbody : b.body = inner ++ (directiveLead ++ h.value ++ [')'] ++ h.rest) := by
    rw [hs.text_eq, List.append_assoc, hread]
  refine ⟨⟨ahead ++ opening ++ inner, h.value, h.rest ++ '}' :: behind, ?_, hoffset, ?_, hn⟩,
    ?_, ?_⟩
  · rw [hb.text_eq, hbody]
    simp only [List.append_assoc, List.cons_append, List.nil_append]
  · rw [getLast?_behind_brace hb.opening_ends]
    exact hbefore
  · -- the opening brace lies between the start of the block and its body
    obtain ⟨w, hw⟩ := List.getLast?_eq_some_iff.mp hb.opening_ends
    have hpos : 0 < byteLength opening := by
      rw [hw, Text.byteLength_append, Text.byteLength_cons]
      have := Char.utf8Size_pos '{'
      omega
    rw [hoffset, hb.start_eq, Text.byteLength_append, Text.byteLength_append]
    omega
  · have hle : byteLength inner ≤ byteLength b.body := by
      rw [hbody, Text.byteLength_append]
      omega
    rw [hoffset, hb.stop_eq, Text.byteLength_append, Text.byteLength_append (ahead ++ opening)]
    omega

/-! ## Exclusions -/

theorem covers_eq_true_iff :
    e.covers offset = true ↔ ∃ r ∈ e, r.1 ≤ offset ∧ offset < r.2 := by
  simp [Exclusions.covers]

/-- Behind a place that is not excluded only a range that starts in between can exclude. -/
theorem covers_behind_iff {start : Nat} (hstart : e.covers start = false) (hlt : start < offset) :
    e.covers offset = true ↔ ∃ r ∈ e, start < r.1 ∧ r.1 ≤ offset ∧ offset < r.2 := by
  rw [covers_eq_true_iff]
  constructor
  · intro h
    obtain ⟨r, hr, hle, hend⟩ := h
    refine ⟨r, hr, ?_, hle, hend⟩
    by_contra hnot
    have hcovered : e.covers start = true := covers_eq_true_iff.mpr ⟨r, hr, by omega, by omega⟩
    rw [hstart] at hcovered
    cases hcovered
  · intro h
    obtain ⟨r, hr, -, hle, hend⟩ := h
    exact ⟨r, hr, hle, hend⟩

/-- **Where the platform version comes from.** The platform version is the one named by the first
block that starts outside the exclusions and whose first directive has a value. That directive
stands inside the block, and it is conditional exactly if an excluded range starts inside the block
and covers it; an excluded range that starts ahead of the block has no influence. -/
theorem minJavaVersion_source (s : Text) :
    (∀ n, minJavaVersion s = some n ↔ ∃ b, IsFirstNaming s b n) ∧
    ∀ b n, IsFirstNaming s b n →
      b ∈ blocks "otelJava".toList s ∧ (Exclusions.ofText s).covers b.start = false ∧
      ∃ h, (Text.hits minJavaDirective b.body).head? = some h ∧
        IsDirective s (b.bodyStart + h.start) n ∧
        b.start < b.bodyStart + h.start ∧ b.bodyStart + h.start < b.stop ∧
        ((Exclusions.ofText s).covers (b.bodyStart + h.start) = true ↔
          ∃ r ∈ Exclusions.ofText s, b.start < r.1 ∧ r.1 ≤ b.bodyStart + h.start ∧
            b.bodyStart + h.start < r.2) := by
  constructor
  · intro n
    rw [minJavaVersion, minJavaVersionOutside, List.findSome?_eq_some_iff]
    constructor
    · intro h
      obtain ⟨earlier, b, later, hlist, hb, hnone⟩ := h
      exact ⟨b, earlier, later, hlist, hnone, hb⟩
    · intro h
      obtain ⟨b, earlier, later, hlist, hnone, hb⟩ := h
      exact ⟨earlier, b, later, hlist, hb, hnone⟩
  · intro b n hfirst
    obtain ⟨earlier, later, hlist, -, hplatform⟩ := hfirst
    have hmem : b ∈ (blocks "otelJava".toList s).filter
        fun a => !(Exclusions.ofText s).covers a.start := by
      rw [hlist]
      simp
    obtain ⟨hblock, hstart⟩ := List.mem_filter.mp hmem
    have hstart : (Exclusions.ofText s).covers b.start = false := by simpa using hstart
    obtain ⟨digits, hdigits, hn⟩ := Option.bind_eq_some_iff.mp hplatform
    obtain ⟨h, hhead, hvalue⟩ := Option.map_eq_some_iff.mp hdigits
    obtain ⟨ahead, opening, behind, hstands⟩ := exists_standsIn_of_mem_blocks hblock
    obtain ⟨hdirective, hafter, hend⟩ :=
      isDirective_of_hit hstands (List.mem_of_head? hhead) (hvalue ▸ hn)
    exact ⟨hblock, hstart, h, hhead, hdirective, hafter, hend, covers_behind_iff hstart hafter⟩

namespace Sample

/-- A block that starts outside the exclusions, with its only directive in an `if`. -/
def conditional : Text :=
  ("otelJava \x7b\n  if (latest) \x7b\n    minJavaVersionSupported.set(JavaVersion.VERSION_11)\n" ++
    "  \x7d\n\x7d\n").toList

theorem place_conditional : ∀ i, i < conditional.length →
    directiveLead.isPrefixOf (conditional.drop i) = true → i = 31 := by
  decide +kernel

/-- The text has one directive only. -/
theorem offset_conditional (h : IsDirective conditional offset n) : offset = 31 := by
  obtain ⟨ahead, digits, rest, hs, hoffset, -, -⟩ := h
  have hdrop : conditional.drop ahead.length = directiveLead ++ digits ++ ')' :: rest := by
    rw [hs, List.drop_left]
  have hlt : ahead.length < conditional.length := by
    rw [hs]
    simp only [List.length_append, List.length_cons]
    omega
  have hplace := place_conditional ahead.length hlt (by
    rw [hdrop, List.isPrefixOf_iff_prefix, List.append_assoc]
    exact List.prefix_append _ _)
  have hahead : ahead = conditional.take 31 := by
    rw [hs, ← hplace, List.take_left]
  rw [hoffset, hahead]
  decide +kernel

end Sample

/-- The version is read although every directive of the text is conditional. -/
theorem minJavaVersion_source_sample :
    minJavaVersion Sample.conditional = some 11 ∧
      (∃ offset, IsDirective Sample.conditional offset 11) ∧
      ∀ offset n, IsDirective Sample.conditional offset n →
        (Exclusions.ofText Sample.conditional).covers offset = true := by
  have hversion : minJavaVersion Sample.conditional = some 11 := by decide +kernel
  obtain ⟨b, hb⟩ := ((minJavaVersion_source Sample.conditional).1 11).mp hversion
  obtain ⟨-, -, h, -, hdirective, -, -, -⟩ := (minJavaVersion_source Sample.conditional).2 b 11 hb
  refine ⟨hversion, ⟨_, hdirective⟩, ?_⟩
  intro offset n hn
  rw [Sample.offset_conditional hn]
  decide +kernel

end Descriptor

end ModuleDocs

import ModuleDocs.Proofs.Descriptor.CompileOnly
import ModuleDocs.Proofs.Descriptor.Platform

/-!
# What is excluded

A conditional block is found by three readings in a row: its keyword, the condition in its
parentheses, and the braces behind that. Each of them has been read as what it finds, so their
ranges can be put together:

> `mem_ofText_iff`: the excluded ranges are those of the conditional and testing blocks which stand
> in the text, where no word leads up to the keyword.

This asks nothing of the text on the two sides of a block. In particular it does not matter what is
left open there, because the search for keywords reads no literals and no comments, and each block
is lexed from its own opening delimiter.
-/

namespace ModuleDocs

namespace Descriptor

open Text (IsHead byteLength)

variable {s k ahead space body behind : Text} {b : Block} {start stop offset : Nat}

/-! ## The specification -/

/-- A block that does not hold for every build: a conditional or a testing one, with its condition
and its body nested in themselves. -/
inductive IsExcludedBlock : Text → Prop
  | conditional {space condition gap body : Text} : (∀ x ∈ space, Text.isSpace x = true) →
      Nested '(' ')' condition → (∀ x ∈ gap, Text.isSpace x = true) → Nested '\x7b' '\x7d' body →
      IsExcludedBlock ("if".toList ++ space ++ '(' :: (condition ++ ')' :: (gap ++
        '\x7b' :: (body ++ ['\x7d']))))
  | testing {space body : Text} : (∀ x ∈ space, Text.isSpace x = true) →
      Nested '\x7b' '\x7d' body →
      IsExcludedBlock ("testing".toList ++ space ++ '\x7b' :: (body ++ ['\x7d']))

/-- An excluded block stands in a text, by the offsets of its ends. -/
def ExcludedAt (s : Text) (start stop : Nat) : Prop :=
  ∃ ahead block behind, s = ahead ++ block ++ behind ∧
    ahead.getLast?.any Text.isWord = false ∧ IsExcludedBlock block ∧
    start = byteLength ahead ∧ stop = byteLength (ahead ++ block)

/-! ## Conditional blocks -/

/-- Counted part by part, what is behind the opening parenthesis has its own length. -/
theorem byteLength_conditional {condition gap rest : Text} :
    stop + byteLength condition + 1 +
        (byteLength (gap ++ '\x7b' :: rest) - byteLength ('\x7b' :: rest)) + 1 +
        byteLength body + 1 =
      stop + byteLength (condition ++ ')' :: (gap ++ '\x7b' :: (body ++ ['\x7d']))) := by
  have hclosing : Char.utf8Size ')' = 1 := by decide
  have hopen : Char.utf8Size '\x7b' = 1 := by decide
  have hclose : Char.utf8Size '\x7d' = 1 := by decide
  simp only [Text.byteLength_append, Text.byteLength_cons, Text.byteLength_nil, hclosing, hopen,
    hclose]
  omega

/-- Behind its opening parenthesis a conditional block goes on with a condition, a body, and nothing
but white space between them. -/
theorem conditional?_eq_some_iff {h : Hit Unit} {r : Nat × Nat} :
    Exclusions.conditional? h = some r ↔ ∃ condition gap body behind,
      h.rest = condition ++ ')' :: (gap ++ '\x7b' :: (body ++ ['\x7d'])) ++ behind ∧
      Nested '(' ')' condition ∧ (∀ x ∈ gap, Text.isSpace x = true) ∧
      Nested '\x7b' '\x7d' body ∧
      r = (h.start, h.stop +
        byteLength (condition ++ ')' :: (gap ++ '\x7b' :: (body ++ ['\x7d'])))) := by
  simp only [Exclusions.conditional?, bind, Option.bind_eq_some_iff, pure, Option.some.injEq]
  constructor
  · intro hr
    obtain ⟨⟨condition, rest⟩, hparenthesised, t, hbrace, ⟨body, behind⟩, hbraced, rfl⟩ := hr
    obtain ⟨hrest, hcondition⟩ := parenthesised?_eq_some_iff.mp hparenthesised
    have hafter : rest.trimStart = '\x7b' :: t := Text.after?_eq_some.mp hbrace
    obtain ⟨-, gap, hgap, hgapped⟩ := Text.trimStart_eq_cons_iff.mp hafter
    obtain ⟨ht, hbody⟩ := braced?_eq_some_iff.mp hbraced
    refine ⟨condition, gap, body, behind, ?_, hcondition, hgap, hbody, ?_⟩
    · rw [hrest, hgapped, ht]
      simp
    · show (h.start, h.stop + byteLength condition + 1 +
        (byteLength rest - byteLength rest.trimStart) + 1 + byteLength body + 1) = _
      rw [hafter, hgapped, byteLength_conditional]
  · intro hr
    obtain ⟨condition, gap, body, behind, hrest, hcondition, hgap, hbody, rfl⟩ := hr
    have hgapped : Text.trimStart (gap ++ '\x7b' :: (body ++ '\x7d' :: behind)) =
        ['\x7b'] ++ (body ++ '\x7d' :: behind) :=
      Text.trimStart_eq_cons_iff.mpr ⟨by decide, gap, hgap, rfl⟩
    refine ⟨(condition, gap ++ '\x7b' :: (body ++ '\x7d' :: behind)),
      parenthesised?_eq_some_iff.mpr ⟨by rw [hrest]; simp, hcondition⟩,
      body ++ '\x7d' :: behind, Text.after?_eq_some.mpr hgapped, (body, behind),
      braced?_eq_some_iff.mpr ⟨rfl, hbody⟩, ?_⟩
    rw [hgapped, ← byteLength_conditional]
    rfl

/-! ## Blocks -/

theorem byteLength_braced : byteLength (ahead ++ (k ++ ['\x7b'])) + byteLength body + 1 =
    byteLength (ahead ++ (k ++ '\x7b' :: (body ++ ['\x7d']))) := by
  have hclose : Char.utf8Size '\x7d' = 1 := by decide
  simp only [Text.byteLength_append, Text.byteLength_cons, Text.byteLength_nil, hclose]
  omega

/-- The blocks of a keyword are the places where it opens, with what its brace encloses. -/
theorem mem_blocks_iff (hk : IsHead k '\x7b') (htail : k.tail ≠ []) : b ∈ blocks k s ↔
    ∃ ahead space behind, OpensAt k '\x7b' s ahead space (b.body ++ '\x7d' :: behind) ∧
      Nested '\x7b' '\x7d' b.body ∧ b.start = byteLength ahead ∧
      b.stop = byteLength (ahead ++ (k ++ space ++ '\x7b' :: (b.body ++ ['\x7d']))) := by
  simp only [blocks, List.mem_filterMap, Option.map_eq_some_iff]
  constructor
  · intro hb
    obtain ⟨h, hmem, ⟨body, behind⟩, hbraced, rfl⟩ := hb
    obtain ⟨ahead, space, hopens, hstart, hstop⟩ := (mem_hits_opener_iff hk htail).mp hmem
    obtain ⟨hrest, hbody⟩ := braced?_eq_some_iff.mp hbraced
    exact ⟨ahead, space, behind, hrest ▸ hopens, hbody, hstart,
      by rw [hstop, byteLength_braced]⟩
  · intro hb
    obtain ⟨ahead, space, behind, hopens, hbody, hstart, hstop⟩ := hb
    refine ⟨⟨_, _, (), _⟩, (mem_hits_opener_iff hk htail).mpr ⟨ahead, space, hopens, rfl, rfl⟩,
      (b.body, behind), braced?_eq_some_iff.mpr ⟨rfl, hbody⟩, ?_⟩
    show (⟨byteLength ahead, b.body,
      byteLength (ahead ++ (k ++ space ++ ['\x7b'])) + byteLength b.body + 1⟩ : Block) = b
    rw [byteLength_braced, ← hstart, ← hstop]

/-! ## Ranges -/

/-- **What is excluded**: the conditional and the testing blocks of the text, wherever they
stand. -/
theorem mem_ofText_iff : (start, stop) ∈ Exclusions.ofText s ↔ ExcludedAt s start stop := by
  have hif : IsHead "if".toList '(' := by decide
  have htesting : IsHead "testing".toList '\x7b' := by decide
  rw [Exclusions.ofText, List.mem_append, List.mem_filterMap, List.mem_map]
  constructor
  · intro h
    rcases h with ⟨h, hmem, hr⟩ | ⟨b, hmem, hr⟩
    · obtain ⟨ahead, space, hopens, hstart, hstop⟩ :=
        (mem_hits_opener_iff hif (by decide)).mp hmem
      obtain ⟨condition, gap, body, behind, hrest, hcondition, hgap, hbody, hr⟩ :=
        conditional?_eq_some_iff.mp hr
      obtain ⟨rfl, rfl⟩ := Prod.mk.inj hr
      refine ⟨ahead, _, behind, ?_, hopens.before,
        .conditional hopens.spaces hcondition hgap hbody, hstart, ?_⟩
      · rw [hopens.text_eq, hrest]
        simp
      · rw [hstop, ← Text.byteLength_append]
        simp
    · obtain ⟨ahead, space, behind, hopens, hbody, hstart, hstop⟩ :=
        (mem_blocks_iff htesting (by decide)).mp hmem
      obtain ⟨rfl, rfl⟩ := Prod.mk.inj hr
      refine ⟨ahead, _, behind, ?_, hopens.before, .testing hopens.spaces hbody, hstart, ?_⟩
      · rw [hopens.text_eq]
        simp
      · exact hstop
  · intro h
    obtain ⟨ahead, block, behind, hs, hbefore, hblock, rfl, rfl⟩ := h
    cases hblock with
    | @conditional space condition gap body hspace hcondition hgap hbody =>
      have hopens : OpensAt "if".toList '(' s ahead space
          (condition ++ ')' :: (gap ++ '\x7b' :: (body ++ ['\x7d'])) ++ behind) :=
        ⟨by rw [hs]; simp, hbefore, hspace⟩
      refine Or.inl ⟨⟨byteLength ahead, byteLength (ahead ++ ("if".toList ++ space ++ ['('])), (),
          _⟩,
        (mem_hits_opener_iff hif (by decide)).mpr ⟨ahead, space, hopens, rfl, rfl⟩,
        conditional?_eq_some_iff.mpr
          ⟨condition, gap, body, behind, rfl, hcondition, hgap, hbody, ?_⟩⟩
      simp only [← Text.byteLength_append, List.append_assoc, List.singleton_append]
    | @testing space body hspace hbody =>
      have hopens : OpensAt "testing".toList '\x7b' s ahead space (body ++ '\x7d' :: behind) :=
        ⟨by rw [hs]; simp, hbefore, hspace⟩
      exact Or.inr ⟨⟨_, body, _⟩, (mem_blocks_iff htesting (by decide)).mpr
        ⟨ahead, space, behind, hopens, hbody, rfl, rfl⟩, rfl⟩

/-- So an offset is covered exactly if it lies in a block that is excluded. -/
theorem covers_ofText_iff : (Exclusions.ofText s).covers offset = true ↔
    ∃ start stop, ExcludedAt s start stop ∧ start ≤ offset ∧ offset < stop := by
  simp only [covers_eq_true_iff, ← mem_ofText_iff, Prod.exists]

/-! ## Declarations -/

/-- A declared version comes from a call outside the exclusions. -/
theorem exists_call_of_compileOnly {c v : Text} {e : Exclusions}
    (h : (compileOnlyDeclarations s e).get? c = some v) :
    ∃ p, (StrictCall s p c v ∨ PlainCall s p c v) ∧ e.covers p = false := by
  rcases get?_compileOnlyDeclarations_iff.mp h with
    ⟨p, ⟨hcall, houtside⟩, -⟩ | ⟨-, p, ⟨hcall, houtside⟩, -⟩
  · exact ⟨p, Or.inl hcall, houtside⟩
  · exact ⟨p, Or.inr hcall, houtside⟩

/-- **An excluded block is covered wherever it stands**, from its keyword to its closing brace, and
what is declared comes from calls that do not start in it. Nothing is asked of the text behind the
block, and of the text ahead only that no word leads up to the keyword. Nor is anything covered but
such blocks. -/
theorem excluded_block_covered (ahead block behind : Text)
    (hahead : ahead.getLast?.any Text.isWord = false) (hblock : IsExcludedBlock block) :
    (∀ offset, byteLength ahead ≤ offset → offset < byteLength (ahead ++ block) →
      (Exclusions.ofText (ahead ++ block ++ behind)).covers offset = true) ∧
    (∀ offset, (Exclusions.ofText (ahead ++ block ++ behind)).covers offset = true →
      ∃ start stop, ExcludedAt (ahead ++ block ++ behind) start stop ∧
        start ≤ offset ∧ offset < stop) ∧
    ∀ c v, (compileOnlyDeclarations (ahead ++ block ++ behind)
        (Exclusions.ofText (ahead ++ block ++ behind))).get? c = some v →
      ∃ p, (StrictCall (ahead ++ block ++ behind) p c v ∨
          PlainCall (ahead ++ block ++ behind) p c v) ∧
        (p < byteLength ahead ∨ byteLength (ahead ++ block) ≤ p) := by
  have hcovered : ∀ offset, byteLength ahead ≤ offset → offset < byteLength (ahead ++ block) →
      (Exclusions.ofText (ahead ++ block ++ behind)).covers offset = true := by
    intro offset hstart hstop
    exact covers_ofText_iff.mpr ⟨byteLength ahead, byteLength (ahead ++ block),
      ⟨ahead, block, behind, rfl, hahead, hblock, rfl, rfl⟩, hstart, hstop⟩
  refine ⟨hcovered, fun _ => covers_ofText_iff.mp, ?_⟩
  intro c v h
  obtain ⟨p, hcall, houtside⟩ := exists_call_of_compileOnly h
  refine ⟨p, hcall, ?_⟩
  by_contra hinside
  rw [hcovered p (by omega) (by omega)] at houtside
  cases houtside

namespace Sample

def conditionWithLiteral : Text := "name == \")\"".toList

/-- The body of a block with a brace in a comment. -/
def bodyWithComment : Text := "\n  compileOnly(\"g:a:1\") // \x7d\n".toList

def excludedBlock : Text :=
  "if".toList ++ [' '] ++ '(' :: (conditionWithLiteral ++ ')' :: ([' '] ++
    '\x7b' :: (bodyWithComment ++ ['\x7d'])))

theorem isExcludedBlock_excludedBlock : IsExcludedBlock excludedBlock := by
  have hcondition : parenthesised? (conditionWithLiteral ++ [')']) =
      some (conditionWithLiteral, []) := by decide
  have hbody : braced? (bodyWithComment ++ ['\x7d']) = some (bodyWithComment, []) := by
    decide
  have hblank : [' '].all Text.isSpace = true := by decide
  exact .conditional (List.all_eq_true.mp hblank) (parenthesised?_eq_some_iff.mp hcondition).2
    (List.all_eq_true.mp hblank) (braced?_eq_some_iff.mp hbody).2

/-- The block behind an open literal and an open comment, with an open brace behind it. -/
def surroundedBlock : Text := "\x7d /* \"".toList ++ excludedBlock ++ ['\x7b']

end Sample

theorem excluded_block_covered_sample :
    IsExcludedBlock Sample.excludedBlock ∧
    (∀ offset, 6 ≤ offset → offset < 54 →
      (Exclusions.ofText Sample.surroundedBlock).covers offset = true) ∧
    (∀ offset, (Exclusions.ofText Sample.surroundedBlock).covers offset = true →
      ∃ start stop, ExcludedAt Sample.surroundedBlock start stop ∧
        start ≤ offset ∧ offset < stop) ∧
    ∀ c v, (compileOnlyDeclarations Sample.surroundedBlock
        (Exclusions.ofText Sample.surroundedBlock)).get? c = some v →
      ∃ p, (StrictCall Sample.surroundedBlock p c v ∨ PlainCall Sample.surroundedBlock p c v) ∧
        (p < 6 ∨ 54 ≤ p) := by
  have hblock := Sample.isExcludedBlock_excludedBlock
  have hstart : byteLength "\x7d /* \"".toList = 6 := by decide +kernel
  have hstop : byteLength ("\x7d /* \"".toList ++ Sample.excludedBlock) = 54 := by decide +kernel
  have h := excluded_block_covered "\x7d /* \"".toList Sample.excludedBlock ['\x7b']
    (by decide +kernel) hblock
  rw [hstart, hstop] at h
  exact ⟨hblock, h⟩

end Descriptor

end ModuleDocs

import Mathlib.Data.List.TakeWhile
import ModuleDocs.Proofs.Text.Hit

/-!
# Where hits stand

A hit names its place by two byte offsets and by the text behind it. `exists_standsIn` turns
these into a way of reading the text: what is ahead of the hit, what was read, and what follows.
The offsets are then lengths, and what was read there can be read again with the character before
it in view. That takes one property of the recogniser: it reads something, and from the front
(`Advances`).

The recognisers of the library are put together from keywords, runs and literals. What each of
these leaves behind is settled here once, as a decomposition of the text it read from.
-/

namespace ModuleDocs

namespace Text

variable {α : Type} {r : Recogniser α} {before : Option Char} {s u rest content k : Text}
  {h : Hit α} {n : Nat}

/-- A recogniser that reads something from the front of a text. -/
def Advances (r : Recogniser α) : Prop :=
  ∀ before s v rest, r before s = some (v, rest) → ∃ u, u ≠ [] ∧ s = u ++ rest

/-- A hit of a search that started at an offset, between what is ahead of it and what is behind. -/
structure StandsIn (r : Recogniser α) (offset : Nat) (before : Option Char) (s : Text)
    (h : Hit α) (ahead read : Text) : Prop where
  text_eq : s = ahead ++ read ++ h.rest
  start_eq : h.start = offset + byteLength ahead
  stop_eq : h.stop = offset + byteLength (ahead ++ read)
  read_ne : read ≠ []
  reads : r (ending? before ahead) (read ++ h.rest) = some (h.value, h.rest)

/-- A hit behind the first character is one of the text with that character. -/
theorem StandsIn.cons {offset : Nat} {c : Char} {ahead read : Text}
    (hs : StandsIn r (offset + c.utf8Size) (some c) s h ahead read) :
    StandsIn r offset before (c :: s) h (c :: ahead) read where
  text_eq := by rw [hs.text_eq]; rfl
  start_eq := by rw [hs.start_eq, byteLength_cons]; omega
  stop_eq := by rw [hs.stop_eq, List.cons_append, byteLength_cons]; omega
  read_ne := hs.read_ne
  reads := by rw [ending?_cons]; exact hs.reads

/-- Every hit of a search stands in the text. -/
theorem exists_standsIn_of_mem_collect (hr : Advances r) : ∀ (s : Text) (offset skip : Nat)
    (before : Option Char), h ∈ Hit.collect r offset before skip s →
      ∃ ahead read, StandsIn r offset before s h ahead read := by
  intro s
  induction s with
  | nil =>
    intro offset skip before hmem
    cases skip <;> cases hmem
  | cons c s ih =>
    intro offset skip before hmem
    cases skip with
    | succ skip =>
      obtain ⟨ahead, read, hs⟩ := ih _ skip _ (by simpa only [Hit.collect] using hmem)
      exact ⟨c :: ahead, read, hs.cons⟩
    | zero =>
      rw [Hit.collect] at hmem
      split at hmem
      next =>
        obtain ⟨ahead, read, hs⟩ := ih _ 0 _ hmem
        exact ⟨c :: ahead, read, hs.cons⟩
      next v rest hread =>
        rcases List.mem_cons.mp hmem with heq | hmem
        · -- the hit is the one that starts here
          obtain ⟨u, hu, hsplit⟩ := hr _ _ _ _ hread
          have htake : (c :: s).take ((c :: s).length - rest.length) = u := by
            rw [hsplit, List.length_append, Nat.add_sub_cancel, List.take_left]
          subst heq
          refine ⟨[], u, ?_, ?_, ?_, hu, ?_⟩
          · exact hsplit
          · rfl
          · show offset + byteLength ((c :: s).take _) = _
            rw [htake, List.nil_append]
          · show r before (u ++ rest) = some (v, rest)
            rw [← hsplit, hread]
        · obtain ⟨ahead, read, hs⟩ := ih _ _ _ hmem
          exact ⟨c :: ahead, read, hs.cons⟩

/-- **Where a hit stands**: what is ahead of it and what was read, by its offsets. -/
theorem exists_standsIn (hr : Advances r) (hmem : h ∈ hits r s) :
    ∃ ahead read, StandsIn r 0 none s h ahead read :=
  exists_standsIn_of_mem_collect hr s 0 0 none hmem

theorem StandsIn.infix_text {offset : Nat} {ahead read : Text}
    (hs : StandsIn r offset before s h ahead read) : read ++ h.rest <:+: s := by
  rw [hs.text_eq, List.append_assoc]
  exact (List.suffix_append ahead _).isInfix

/-- What a hit holds was read somewhere. -/
theorem exists_read_of_mem_hits (hmem : h ∈ hits r s) :
    ∃ before t, r before t = some (h.value, h.rest) := by
  suffices hcollect : ∀ (s : Text) (offset skip : Nat) (before : Option Char),
      h ∈ Hit.collect r offset before skip s → ∃ before t, r before t = some (h.value, h.rest) from
    hcollect s 0 0 none hmem
  intro s
  induction s with
  | nil =>
    intro offset skip before hmem
    cases skip <;> cases hmem
  | cons c s ih =>
    intro offset skip before hmem
    cases skip with
    | succ skip => exact ih _ skip _ (by simpa only [Hit.collect] using hmem)
    | zero =>
      rw [Hit.collect] at hmem
      split at hmem
      next => exact ih _ 0 _ hmem
      next v rest hread =>
        rcases List.mem_cons.mp hmem with heq | hmem
        · subst heq
          exact ⟨before, c :: s, hread⟩
        · exact ih _ _ _ hmem

/-! ## What is read from the front -/

/-- A run is what stands of its class at the front of a text, and is not empty. -/
theorem run?_eq_some_iff {p : Char → Bool} : run? p s = some (u, rest) ↔
    s = u ++ rest ∧ u ≠ [] ∧ (∀ c ∈ u, p c = true) ∧ rest.head?.any p = false := by
  constructor
  · intro h
    unfold run? at h
    rw [List.span_eq_takeWhile_dropWhile] at h
    cases htake : s.takeWhile p with
    | nil =>
      rw [htake] at h
      cases h
    | cons c t =>
      rw [htake] at h
      cases h
      rw [← htake]
      refine ⟨List.takeWhile_append_dropWhile.symm, by simp [htake], ?_, ?_⟩
      · intro d hd
        exact List.mem_takeWhile_imp hd
      · have hhead := List.head?_dropWhile_not p s
        cases hdrop : (s.dropWhile p).head? with
        | none => rfl
        | some d => simpa [hdrop] using hhead
  · intro h
    obtain ⟨hs, hne, hall, hend⟩ := h
    subst hs
    cases rest with
    | nil =>
      unfold run?
      rw [List.append_nil, List.span_eq_takeWhile_dropWhile, List.takeWhile_eq_self_iff.mpr hall,
        List.dropWhile_eq_nil_iff.mpr hall]
      cases u with
      | nil => exact absurd rfl hne
      | cons c u => rfl
    | cons c rest => exact run?_append hne hall (by simpa using hend)

/-- What a run reads is not empty and of its class. -/
theorem run?_eq_some {p : Char → Bool} (h : run? p s = some (u, rest)) :
    s = u ++ rest ∧ u ≠ [] ∧ ∀ c ∈ u, p c = true := by
  obtain ⟨hs, hne, hall, -⟩ := run?_eq_some_iff.mp h
  exact ⟨hs, hne, hall⟩

/-- The content of a literal is not empty and ends at the next quote. -/
theorem untilQuote?_eq_some_iff :
    untilQuote? s = some (content, rest) ↔
      content ≠ [] ∧ '"' ∉ content ∧ s = content ++ '"' :: rest := by
  constructor
  · intro h
    simp only [untilQuote?, bind, Option.bind_eq_some_iff, pure, Option.some.injEq,
      Prod.mk.injEq] at h
    obtain ⟨⟨u, w⟩, hrun, t, hquote, hu, ht⟩ := h
    subst hu
    subst ht
    obtain ⟨hs, hne, hall⟩ := run?_eq_some hrun
    refine ⟨hne, ?_, ?_⟩
    · intro hmem
      exact absurd (hall _ hmem) (by decide)
    · rw [hs, show w = ['"'] ++ t from after?_eq_some.mp hquote, List.singleton_append]
  · intro h
    obtain ⟨hne, hquote, hs⟩ := h
    have hall : ∀ c ∈ content, (c != '"') = true := by
      intro c hc
      rw [bne_iff_ne]
      rintro rfl
      exact hquote hc
    have hafter : after? ['"'] ('"' :: rest) = some rest := after?_eq_some.mpr rfl
    rw [untilQuote?, hs, run?_append hne hall (by decide)]
    simp only [bind, Option.bind_some, hafter, pure]

end Text

end ModuleDocs

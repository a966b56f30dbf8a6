import Mathlib.Data.List.Infix
import ModuleDocs.Proofs.Text.Search
import ModuleDocs.Text.Hit

/-!
# What a recogniser reads in a text

`Text.hits` goes through a text with an offset and a number of characters to pass. Both are
book-keeping: `readings` is what remains of the hits without them, and it goes on behind
each reading (`readings_of_some`).

So a text that is put together can be read part by part. A part is *passed over* if no hit
starts in it, whatever stands behind (`PassesOver`), and parts that are passed over are
passed over together. Most patterns of the library are a word in front of a delimiter
(`OpensWith`); they pass over a part that ends in the delimiter of another word
(`passesOver_word`), and over a part without the delimiter whose last character such a
pattern cannot reach across (`passesOver_closed`).
-/

namespace ModuleDocs

namespace Text

variable {α : Type} {r : Recogniser α} {before : Option Char} {s u w k rest : Text} {c d : Char}
  {v : α}

/-! ## The character before a position -/

/-- The character before what follows a text. -/
def ending? (before : Option Char) (u : Text) : Option Char := u.getLast?.or before

@[simp] theorem ending?_nil : ending? before [] = before := rfl

@[simp] theorem ending?_cons : ending? before (c :: u) = ending? (some c) u := by
  rw [ending?, ending?, List.getLast?_cons]
  cases u.getLast? <;> rfl

@[simp] theorem ending?_append : ending? before (u ++ w) = ending? (ending? before u) w := by
  rw [ending?, ending?, ending?, List.getLast?_append, Option.or_assoc]

/-! ## Readings -/

/-- What a recogniser reads in a text, each reading with the text behind it. -/
def readings (r : Recogniser α) (before : Option Char) (s : Text) : List (α × Text) :=
  (Hit.collect r 0 before 0 s).map fun h => (h.value, h.rest)

@[simp] theorem readings_nil : readings r before [] = [] := by simp [readings, Hit.collect]

/-- What is read does not depend on the offset. -/
theorem map_collect (offset skip : Nat) (before : Option Char) (s : Text) :
    (Hit.collect r offset before skip s).map (fun h => (h.value, h.rest)) =
      (Hit.collect r 0 before skip s).map fun h => (h.value, h.rest) := by
  induction s generalizing offset skip before with
  | nil => cases skip <;> rfl
  | cons c s ih =>
    cases skip with
    | succ skip =>
      rw [Hit.collect, Hit.collect, ih (offset + _), ih (0 + _)]
    | zero =>
      rw [Hit.collect, Hit.collect]
      split
      · rw [ih (offset + _), ih (0 + _)]
      · rw [List.map_cons, List.map_cons, ih (offset + _), ih (0 + _)]

/-- Characters that are to be passed are passed. -/
theorem map_collect_skip (u : Text) (before : Option Char) :
    (Hit.collect r 0 before u.length (u ++ w)).map (fun h => (h.value, h.rest)) =
      readings r (ending? before u) w := by
  induction u generalizing before with
  | nil => rfl
  | cons c u ih =>
    rw [List.length_cons, List.cons_append, Hit.collect, map_collect, ih, ending?_cons]

theorem readings_of_none (h : r before (c :: s) = none) :
    readings r before (c :: s) = readings r (some c) s := by
  rw [readings, Hit.collect, h]
  exact map_collect _ _ _ _

/-- Behind a reading the search goes on with the text behind it. -/
theorem readings_of_some (hu : u ≠ []) (h : r before (u ++ w) = some (v, w)) :
    readings r before (u ++ w) = (v, w) :: readings r (ending? before u) w := by
  cases u with
  | nil => exact absurd rfl hu
  | cons c u =>
    have hread : (c :: (u ++ w)).take ((c :: (u ++ w)).length - w.length) = c :: u := by
      rw [← List.cons_append, List.length_append, Nat.add_sub_cancel, List.take_left]
    rw [List.cons_append] at h ⊢
    rw [readings, Hit.collect, h]
    dsimp only
    rw [hread, List.map_cons, map_collect, List.length_cons, Nat.add_sub_cancel,
      map_collect_skip, ending?_cons]

theorem hits_eq_nil_of_readings (h : readings r none s = []) : hits r s = [] :=
  List.map_eq_nil_iff.mp h

theorem firstHit?_eq : firstHit? r s = (readings r none s).head?.map Prod.fst := by
  rw [firstHit?, hits, readings, List.head?_map, Option.map_map]
  rfl

/-! ## Texts that are passed over -/

/-- No hit of a recogniser starts in a text, whatever stands around it. -/
def PassesOver (r : Recogniser α) (u : Text) : Prop :=
  ∀ before w, readings r before (u ++ w) = readings r (ending? before u) w

theorem passesOver_nil : PassesOver r [] := fun _ _ => rfl

theorem PassesOver.append (hu : PassesOver r u) (hw : PassesOver r w) : PassesOver r (u ++ w) := by
  intro before s
  rw [List.append_assoc, hu, hw, ending?_append]

theorem PassesOver.flatMap {β : Type} {f : β → Text} {bs : List β}
    (h : ∀ b ∈ bs, PassesOver r (f b)) : PassesOver r (bs.flatMap f) := by
  induction bs with
  | nil => exact passesOver_nil
  | cons b bs ih =>
    rw [List.flatMap_cons]
    exact (h b List.mem_cons_self).append (ih fun a ha => h a (List.mem_cons_of_mem _ ha))

/-- Nothing is read in a text that is passed over. -/
theorem PassesOver.readings_eq_nil (h : PassesOver r u) : readings r before u = [] := by
  rw [← List.append_nil u, h, readings_nil]

/-- Nothing is read at any position of a text, whatever stands around it. -/
def Unread (r : Recogniser α) (u : Text) : Prop :=
  ∀ t, t ≠ [] → t <:+ u → ∀ before w, r before (t ++ w) = none

/-- A text is passed over if nothing can be read at any of its positions. -/
theorem passesOver_of_unread (h : Unread r u) : PassesOver r u := by
  induction u with
  | nil => exact passesOver_nil
  | cons c u ih =>
    intro before w
    have hnone := h (c :: u) (by simp) List.suffix_rfl before w
    rw [List.cons_append] at hnone ⊢
    rw [readings_of_none hnone, ending?_cons]
    exact ih (fun t ht hsuffix => h t ht (hsuffix.trans (List.suffix_cons c u))) _ _

/-- A keyword is read where it stands and no word leads up to it. -/
theorem keyword?_eq_some_iff :
    keyword? k before s = some rest ↔ before.any isWord = false ∧ s = k ++ rest := by
  rw [keyword?, ← after?_eq_some]
  cases before.any isWord <;> simp

/-- A run ends at the first character of another class. -/
theorem run?_append {p : Char → Bool} (hu : u ≠ []) (hp : ∀ x ∈ u, p x = true)
    (hc : p c = false) : run? p (u ++ c :: w) = some (u, c :: w) := by
  have hspan : (u ++ c :: w).span p = (u, c :: w) := by
    rw [List.span_eq_takeWhile_dropWhile, List.takeWhile_append_of_pos hp,
      List.dropWhile_append_of_pos hp, List.takeWhile_cons_of_neg (by simp [hc]),
      List.dropWhile_cons_of_neg (by simp [hc]), List.append_nil]
  unfold run?
  rw [hspan]
  cases u with
  | nil => exact absurd rfl hu
  | cons x u => rfl

/-! ## White space -/

theorem trimStart_of_not_isSpace (hc : isSpace c = false) : trimStart (c :: s) = c :: s :=
  trimStart_eq_cons_iff.mpr ⟨hc, [], by simp, rfl⟩

/-- The ranges of the characters that are white space. -/
def spaceRanges : List (Nat × Nat) := [
  (9, 13), (0x20, 0x20), (0x85, 0x85), (0xA0, 0xA0), (0x1680, 0x1680), (0x2000, 0x200A),
  (0x2028, 0x2029), (0x202F, 0x202F), (0x205F, 0x205F), (0x3000, 0x3000)]

theorem inRanges_iff {ranges : List (Nat × Nat)} {n : Nat} :
    inRanges ranges n = true ↔ ∃ r ∈ ranges, r.1 ≤ n ∧ n ≤ r.2 := by
  simp [inRanges]

theorem isSpace_eq : isSpace c = inRanges spaceRanges c.toNat := by
  rw [Bool.eq_iff_iff]
  simp only [isSpace, inRanges, spaceRanges, List.any_cons, List.any_nil, Bool.or_eq_true,
    Bool.and_eq_true, decide_eq_true_iff, beq_iff_eq, Bool.false_eq_true, or_false]
  omega

theorem apart_spaceRanges {a b : Nat × Nat} (ha : a ∈ spaceRanges) (hb : b ∈ wordRanges) :
    a.2 < b.1 ∨ b.2 < a.1 := by
  have hall : (spaceRanges.all fun a => wordRanges.all fun b =>
      a.2.blt b.1 || b.2.blt a.1) = true := by
    decide +kernel
  have hapart := List.all_eq_true.mp (List.all_eq_true.mp hall a ha) b hb
  simpa using hapart

theorem isSpace_word_ascii : ∀ n : Fin 0x80, isWord (Char.ofNat n) = true →
    isSpace (Char.ofNat n) = false := by
  decide

/-- A word character is no white space. -/
theorem isSpace_of_isWord (h : isWord c = true) : isSpace c = false := by
  by_cases hc : c.toNat < 0x80
  · have hascii := isSpace_word_ascii ⟨c.toNat, hc⟩
    rw [Char.ofNat_toNat] at hascii
    exact hascii h
  · rw [isWord, if_neg hc, inRanges_iff] at h
    obtain ⟨b, hb, hlow, hhigh⟩ := h
    rw [← Bool.not_eq_true, isSpace_eq, inRanges_iff]
    rintro ⟨a, ha, hlow', hhigh'⟩
    have hapart := apart_spaceRanges ha hb
    omega

/-! ## Words in front of a delimiter -/

/-- A word that can stand in front of a delimiter. -/
structure IsHead (k : Text) (d : Char) : Prop where
  nonempty : k ≠ []
  solid : ∀ c ∈ k, isSpace c = false
  not_mem : d ∉ k
  delimiter : isSpace d = false

theorem isHead_iff : IsHead k d ↔
    k ≠ [] ∧ (k.all fun c => !isSpace c) = true ∧ d ∉ k ∧ isSpace d = false := by
  simp only [List.all_eq_true, Bool.not_eq_true']
  constructor
  · rintro ⟨hne, hsolid, hmem, hd⟩
    exact ⟨hne, hsolid, hmem, hd⟩
  · rintro ⟨hne, hsolid, hmem, hd⟩
    exact ⟨hne, hsolid, hmem, hd⟩

instance : Decidable (IsHead k d) := decidable_of_iff _ isHead_iff.symm

/-- What a recogniser reads begins with a word and a delimiter, perhaps with white space
between them. -/
structure OpensWith (r : Recogniser α) (k : Text) (d : Char) : Prop extends IsHead k d where
  reads : ∀ {before s}, (r before s).isSome →
    ∃ space rest, (∀ c ∈ space, isSpace c = true) ∧ s = k ++ space ++ d :: rest

/-- What is left of a word behind its first character can stand in front of the delimiter, too. -/
theorem IsHead.tail (hk : IsHead k d) (htail : k.tail ≠ []) : IsHead k.tail d where
  nonempty := htail
  solid := fun c hc => hk.solid c (List.mem_of_mem_tail hc)
  not_mem := fun hd => hk.not_mem (List.mem_of_mem_tail hd)
  delimiter := hk.delimiter

theorem IsHead.not_mem_append {space : Text} (hk : IsHead k d)
    (hspace : ∀ c ∈ space, isSpace c = true) : d ∉ k ++ space := by
  intro hmem
  rcases List.mem_append.mp hmem with hmem | hmem
  · exact hk.not_mem hmem
  · exact absurd (hspace d hmem) (by simp [hk.delimiter])

/-- Dropping white space at the end leaves a word that stands in front of it. -/
theorem IsHead.trimEnd_append {space : Text} (hk : IsHead k d)
    (hspace : ∀ c ∈ space, isSpace c = true) : trimEnd (u ++ (k ++ space)) = u ++ k := by
  rw [trimEnd, ← List.append_assoc, List.reverse_append,
    List.dropWhile_append_of_pos (by simpa using hspace), List.reverse_append]
  cases hreverse : k.reverse with
  | nil => exact absurd (List.reverse_eq_nil_iff.mp hreverse) hk.nonempty
  | cons c t =>
    have hc : c ∈ k := List.mem_reverse.mp (by simp [hreverse])
    rw [List.cons_append, List.dropWhile_cons_of_neg (by simp [hk.solid c hc]),
      ← List.cons_append, ← hreverse, ← List.reverse_append, List.reverse_reverse]

/-- Texts that continue with a character which they lack are alike up to there. -/
theorem eq_of_append_cons_eq {a b : Text} (ha : d ∉ a) (hb : d ∉ b)
    (h : a ++ d :: u = b ++ d :: w) : a = b := by
  rcases List.append_eq_append_iff.mp h with ⟨t, rfl, ht⟩ | ⟨t, rfl, ht⟩ <;>
    cases t with
    | nil => simp
    | cons x t => simp_all

namespace OpensWith

variable (hr : OpensWith r k d)

include hr

/-- White space is passed over. -/
theorem passesOver_spaces (hu : ∀ c ∈ u, isSpace c = true) : PassesOver r u := by
  refine passesOver_of_unread fun t ht hsuffix before w => ?_
  by_contra hread
  obtain ⟨space, rest, -, hsplit⟩ := hr.reads (Option.isSome_iff_ne_none.mpr hread)
  obtain ⟨x, t, rfl⟩ := List.exists_cons_of_ne_nil ht
  obtain ⟨y, k, rfl⟩ := List.exists_cons_of_ne_nil hr.nonempty
  -- the word would begin with white space
  have hxy : x = y := (List.cons.inj hsplit).1
  have hx := hu x (hsuffix.subset List.mem_cons_self)
  rw [hxy, hr.solid y List.mem_cons_self] at hx
  cases hx

/-- Nothing is read in a word with its delimiter unless it ends in the word that is looked for. -/
theorem unread_word {o space : Text} (ho : IsHead o d) (h : ¬ k <:+ o)
    (hspace : ∀ c ∈ space, isSpace c = true) : Unread r (o ++ space ++ [d]) := by
  intro t ht hsuffix before w
  by_contra hread
  obtain ⟨space', rest, hspace', hsplit⟩ := hr.reads (Option.isSome_iff_ne_none.mpr hread)
  obtain ⟨t, rfl, x, hx⟩ := (List.suffix_concat_iff.mp hsuffix).resolve_left ht
  have ht : d ∉ t := fun hmem => ho.not_mem_append hspace (hx ▸ List.mem_append_right x hmem)
  rw [List.append_assoc] at hsplit
  -- both words are what is left without the white space
  have hword : t = k ++ space' := eq_of_append_cons_eq ht (hr.not_mem_append hspace') hsplit
  refine h ⟨x, ?_⟩
  rw [hword] at hx
  rw [← hr.trimEnd_append hspace', hx]
  exact ho.trimEnd_append (u := []) hspace

theorem passesOver_word {o space : Text} (ho : IsHead o d) (h : ¬ k <:+ o)
    (hspace : ∀ c ∈ space, isSpace c = true) : PassesOver r (o ++ space ++ [d]) :=
  passesOver_of_unread (hr.unread_word ho h hspace)

/-- A text without the delimiter is passed over if its last character is neither white space
nor in the word. -/
theorem passesOver_closed (hu : d ∉ u) (hc : isSpace c = false) (hck : c ∉ k) (hcd : c ≠ d) :
    PassesOver r (u ++ [c]) := by
  refine passesOver_of_unread fun t ht hsuffix before w => ?_
  by_contra hread
  obtain ⟨space, rest, hspace, hsplit⟩ := hr.reads (Option.isSome_iff_ne_none.mpr hread)
  obtain ⟨t, rfl, htu⟩ := (List.suffix_concat_iff.mp hsuffix).resolve_left ht
  have hreach : c ∉ k ++ space := by
    intro hmem
    rcases List.mem_append.mp hmem with hmem | hmem
    · exact hck hmem
    · exact absurd (hspace c hmem) (by simp [hc])
  rcases List.append_eq_append_iff.mp hsplit with ⟨b, hb, -⟩ | ⟨b, hb, hrest⟩
  · exact hreach (hb ▸ List.mem_append_left b (List.mem_append_right t (List.mem_singleton_self c)))
  · cases b with
    | nil =>
      rw [List.append_nil] at hb
      exact hreach (hb ▸ List.mem_append_right t (List.mem_singleton_self c))
    | cons x b =>
      obtain rfl : d = x := (List.cons.inj hrest).1
      have hmem : d ∈ t ++ [c] := by simp [hb]
      rcases List.mem_append.mp hmem with hmem | hmem
      · exact hu (htu.subset hmem)
      · exact hcd (List.mem_singleton.mp hmem).symm

end OpensWith

end Text

end ModuleDocs

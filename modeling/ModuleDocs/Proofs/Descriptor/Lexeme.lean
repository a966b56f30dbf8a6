import Mathlib.Order.Bounds.Basic
import Mathlib.Order.Nat
import ModuleDocs.Proofs.Descriptor.Nesting
import ModuleDocs.Proofs.Text.Bytes

/-!
# The lexemes of a descriptor

In bytes, a descriptor is a row of literals, comments and single bytes of code (`lexemes`), and
nothing of it is lost in between (`flatMap_bytes_lexemes`). Only code has delimiters, so the
delimiter that closes an open one is settled by the code bytes and their offsets: it is the first
closing one up to which as many are closed as are opened (`Balances`).

> `closingIn?_eq_some_iff`: counting what is open finds the least offset that balances.

A search does not start at the beginning of a lexeme only. `closingFrom?` is the search from within
one, by the mode it lies in; its equations say what a byte of each kind does to it, and they are all
that is needed of the lexemes later on.
-/

namespace ModuleDocs

namespace Descriptor

/-! ## Delimiters -/

@[match_pattern] abbrev quote : UInt8 := 0x22

@[match_pattern] abbrev backslash : UInt8 := 0x5c

@[match_pattern] abbrev slash : UInt8 := 0x2f

@[match_pattern] abbrev star : UInt8 := 0x2a

@[match_pattern] abbrev newline : UInt8 := 0x0a

/-- A pair of delimiters, each of one byte, that begin nothing else and end no line. -/
structure Delimiters where
  opening : Char
  closing : Char
  delimits : Delimits opening closing
  ascii : opening.utf8Size = 1 ∧ closing.utf8Size = 1
  inline : opening ≠ '\n' ∧ closing ≠ '\n'

namespace Delimiters

def braces : Delimiters := ⟨'\x7b', '\x7d', by decide, by decide, by decide⟩

def parentheses : Delimiters := ⟨'(', ')', by decide, by decide, by decide⟩

def openingByte (d : Delimiters) : UInt8 := d.opening.toUInt8

def closingByte (d : Delimiters) : UInt8 := d.closing.toUInt8

variable {a : Char}

theorem openingByte_ne (d : Delimiters) (ha : a.utf8Size = 1) (h : d.opening ≠ a) :
    d.openingByte ≠ a.toUInt8 :=
  mt (Text.toUInt8_inj d.ascii.1 ha).mp h

theorem opening_ne (d : Delimiters) (h : a ∈ [d.closing, '"', '/', '*']) : d.opening ≠ a := by
  rintro rfl
  exact (List.nodup_cons.mp d.delimits).1 h

theorem openingByte_ne_closingByte (d : Delimiters) : d.openingByte ≠ d.closingByte :=
  d.openingByte_ne d.ascii.2 (d.opening_ne (by simp))

theorem openingByte_ne_quote (d : Delimiters) : d.openingByte ≠ quote :=
  d.openingByte_ne (a := '"') (by decide) (d.opening_ne (by simp))

theorem openingByte_ne_slash (d : Delimiters) : d.openingByte ≠ slash :=
  d.openingByte_ne (a := '/') (by decide) (d.opening_ne (by simp))

theorem openingByte_ne_newline (d : Delimiters) : d.openingByte ≠ newline :=
  d.openingByte_ne (a := '\n') (by decide) d.inline.1

theorem closingByte_ne_newline (d : Delimiters) : d.closingByte ≠ newline :=
  mt (Text.toUInt8_inj d.ascii.2 (by decide : '\n'.utf8Size = 1)).mp d.inline.2

end Delimiters

variable {d : Delimiters} {b x : UInt8} {n m i j k : Nat} {s t u w : List UInt8} {mode : Mode}

/-! ## Lexemes -/

/-- A part of a descriptor that is read as a whole. -/
inductive Lexeme where
  | code (b : UInt8)
  | literal (bytes : List UInt8)
  | lineComment (bytes : List UInt8)
  | blockComment (bytes : List UInt8)
  deriving DecidableEq, Repr

/-- What a lexeme is written as. -/
def Lexeme.bytes : Lexeme → List UInt8
  | code b => [b]
  | literal s | lineComment s | blockComment s => s

/-- How far a literal goes whose opening quote has been read: behind the first quote that
no backslash escapes. -/
def literalExtent : List UInt8 → Nat
  | [] => 0
  | quote :: _ => 1
  | backslash :: _ :: s => literalExtent s + 2
  | _ :: s => literalExtent s + 1

/-- How far a comment goes whose slashes have been read: up to the end of its line. -/
def lineExtent (s : List UInt8) : Nat := s.idxOf newline

/-- How far a comment goes whose opening has been read: behind the first `*/`. -/
def blockExtent : List UInt8 → Nat
  | [] => 0
  | star :: slash :: _ => 2
  | _ :: s => blockExtent s + 1

/-- The lexemes of a text, from left to right. One that does not end takes the rest of the text. -/
def lexemes : List UInt8 → List Lexeme
  | [] => []
  | quote :: s => .literal (quote :: s.take (literalExtent s)) :: lexemes (s.drop (literalExtent s))
  | slash :: slash :: s =>
    .lineComment (slash :: slash :: s.take (lineExtent s)) :: lexemes (s.drop (lineExtent s))
  | slash :: star :: s =>
    .blockComment (slash :: star :: s.take (blockExtent s)) :: lexemes (s.drop (blockExtent s))
  | b :: s => .code b :: lexemes s
termination_by s => s.length
decreasing_by all_goals simp only [List.length_cons, List.length_drop]; omega

theorem lexemes_quote : lexemes (quote :: s) =
    .literal (quote :: s.take (literalExtent s)) :: lexemes (s.drop (literalExtent s)) := by
  rw [lexemes.eq_def]
  rfl

theorem lexemes_line : lexemes (slash :: slash :: s) =
    .lineComment (slash :: slash :: s.take (lineExtent s)) :: lexemes (s.drop (lineExtent s)) := by
  rw [lexemes.eq_def]
  rfl

theorem lexemes_block : lexemes (slash :: star :: s) =
    .blockComment (slash :: star :: s.take (blockExtent s)) ::
      lexemes (s.drop (blockExtent s)) := by
  rw [lexemes.eq_def]
  rfl

theorem not_prefix_of_ne (h : b ≠ x) : ¬ x :: t <+: b :: s :=
  fun hprefix => h (List.cons_prefix_cons.mp hprefix).1.symm

/-- The form in which a match on two elements leaves it that they are not ahead. -/
theorem not_pair_prefix_iff {α : Type} {a c x : α} {s : List α} :
    ¬ [a, c] <+: x :: s ↔ ∀ t, x = a → s = c :: t → False := by
  constructor
  · intro h t hx hs
    exact h ⟨t, by rw [hx, hs]; rfl⟩
  · rintro h ⟨t, ht⟩
    obtain ⟨hx, hs⟩ := List.cons.inj ht
    exact h t hx.symm hs.symm

theorem lexemes_code (hquote : b ≠ quote) (hline : ¬ [slash, slash] <+: b :: s)
    (hblock : ¬ [slash, star] <+: b :: s) : lexemes (b :: s) = .code b :: lexemes s := by
  rw [lexemes]
  · exact hquote
  · exact not_pair_prefix_iff.mp hline
  · exact not_pair_prefix_iff.mp hblock

/-- The lexemes are the whole text. -/
theorem flatMap_bytes_lexemes (s : List UInt8) : (lexemes s).flatMap Lexeme.bytes = s := by
  fun_induction lexemes s with
  | case1 => rfl
  | case2 s ih => simp [Lexeme.bytes, ih]
  | case3 s ih => simp [Lexeme.bytes, ih]
  | case4 s ih => simp [Lexeme.bytes, ih]
  | case5 b s _ _ _ ih => simp [Lexeme.bytes, ih]

/-- The first `*/` ends a comment, but not with the star of its opening. -/
example : lexemes [slash, star, slash, 0x7d, star, slash, 0x7d] =
    [.blockComment [slash, star, slash, 0x7d, star, slash], .code 0x7d] := by cbv

/-! ## Code -/

/-- The code bytes among lexemes that start at an offset, each with its own offset. -/
def codeFrom : Nat → List Lexeme → List (Nat × UInt8)
  | _, [] => []
  | i, .code b :: ls => (i, b) :: codeFrom (i + 1) ls
  | i, l :: ls => codeFrom (i + l.bytes.length) ls

/-- The code bytes of a text from an offset on. -/
def codeBytes (s : List UInt8) (start : Nat) : List (Nat × UInt8) :=
  codeFrom start (lexemes (s.drop start))

/-- A delimiter that opens is code. -/
theorem codeFrom_opening : codeFrom i (lexemes (d.openingByte :: s)) =
    (i, d.openingByte) :: codeFrom (i + 1) (lexemes s) := by
  rw [lexemes_code d.openingByte_ne_quote (not_prefix_of_ne d.openingByte_ne_slash)
    (not_prefix_of_ne d.openingByte_ne_slash), codeFrom]

/-- A code byte stands at its offset. -/
theorem exists_split_of_mem_codeFrom {ls : List Lexeme} (h : (j, b) ∈ codeFrom i ls) :
    ∃ u w, ls.flatMap Lexeme.bytes = u ++ b :: w ∧ j = i + u.length := by
  fun_induction codeFrom i ls with
  | case1 => simp at h
  | case2 i x ls ih =>
    rcases List.mem_cons.mp h with heq | h
    · cases heq
      exact ⟨[], ls.flatMap Lexeme.bytes, rfl, rfl⟩
    · obtain ⟨u, w, hs, hj⟩ := ih h
      exact ⟨x :: u, w, by simp [Lexeme.bytes, hs], by rw [hj, List.length_cons]; omega⟩
  | case3 i l ls _ ih =>
    obtain ⟨u, w, hs, hj⟩ := ih h
    exact ⟨l.bytes ++ u, w, by simp [hs], by rw [hj, List.length_append]; omega⟩

theorem getElem?_of_mem_codeBytes {start : Nat} (h : (j, b) ∈ codeBytes s start) :
    s[j]? = some b := by
  obtain ⟨u, w, hs, rfl⟩ := exists_split_of_mem_codeFrom h
  rw [flatMap_bytes_lexemes] at hs
  rw [← List.getElem?_drop, hs, List.getElem?_append_right (Nat.le_refl _), Nat.sub_self]
  rfl

theorem le_of_mem_codeFrom {ls : List Lexeme} (h : (j, b) ∈ codeFrom i ls) : i ≤ j := by
  obtain ⟨u, w, -, hj⟩ := exists_split_of_mem_codeFrom h
  omega

theorem pairwise_codeFrom (i : Nat) (ls : List Lexeme) :
    (codeFrom i ls).Pairwise fun p q => p.1 < q.1 := by
  fun_induction codeFrom i ls with
  | case1 => exact List.Pairwise.nil
  | case2 i x ls ih => exact ih.cons fun _ hp => le_of_mem_codeFrom hp
  | case3 i l ls _ ih => exact ih

/-! ## Balance -/

/-- How often a byte stands in code up to an offset, the byte at the offset included. -/
def countUpTo (b : UInt8) (i : Nat) (code : List (Nat × UInt8)) : Nat :=
  code.countP fun p => p.1 ≤ i ∧ p.2 = b

/-- Where `n` delimiters are open ahead of some code, a closing one of the code brings it into
balance. -/
structure Balances (d : Delimiters) (n : Nat) (code : List (Nat × UInt8)) (i : Nat) : Prop where
  closes : (i, d.closingByte) ∈ code
  balance : n + countUpTo d.openingByte i code = countUpTo d.closingByte i code

/-- The offset of the delimiter that closes `n + 1` open ones. -/
def closingIn? (d : Delimiters) : Nat → List (Nat × UInt8) → Option Nat
  | _, [] => none
  | n, (i, b) :: code =>
    if b = d.openingByte then closingIn? d (n + 1) code
    else if b = d.closingByte then
      match n with
      | 0 => some i
      | n + 1 => closingIn? d n code
    else closingIn? d n code

variable {code : List (Nat × UInt8)}

theorem countUpTo_cons : countUpTo x j ((i, b) :: code) =
    countUpTo x j code + if i ≤ j ∧ b = x then 1 else 0 := by
  simp only [countUpTo, List.countP_cons, decide_eq_true_eq]

theorem countUpTo_eq_zero (h : ∀ p ∈ code, i < p.1) : countUpTo b i code = 0 := by
  refine List.countP_eq_zero.mpr fun p hp => ?_
  have hlt := h p hp
  simp only [decide_eq_true_eq]
  omega

/-- A byte that does not balance by itself changes what is open for the code behind it. -/
theorem balances_cons_iff (hlt : ∀ p ∈ code, i < p.1) (hfirst : b = d.closingByte → n ≠ 1)
    (hm : n + (if b = d.openingByte then 1 else 0) = m + if b = d.closingByte then 1 else 0) :
    Balances d n ((i, b) :: code) j ↔ Balances d m code j := by
  constructor
  · intro h
    obtain ⟨hcloses, hbalance⟩ := h
    simp only [countUpTo_cons] at hbalance
    rcases List.mem_cons.mp hcloses with heq | hmem
    · cases heq
      have hne := d.openingByte_ne_closingByte
      rw [countUpTo_eq_zero hlt, countUpTo_eq_zero hlt, if_neg fun h => hne h.2.symm,
        if_pos ⟨Nat.le_refl i, rfl⟩] at hbalance
      exact absurd hbalance (hfirst rfl)
    · have hij : i ≤ j := Nat.le_of_lt (hlt _ hmem)
      simp only [hij, true_and] at hbalance
      exact ⟨hmem, by omega⟩
  · intro h
    obtain ⟨hcloses, hbalance⟩ := h
    have hij : i ≤ j := Nat.le_of_lt (hlt _ hcloses)
    refine ⟨List.mem_cons_of_mem _ hcloses, ?_⟩
    simp only [countUpTo_cons, hij, true_and]
    omega

/-- Balance counts from the delimiter that opens, or behind it with one delimiter open. -/
theorem balances_codeBytes_iff (h : s.drop i = d.openingByte :: t) :
    Balances d 0 (codeBytes s i) j ↔ Balances d 1 (codeFrom (i + 1) (lexemes t)) j := by
  have hne := d.openingByte_ne_closingByte
  rw [codeBytes, h, codeFrom_opening]
  exact balances_cons_iff (fun p hp => le_of_mem_codeFrom hp) (fun heq => absurd heq hne)
    (by simp [hne])

/-- **Counting finds the first balance.** -/
theorem closingIn?_eq_some_iff (hcode : code.Pairwise fun p q => p.1 < q.1) :
    closingIn? d n code = some i ↔ IsLeast {j | Balances d (n + 1) code j} i := by
  fun_induction closingIn? d n code with
  | case1 n =>
    refine iff_of_false (by simp) fun h => ?_
    exact List.not_mem_nil h.1.closes
  | case2 n k code ih =>
    obtain ⟨hlt, hcode⟩ := List.pairwise_cons.mp hcode
    have hne := d.openingByte_ne_closingByte
    have hcons : ∀ j,
        Balances d (n + 1) ((k, d.openingByte) :: code) j ↔ Balances d (n + 2) code j :=
      fun _ => balances_cons_iff hlt (fun h => absurd h hne) (by simp [hne])
    simp only [ih hcode, hcons]
  | case3 k code hne =>
    obtain ⟨hlt, hcode⟩ := List.pairwise_cons.mp hcode
    have hleast : IsLeast {j | Balances d (0 + 1) ((k, d.closingByte) :: code) j} k := by
      refine ⟨⟨List.mem_cons_self, ?_⟩, fun j hj => ?_⟩
      · simp only [countUpTo_cons, countUpTo_eq_zero hlt]
        simp [hne]
      · rcases List.mem_cons.mp hj.closes with heq | hmem
        · cases heq
          exact Nat.le_refl k
        · exact Nat.le_of_lt (hlt _ hmem)
    rw [Option.some.injEq]
    constructor
    · intro h
      exact h ▸ hleast
    · intro h
      exact hleast.unique h
  | case4 k code n hne ih =>
    obtain ⟨hlt, hcode⟩ := List.pairwise_cons.mp hcode
    have hcons : ∀ j,
        Balances d (n + 2) ((k, d.closingByte) :: code) j ↔ Balances d (n + 1) code j :=
      fun _ => balances_cons_iff hlt (fun _ => by omega) (by simp [hne])
    simp only [ih hcode, hcons]
  | case5 n k b code hopen hclose ih =>
    obtain ⟨hlt, hcode⟩ := List.pairwise_cons.mp hcode
    have hcons : ∀ j, Balances d (n + 1) ((k, b) :: code) j ↔ Balances d (n + 1) code j :=
      fun _ => balances_cons_iff hlt (fun h => absurd h hclose) (by simp [hopen, hclose])
    simp only [ih hcode, hcons]

theorem closingIn?_eq_none_iff (hcode : code.Pairwise fun p q => p.1 < q.1) :
    closingIn? d n code = none ↔ ∀ i, ¬ Balances d (n + 1) code i := by
  constructor
  · intro hnone i hi
    classical
    have hleast := Nat.isLeast_find ⟨i, hi⟩
    have hsome := (closingIn?_eq_some_iff hcode).mpr hleast
    rw [hnone] at hsome
    cases hsome
  · intro h
    cases hfound : closingIn? d n code with
    | none => rfl
    | some i => exact absurd ((closingIn?_eq_some_iff hcode).mp hfound).1 (h i)

/-! ## From within a lexeme -/

/-- How far the lexeme goes that a mode lies in. -/
def Mode.extent : Mode → List UInt8 → Nat
  | .code, _ => 0
  | .literal, s => literalExtent s
  | .lineComment, s => lineExtent s
  | .blockComment, s => blockExtent s

theorem Mode.extent_le (mode : Mode) (s : List UInt8) : mode.extent s ≤ s.length := by
  cases mode with
  | code => exact Nat.zero_le _
  | literal =>
    show literalExtent s ≤ s.length
    fun_induction literalExtent s <;> simp only [List.length_cons, List.length_nil] <;> omega
  | lineComment => exact List.idxOf_le_length
  | blockComment =>
    show blockExtent s ≤ s.length
    fun_induction blockExtent s <;> simp only [List.length_cons, List.length_nil] <;> omega

/-- The offset of the delimiter that closes `n + 1` open ones, in a text that starts at offset `i`
in a mode. -/
def closingFrom? (d : Delimiters) (mode : Mode) (n i : Nat) (s : List UInt8) : Option Nat :=
  closingIn? d n (codeFrom (i + mode.extent s) (lexemes (s.drop (mode.extent s))))

@[simp] theorem closingFrom?_nil : closingFrom? d mode n i [] = none := by
  simp [closingFrom?, lexemes, codeFrom, closingIn?]

/-- Behind the lexeme that a mode lies in there is code. -/
theorem closingFrom?_eq_code : closingFrom? d mode n i s =
    closingFrom? d .code n (i + mode.extent s) (s.drop (mode.extent s)) := rfl

/-- A lexeme that has been read up to where a mode begins is passed over with what is left of it. -/
theorem closingFrom?_passed (h : codeFrom i (lexemes s) =
    codeFrom (i + (u ++ w.take (mode.extent w)).length) (lexemes (w.drop (mode.extent w)))) :
    closingFrom? d .code n i s = closingFrom? d mode n (i + u.length) w := by
  have hle := mode.extent_le w
  rw [List.length_append, List.length_take, Nat.min_eq_left hle, ← Nat.add_assoc] at h
  simp only [closingFrom?, Mode.extent, Nat.add_zero, List.drop_zero, h]

theorem closingFrom?_code_quote :
    closingFrom? d .code n i (quote :: s) = closingFrom? d .literal n (i + 1) s :=
  closingFrom?_passed (u := [quote]) (by rw [lexemes_quote]; rfl)

theorem closingFrom?_code_line :
    closingFrom? d .code n i (slash :: slash :: s) = closingFrom? d .lineComment n (i + 2) s :=
  closingFrom?_passed (u := [slash, slash]) (by rw [lexemes_line]; rfl)

theorem closingFrom?_code_block :
    closingFrom? d .code n i (slash :: star :: s) = closingFrom? d .blockComment n (i + 2) s :=
  closingFrom?_passed (u := [slash, star]) (by rw [lexemes_block]; rfl)

theorem closingFrom?_code (hquote : b ≠ quote) (hline : ¬ [slash, slash] <+: b :: s)
    (hblock : ¬ [slash, star] <+: b :: s) :
    closingFrom? d .code n i (b :: s) =
      if b = d.openingByte then closingFrom? d .code (n + 1) (i + 1) s
      else if b = d.closingByte then
        match n with
        | 0 => some i
        | n + 1 => closingFrom? d .code n (i + 1) s
      else closingFrom? d .code n (i + 1) s := by
  simp only [closingFrom?, Mode.extent, Nat.add_zero, List.drop_zero,
    lexemes_code hquote hline hblock, codeFrom, closingIn?]

/-- Bytes that a lexeme has to itself are passed over. -/
theorem closingFrom?_extent (h : mode.extent (u ++ w) = u.length + mode.extent w) :
    closingFrom? d mode n i (u ++ w) = closingFrom? d mode n (i + u.length) w := by
  rw [closingFrom?, closingFrom?, h, ← Nat.add_assoc, ← List.drop_drop, List.drop_left]

theorem closingFrom?_literal_quote :
    closingFrom? d .literal n i (quote :: s) = closingFrom? d .code n (i + 1) s := rfl

theorem closingFrom?_literal_escape :
    closingFrom? d .literal n i (backslash :: b :: s) = closingFrom? d .literal n (i + 2) s :=
  closingFrom?_extent (u := [backslash, b]) (Nat.add_comm _ 2)

theorem closingFrom?_literal_backslash : closingFrom? d .literal n i [backslash] = none :=
  (closingFrom?_extent (u := [backslash]) (w := []) rfl).trans closingFrom?_nil

theorem closingFrom?_literal (hquote : b ≠ quote) (hslash : b ≠ backslash) :
    closingFrom? d .literal n i (b :: s) = closingFrom? d .literal n (i + 1) s := by
  refine closingFrom?_extent (u := [b]) ?_
  show literalExtent (b :: s) = 1 + literalExtent s
  rw [literalExtent, Nat.add_comm]
  · exact hquote
  · exact fun _ _ h => absurd h hslash

theorem closingFrom?_line_newline :
    closingFrom? d .lineComment n i (newline :: s) = closingFrom? d .code n (i + 1) s := by
  have hextent : Mode.lineComment.extent (newline :: s) = 0 := by
    rw [Mode.extent, lineExtent, List.idxOf_cons_self]
  have hcode : closingFrom? d .lineComment n i (newline :: s) =
      closingFrom? d .code n i (newline :: s) := by
    rw [closingFrom?, hextent]
    rfl
  have hslash : newline ≠ slash := by decide
  rw [hcode, closingFrom?_code (by decide) (not_prefix_of_ne hslash) (not_prefix_of_ne hslash),
    if_neg d.openingByte_ne_newline.symm, if_neg d.closingByte_ne_newline.symm]

theorem closingFrom?_line (hbreak : b ≠ newline) :
    closingFrom? d .lineComment n i (b :: s) = closingFrom? d .lineComment n (i + 1) s := by
  refine closingFrom?_extent (u := [b]) ?_
  show lineExtent (b :: s) = 1 + lineExtent s
  rw [lineExtent, List.idxOf_cons_ne _ hbreak, Nat.add_comm]
  rfl

theorem closingFrom?_block_end :
    closingFrom? d .blockComment n i (star :: slash :: s) = closingFrom? d .code n (i + 2) s := rfl

theorem closingFrom?_block (hend : ¬ [star, slash] <+: b :: s) :
    closingFrom? d .blockComment n i (b :: s) = closingFrom? d .blockComment n (i + 1) s := by
  refine closingFrom?_extent (u := [b]) ?_
  show blockExtent (b :: s) = 1 + blockExtent s
  rw [blockExtent, Nat.add_comm]
  exact not_pair_prefix_iff.mp hend

end Descriptor

end ModuleDocs

import ModuleDocs.Proofs.Descriptor.Lexeme

/-!
# The search over the bytes

A closing delimiter is searched for by an index into the bytes. It goes on by a byte or, behind a
backslash and over a comment, by more; a comment is passed over by searching for its end, in a part
of the text that begins at the index or behind the opening of the comment. Two things can go wrong
on the way: such a part may begin behind the end of the text, and a delimiter may close where none
is open.

What the lexemes say is still to be found is the same at each step (`Turn.Keeps`, `step_keeps`), as
long as a delimiter is open. The index grows with every step, so the search ends, and by induction
on its steps it ends where the lexemes say.

> `search_eq`: from a delimiter that opens, the search comes to the one that closes it, or to the
> end of the text.
-/

namespace ModuleDocs

namespace Descriptor

open Text (firstOffset?)

variable {d : Delimiters} {b : UInt8} {n i : Nat} {s t : List UInt8}

/-! ## The loop -/

/-- A text from an offset on, which must not lie behind its end. -/
def partFrom? (s : List UInt8) (i : Nat) : Option (List UInt8) :=
  if i ≤ s.length then some (s.drop i) else none

/-- Where a search for a closing delimiter stands. -/
structure Search where
  index : Nat
  /-- How many delimiters are open. -/
  depth : Nat
  inLiteral : Bool

/-- How a search ends. -/
inductive Ending where
  /-- A delimiter closes all that are open. -/
  | found (offset : Nat)
  /-- The text ends. -/
  | exhausted
  /-- A delimiter closes where none is open. -/
  | unopened
  /-- A part of the text is asked for that begins behind its end. -/
  | beyond
  deriving DecidableEq, Repr

/-- What a step of a search comes to. -/
inductive Turn where
  | goes (q : Search)
  | ends (e : Ending)

namespace Search

/-- Reads the byte at the index, or a whole comment. -/
def step (d : Delimiters) (s : List UInt8) (q : Search) : Turn :=
  match partFrom? s q.index with
  | some (b :: rest) =>
    if q.inLiteral then
      if b = backslash then .goes { q with index := q.index + 2 }
      else if b = quote then .goes { q with index := q.index + 1, inLiteral := false }
      else .goes { q with index := q.index + 1 }
    else if b = quote then .goes { q with index := q.index + 1, inLiteral := true }
    else if [slash, slash] <+: b :: rest then
      .goes { q with
        index := ((firstOffset? [newline] (b :: rest)).map (q.index + ·)).getD s.length }
    else if [slash, star] <+: b :: rest then
      match partFrom? s (q.index + 2) with
      | some comment =>
        .goes { q with
          index := ((firstOffset? [star, slash] comment).map (q.index + 2 + · + 2)).getD s.length }
      | none => .ends .beyond
    else if b = d.openingByte then .goes { q with index := q.index + 1, depth := q.depth + 1 }
    else if b = d.closingByte then
      match q.depth with
      | 0 => .ends .unopened
      | 1 => .ends (.found q.index)
      | depth + 2 => .goes { q with index := q.index + 1, depth := depth + 1 }
    else .goes { q with index := q.index + 1 }
  | _ => .ends .beyond

/-- The mode of the lexer in which a search reads on. -/
def mode (q : Search) : Mode := if q.inLiteral then .literal else .code

/-- The delimiter that is still to be found, if one is open at all. -/
def goal? (d : Delimiters) (s : List UInt8) (q : Search) : Option Nat :=
  closingFrom? d q.mode (q.depth - 1) q.index (s.drop q.index)

end Search

/-- The end of a search for a delimiter that is there or is not. -/
def Ending.ofOffset : Option Nat → Ending
  | some i => .found i
  | none => .exhausted

theorem Ending.ofOffset_ne_unopened (found : Option Nat) : ofOffset found ≠ unopened := by
  cases found <;> exact Ending.noConfusion

theorem Ending.ofOffset_ne_beyond (found : Option Nat) : ofOffset found ≠ beyond := by
  cases found <;> exact Ending.noConfusion

/-- A turn goes forward to the same delimiter, or ends at it, as long as one is open. -/
def Turn.Keeps (d : Delimiters) (s : List UInt8) (q : Search) : Turn → Prop
  | goes q' => q.index < q'.index ∧
      (0 < q.depth → 0 < q'.depth ∧ q'.goal? d s = q.goal? d s)
  | ends e => 0 < q.depth → e = .ofOffset (q.goal? d s)

/-! ## One step -/

theorem partFrom?_eq_some (hi : i ≤ s.length) (h : s.drop i = t) : partFrom? s i = some t := by
  rw [partFrom?, if_pos hi, h]

/-- The first line break is where a line ends. -/
theorem getD_firstOffset?_newline : (firstOffset? [newline] t).getD t.length = lineExtent t := by
  induction t with
  | nil => rfl
  | cons b t ih =>
    by_cases hb : b = newline
    · have hbegins : [newline] <+: b :: t := ⟨t, by rw [hb]; rfl⟩
      rw [Text.firstOffset?_cons_of_begins hbegins, hb, lineExtent, List.idxOf_cons_self]
      rfl
    · rw [Text.firstOffset?_cons_of_not_begins (not_prefix_of_ne hb), lineExtent,
        List.idxOf_cons_ne _ hb, List.length_cons, Option.getD_map (· + 1), ih]
      rfl

/-- Behind the first `*/` is where a comment ends. -/
theorem getD_firstOffset?_end :
    ((firstOffset? [star, slash] t).map (· + 2)).getD t.length = blockExtent t := by
  induction t with
  | nil => rfl
  | cons b t ih =>
    by_cases hend : [star, slash] <+: b :: t
    · rw [Text.firstOffset?_cons_of_begins hend]
      obtain ⟨w, hw⟩ := hend
      rw [← hw]
      rfl
    · have hcomm : (· + 2) ∘ (· + 1) = (· + 1) ∘ fun k : Nat => k + 2 := rfl
      rw [Text.firstOffset?_cons_of_not_begins hend, Option.map_map, hcomm, ← Option.map_map,
        List.length_cons, Option.getD_map (· + 1), ih, blockExtent]
      exact not_pair_prefix_iff.mp hend

namespace Search

variable {m : Nat} {q : Search}

/-- A search that is not at the end of a text reads the byte at its index. -/
theorem length_eq_of_drop (h : s.drop i = b :: t) : s.length = i + 1 + t.length := by
  have hlen := congrArg List.length h
  rw [List.length_drop, List.length_cons] at hlen
  omega

theorem step_literal (h : s.drop i = b :: t) : step d s ⟨i, m, true⟩ =
    if b = backslash then .goes ⟨i + 2, m, true⟩
    else if b = quote then .goes ⟨i + 1, m, false⟩
    else .goes ⟨i + 1, m, true⟩ := by
  have hlen := length_eq_of_drop h
  rw [step, partFrom?_eq_some (by omega) h]
  rfl

theorem step_quote (h : s.drop i = quote :: t) :
    step d s ⟨i, m, false⟩ = .goes ⟨i + 1, m, true⟩ := by
  have hlen := length_eq_of_drop h
  rw [step, partFrom?_eq_some (by omega) h]
  rfl

theorem step_line (h : s.drop i = slash :: slash :: t) :
    step d s ⟨i, m, false⟩ = .goes ⟨i + 2 + lineExtent t, m, false⟩ := by
  have hlen := length_eq_of_drop h
  have hextent : lineExtent (slash :: slash :: t) = 2 + lineExtent t := by
    rw [lineExtent, List.idxOf_cons_ne _ (by decide), List.idxOf_cons_ne _ (by decide)]
    exact Nat.add_comm _ 2
  have hindex : ((firstOffset? [newline] (slash :: slash :: t)).map (i + ·)).getD s.length =
      i + 2 + lineExtent t := by
    rw [hlen, Nat.add_assoc i, Nat.add_comm 1, ← List.length_cons, Option.getD_map (i + ·),
      getD_firstOffset?_newline, hextent, Nat.add_assoc]
  rw [step, partFrom?_eq_some (by omega) h]
  simp only [Bool.false_eq_true, if_false]
  rw [if_neg (by decide), if_pos ⟨t, rfl⟩, hindex]

theorem step_block (h : s.drop i = slash :: star :: t) :
    step d s ⟨i, m, false⟩ = .goes ⟨i + 2 + blockExtent t, m, false⟩ := by
  have hlen := length_eq_of_drop h
  rw [List.length_cons] at hlen
  have hcomment : partFrom? s (i + 2) = some t :=
    partFrom?_eq_some (by omega) (by rw [← List.drop_drop, h]; rfl)
  have hindex : ((firstOffset? [star, slash] t).map (i + 2 + · + 2)).getD s.length =
      i + 2 + blockExtent t := by
    have hsplit : (i + 2 + · + 2) = (i + 2 + ·) ∘ (· + 2) := rfl
    have hend : s.length = i + 2 + t.length := by omega
    rw [hsplit, ← Option.map_map, hend, Option.getD_map (i + 2 + ·), getD_firstOffset?_end]
  rw [step, partFrom?_eq_some (by omega) h]
  simp only [Bool.false_eq_true, if_false]
  have hline : ¬ [slash, slash] <+: slash :: star :: t := by
    rw [List.cons_prefix_cons, not_and]
    exact fun _ => not_prefix_of_ne (by decide)
  rw [if_neg (by decide), if_neg hline, if_pos ⟨t, rfl⟩, hcomment]
  simp only [hindex]

theorem step_code (h : s.drop i = b :: t) (hquote : b ≠ quote)
    (hline : ¬ [slash, slash] <+: b :: t) (hblock : ¬ [slash, star] <+: b :: t) :
    step d s ⟨i, m, false⟩ =
      if b = d.openingByte then .goes ⟨i + 1, m + 1, false⟩
      else if b = d.closingByte then
        match m with
        | 0 => .ends .unopened
        | 1 => .ends (.found i)
        | depth + 2 => .goes ⟨i + 1, depth + 1, false⟩
      else .goes ⟨i + 1, m, false⟩ := by
  have hlen := length_eq_of_drop h
  rw [step, partFrom?_eq_some (by omega) h]
  simp only [Bool.false_eq_true, if_false, if_neg hquote, if_neg hline, if_neg hblock]

theorem goal?_code (h : s.drop i = t) :
    goal? d s ⟨i, m, false⟩ = closingFrom? d .code (m - 1) i t := by
  rw [goal?, h]
  rfl

theorem goal?_literal (h : s.drop i = t) :
    goal? d s ⟨i, m, true⟩ = closingFrom? d .literal (m - 1) i t := by
  rw [goal?, h]
  rfl

/-- A step within a literal stays on the way to the same delimiter. -/
theorem step_keeps_literal (h : s.drop i = b :: t) :
    (step d s ⟨i, m, true⟩).Keeps d s ⟨i, m, true⟩ := by
  have hdrop : ∀ k, s.drop (i + k) = (b :: t).drop k := fun k => by rw [← List.drop_drop, h]
  rw [step_literal h]
  split
  · next hslash =>
    subst hslash
    refine ⟨Nat.lt_add_of_pos_right (by decide), fun hm => ⟨hm, ?_⟩⟩
    rw [goal?_literal h, goal?_literal (hdrop 2)]
    cases t with
    -- behind a backslash at the end of the text the index is past its end
    | nil => exact closingFrom?_nil.trans closingFrom?_literal_backslash.symm
    | cons x t => exact closingFrom?_literal_escape.symm
  · next hslash =>
    split
    · next hquote =>
      subst hquote
      refine ⟨Nat.lt_succ_self i, fun hm => ⟨hm, ?_⟩⟩
      rw [goal?_literal h, goal?_code (hdrop 1)]
      exact closingFrom?_literal_quote.symm
    · next hquote =>
      refine ⟨Nat.lt_succ_self i, fun hm => ⟨hm, ?_⟩⟩
      rw [goal?_literal h, goal?_literal (hdrop 1)]
      exact (closingFrom?_literal hquote hslash).symm

/-- A step over a comment stays on the way to the same delimiter. -/
theorem keeps_comment (mode : Mode) (h : s.drop (i + 2) = t)
    (hgoal : ∀ n, goal? d s ⟨i, n, false⟩ = closingFrom? d mode (n - 1) (i + 2) t) :
    (Turn.goes ⟨i + 2 + mode.extent t, m, false⟩).Keeps d s ⟨i, m, false⟩ := by
  refine ⟨by show i < i + 2 + mode.extent t; omega, fun hm => ⟨hm, ?_⟩⟩
  rw [hgoal, closingFrom?_eq_code, goal?_code]
  rw [← List.drop_drop, h]

/-- A step in code opens or closes a delimiter, or stays on the way to the same one. -/
theorem step_keeps_code (h : s.drop i = b :: t) :
    (step d s ⟨i, m, false⟩).Keeps d s ⟨i, m, false⟩ := by
  have hdrop : ∀ k, s.drop (i + k) = (b :: t).drop k := fun k => by rw [← List.drop_drop, h]
  by_cases hquote : b = quote
  · subst hquote
    rw [step_quote h]
    refine ⟨Nat.lt_succ_self i, fun hm => ⟨hm, ?_⟩⟩
    rw [goal?_code h, goal?_literal (hdrop 1)]
    exact closingFrom?_code_quote.symm
  by_cases hline : [slash, slash] <+: b :: t
  · obtain ⟨w, hw⟩ := hline
    cases hw
    rw [step_line h]
    exact keeps_comment .lineComment (hdrop 2) fun n =>
      (goal?_code h).trans closingFrom?_code_line
  by_cases hblock : [slash, star] <+: b :: t
  · obtain ⟨w, hw⟩ := hblock
    cases hw
    rw [step_block h]
    exact keeps_comment .blockComment (hdrop 2) fun n =>
      (goal?_code h).trans closingFrom?_code_block
  have hgoal : goal? d s ⟨i, m, false⟩ = _ :=
    (goal?_code h).trans (closingFrom?_code hquote hline hblock)
  rw [step_code h hquote hline hblock]
  split
  · next hopen =>
    refine ⟨Nat.lt_succ_self i, fun hm => ⟨Nat.succ_pos m, ?_⟩⟩
    rw [hgoal, if_pos hopen, goal?_code (hdrop 1)]
    cases m with
    | zero => exact absurd hm (Nat.lt_irrefl 0)
    | succ n => rfl
  · next hopen =>
    rw [if_neg hopen] at hgoal
    split
    · next hclose =>
      rw [if_pos hclose] at hgoal
      match m with
      | 0 => exact fun hm => absurd hm (Nat.lt_irrefl 0)
      | 1 => exact fun _ => congrArg Ending.ofOffset hgoal.symm
      | depth + 2 =>
        refine ⟨Nat.lt_succ_self i, fun hm => ⟨Nat.succ_pos depth, ?_⟩⟩
        rw [hgoal, goal?_code (hdrop 1)]
        rfl
    · next hclose =>
      refine ⟨Nat.lt_succ_self i, fun hm => ⟨hm, ?_⟩⟩
      rw [hgoal, if_neg hclose, goal?_code (hdrop 1)]
      rfl

/-- **One step** goes forward on the way to the same delimiter, or ends there. -/
theorem step_keeps (q : Search) (hq : q.index < s.length) : (step d s q).Keeps d s q := by
  obtain ⟨b, t, h⟩ : ∃ b t, s.drop q.index = b :: t :=
    List.exists_cons_of_ne_nil (by rwa [ne_eq, List.drop_eq_nil_iff, Nat.not_le])
  obtain ⟨i, m, inLiteral⟩ := q
  cases inLiteral with
  | true => exact step_keeps_literal h
  | false => exact step_keeps_code h

theorem index_lt_of_step {q q' : Search} (hq : q.index < s.length)
    (h : step d s q = .goes q') : q.index < q'.index := by
  have hkeeps := step_keeps (d := d) q hq
  rw [h] at hkeeps
  exact hkeeps.1

/-! ## The whole search -/

/-- Steps until a search ends. -/
def run (d : Delimiters) (s : List UInt8) (q : Search) : Ending :=
  if _hq : q.index < s.length then
    match _h : step d s q with
    | .goes q' => run d s q'
    | .ends e => e
  else .exhausted
termination_by s.length - q.index
decreasing_by
  have hlt := index_lt_of_step _hq _h
  omega

theorem run_of_step {q' : Search} (hq : q.index < s.length) (h : step d s q = .goes q') :
    run d s q = run d s q' := by
  rw [run, dif_pos hq]
  split
  · next q'' hstep =>
    rw [h] at hstep
    cases hstep
    rfl
  · next e hstep =>
    rw [h] at hstep
    cases hstep

/-- **A search in which a delimiter is open** ends where the lexemes say. -/
theorem run_eq (hdepth : 0 < q.depth) : run d s q = .ofOffset (q.goal? d s) := by
  fun_induction run d s q with
  | case1 q hq q' hstep ih =>
    have hkeeps := step_keeps (d := d) q hq
    rw [hstep] at hkeeps
    obtain ⟨hdepth', hgoal⟩ := hkeeps.2 hdepth
    rw [ih hdepth', hgoal]
  | case2 q hq e hstep =>
    have hkeeps := step_keeps (d := d) q hq
    rw [hstep] at hkeeps
    exact hkeeps hdepth
  | case3 q hq =>
    have hdrop : s.drop q.index = [] := List.drop_eq_nil_of_le (Nat.le_of_not_lt hq)
    rw [goal?, hdrop, closingFrom?_nil]
    rfl

end Search

/-- The search for the delimiter that closes the one at an offset. -/
def search (d : Delimiters) (s : List UInt8) (start : Nat) : Ending :=
  Search.run d s ⟨start, 0, false⟩

/-- Once it has opened the delimiter at its start, the search ends where the lexemes say. -/
theorem search_eq (h : s.drop i = d.openingByte :: t) :
    search d s i = .ofOffset (closingFrom? d .code 0 (i + 1) t) := by
  have hlt : i < s.length := by
    have hlen := Search.length_eq_of_drop h
    omega
  have hslash := d.openingByte_ne_slash
  have hstep := Search.step_code (d := d) (m := 0) h d.openingByte_ne_quote
    (not_prefix_of_ne hslash) (not_prefix_of_ne hslash)
  rw [if_pos rfl] at hstep
  rw [search, Search.run_of_step hlt hstep, Search.run_eq (Nat.succ_pos 0),
    Search.goal?_code (t := t) (by rw [← List.drop_drop, h]; rfl)]

end Descriptor

end ModuleDocs

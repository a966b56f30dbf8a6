import ModuleDocs.Descriptor.Declaration
import ModuleDocs.Proofs.Descriptor.Block
import ModuleDocs.Proofs.Text.Leftmost

/-!
# Where blocks and calls stand

What the recognisers of a descriptor read is a part of it. A block is its keyword, an opening
brace, its body and the brace that closes it (`exists_standsIn_of_mem_blocks`); a call is its
keyword with a literal in parentheses (`call_eq_some_iff`). So what is read in the body of a block
stands in the descriptor itself, at an offset that can be given, and so does the content of every
literal.
-/

namespace ModuleDocs

namespace Descriptor

open Text (Advances ApartIn IsHead IsReading exists_standsIn byteLength)

variable {o c x y : Char} {mode : Mode} {n : Nat} {s k body rest content : Text}
  {before : Option Char} {b : Block}

/-! ## Blocks -/

/-- A split of the rest of a text is one of the text. -/
theorem split_of_passing {split? : Option (Text × Text)}
    (ih : ∀ {body rest}, split? = some (body, rest) → s = body ++ c :: rest)
    (h : split?.map (passing x) = some (body, rest)) : x :: s = body ++ c :: rest := by
  obtain ⟨p, hp, heq⟩ := Option.map_eq_some_iff.mp h
  cases heq
  rw [ih hp]
  rfl

theorem split_of_passing_two {split? : Option (Text × Text)}
    (ih : ∀ {body rest}, split? = some (body, rest) → s = body ++ c :: rest)
    (h : split?.map (passing x ∘ passing y) = some (body, rest)) :
    x :: y :: s = body ++ c :: rest := by
  rw [← Option.map_map] at h
  exact split_of_passing (fun hq => split_of_passing ih hq) h

/-- The lexer splits a text at a closing delimiter. -/
theorem closing?_eq_some (h : closing? o c mode n s = some (body, rest)) :
    s = body ++ c :: rest := by
  fun_induction closing? o c mode n s generalizing body rest with
  | case1 => cases h
  | case2 _ _ _ ih => exact split_of_passing_two ih h
  | case3 _ _ _ _ ih => exact split_of_passing ih h
  | case4 _ _ _ ih => exact split_of_passing ih h
  | case5 _ _ ih => exact split_of_passing_two ih h
  | case6 _ _ _ _ ih => exact split_of_passing ih h
  | case7 _ _ ih => exact split_of_passing ih h
  | case8 _ _ ih => exact split_of_passing_two ih h
  | case9 _ _ ih => exact split_of_passing_two ih h
  | case10 _ _ _ _ _ ih => exact split_of_passing ih h
  | case11 => cases h; rfl
  | case12 _ _ _ _ _ _ ih => exact split_of_passing ih h
  | case13 _ _ _ _ _ _ _ _ ih => exact split_of_passing ih h

theorem advances_opener (k : Text) (d : Char) : Advances (opener k d) := by
  intro before s v rest h
  obtain ⟨-, space, -, hs⟩ := opener_eq_some_split h
  exact ⟨k ++ space ++ [d], by simp, hs⟩

/-- A block of a descriptor, between what is ahead of it and what is behind. -/
structure Block.StandsIn (b : Block) (s ahead opening behind : Text) : Prop where
  text_eq : s = ahead ++ opening ++ (b.body ++ '}' :: behind)
  start_eq : b.start = byteLength ahead
  stop_eq : b.stop = byteLength (ahead ++ opening ++ b.body) + 1
  opening_ends : opening.getLast? = some '{'

/-- **Where a block stands**: its keyword, its brace and its body, by its offsets. -/
theorem exists_standsIn_of_mem_blocks (hb : b ∈ blocks k s) :
    ∃ ahead opening behind, b.StandsIn s ahead opening behind := by
  rw [blocks, List.mem_filterMap] at hb
  obtain ⟨h, hmem, hbraced⟩ := hb
  obtain ⟨⟨body, behind⟩, hbody, heq⟩ := Option.map_eq_some_iff.mp hbraced
  obtain ⟨ahead, opening, hs⟩ := exists_standsIn (advances_opener k '{') hmem
  have hrest : h.rest = body ++ '}' :: behind := closing?_eq_some hbody
  have hends : opening.getLast? = some '{' := by
    obtain ⟨-, space, -, hsplit⟩ := opener_eq_some_split hs.reads
    rw [List.append_cancel_right hsplit, List.getLast?_concat]
  subst heq
  refine ⟨ahead, opening, behind, ?_, ?_, ?_, hends⟩
  · rw [hs.text_eq, hrest]
  · rw [hs.start_eq, Nat.zero_add]
  · show h.stop + byteLength body + 1 = _
    rw [hs.stop_eq, Nat.zero_add, Text.byteLength_append (ahead ++ opening)]

/-! ## Openers -/

/-- A keyword opens in a text: no word leads up to it, and only white space is between it and its
delimiter. -/
structure OpensAt (k : Text) (d : Char) (s ahead space rest : Text) : Prop where
  text_eq : s = ahead ++ (k ++ space ++ [d]) ++ rest
  before : ahead.getLast?.any Text.isWord = false
  spaces : ∀ x ∈ space, Text.isSpace x = true

/-- A keyword that opens is read. -/
theorem OpensAt.isReading {d : Char} {ahead space : Text} (hk : IsHead k d)
    (h : OpensAt k d s ahead space rest) : IsReading (opener k d) s
      ⟨byteLength ahead, byteLength (ahead ++ (k ++ space ++ [d])), (), rest⟩ := by
  refine Text.isReading_of_eq_some h.text_eq (by simp) ?_
  rw [List.append_assoc, List.singleton_append]
  exact opener_eq_some hk h.before h.spaces

theorem exists_opensAt_of_isReading {d : Char} {h : Hit Unit} (hh : IsReading (opener k d) s h) :
    ∃ ahead space, OpensAt k d s ahead space h.rest ∧ h.start = byteLength ahead ∧
      h.stop = byteLength (ahead ++ (k ++ space ++ [d])) := by
  obtain ⟨ahead, read, hs⟩ := hh
  obtain ⟨hbefore, space, hspaces, hread⟩ := opener_eq_some_split hs.reads
  have hread := List.append_cancel_right hread
  refine ⟨ahead, space, ⟨?_, by simpa [Text.ending?] using hbefore, hspaces⟩, ?_, ?_⟩
  · rw [hs.text_eq, hread]
  · rw [hs.start_eq, Nat.zero_add]
  · rw [hs.stop_eq, Nat.zero_add, hread]

/-- Openers lie apart: within a keyword and its delimiter the keyword does not begin again. -/
theorem apartIn_opener {d : Char} (hk : IsHead k d) (htail : k.tail ≠ []) :
    ApartIn (opener k d) s := by
  refine Text.apartIn_of_unread fun before read v rest hread => ?_
  obtain ⟨-, space, hspaces, hsplit⟩ := opener_eq_some_split hread
  have hlonger : ¬ k <:+ k.tail := by
    intro hsuffix
    have hle := hsuffix.length_le
    have hpos := List.length_pos_iff.mpr hk.nonempty
    rw [List.length_tail] at hle
    omega
  have heq : read.tail = k.tail ++ space ++ [d] := by
    rw [List.append_cancel_right hsplit, List.append_assoc,
      List.tail_append_of_ne_nil hk.nonempty, List.append_assoc]
  rw [heq]
  exact (opensWith_opener hk).unread_word (hk.tail htail) hlonger hspaces

/-- So a keyword that opens is found, whatever is ahead of it. -/
theorem mem_hits_opener_iff {d : Char} {h : Hit Unit} (hk : IsHead k d) (htail : k.tail ≠ []) :
    h ∈ Text.hits (opener k d) s ↔ ∃ ahead space, OpensAt k d s ahead space h.rest ∧
      h.start = byteLength ahead ∧ h.stop = byteLength (ahead ++ (k ++ space ++ [d])) := by
  rw [(apartIn_opener hk htail).mem_hits_iff (advances_opener k d)]
  refine ⟨exists_opensAt_of_isReading, ?_⟩
  intro hopens
  obtain ⟨ahead, space, hopens, hstart, hstop⟩ := hopens
  have hreading := hopens.isReading hk
  rw [← hstart, ← hstop] at hreading
  exact hreading

/-! ## Calls -/

/-- A call is its keyword and a literal in parentheses; the literal is not empty. -/
theorem call_eq_some_iff : call k before s = some (content, rest) ↔
    before.any Text.isWord = false ∧ content ≠ [] ∧ '"' ∉ content ∧
      s = k ++ "(\"".toList ++ content ++ "\")".toList ++ rest := by
  simp only [call, bind, Option.bind_eq_some_iff, pure, Option.some.injEq, Prod.mk.injEq]
  constructor
  · intro h
    obtain ⟨t, hword, w, hlead, ⟨u, v⟩, hcontent, z, hclose, hu, hz⟩ := h
    subst hu
    subst hz
    obtain ⟨hbefore, hs⟩ := Text.keyword?_eq_some_iff.mp hword
    obtain ⟨hne, hquote, hw⟩ := Text.untilQuote?_eq_some_iff.mp hcontent
    refine ⟨hbefore, hne, hquote, ?_⟩
    have hv : v = [')'] ++ z := Text.after?_eq_some.mp hclose
    rw [hs, Text.after?_eq_some.mp hlead, hw, hv]
    simp
  · intro h
    obtain ⟨hbefore, hne, hquote, hs⟩ := h
    refine ⟨"(\"".toList ++ content ++ "\")".toList ++ rest,
      Text.keyword?_eq_some_iff.mpr ⟨hbefore, by rw [hs]; simp⟩,
      content ++ "\")".toList ++ rest, Text.after?_eq_some.mpr (by simp),
      (content, ')' :: rest), Text.untilQuote?_eq_some_iff.mpr ⟨hne, hquote, by simp⟩,
      rest, Text.after?_eq_some.mpr rfl, rfl, rfl⟩

/-- A call stands in a text: its keyword, to which no word leads up, and a literal in
parentheses. -/
structure CallsAt (k s ahead content behind : Text) : Prop where
  text_eq : s = ahead ++ (k ++ "(\"".toList ++ content ++ "\")".toList) ++ behind
  before : ahead.getLast?.any Text.isWord = false
  content_ne : content ≠ []
  unquoted : '"' ∉ content

theorem advances_call (k : Text) : Advances (call k) := by
  intro before s v rest h
  obtain ⟨-, -, -, hs⟩ := call_eq_some_iff.mp h
  exact ⟨k ++ "(\"".toList ++ v ++ "\")".toList, by simp, hs⟩

theorem CallsAt.isReading {ahead behind : Text} (h : CallsAt k s ahead content behind) :
    IsReading (call k) s
      ⟨byteLength ahead, byteLength (ahead ++ (k ++ "(\"".toList ++ content ++ "\")".toList)),
        content, behind⟩ :=
  Text.isReading_of_eq_some h.text_eq (by simp)
    (call_eq_some_iff.mpr ⟨h.before, h.content_ne, h.unquoted, rfl⟩)

theorem CallsAt.ahead_prefix {ahead behind : Text} (h : CallsAt k s ahead content behind) :
    ahead <+: s := by
  rw [h.text_eq, List.append_assoc]
  exact List.prefix_append _ _

theorem exists_callsAt_of_isReading {h : Hit Text} (hh : IsReading (call k) s h) :
    ∃ ahead, CallsAt k s ahead h.value h.rest ∧ h.start = byteLength ahead := by
  obtain ⟨ahead, read, hs⟩ := hh
  obtain ⟨hbefore, hne, hquote, hread⟩ := call_eq_some_iff.mp hs.reads
  refine ⟨ahead, ⟨?_, by simpa [Text.ending?] using hbefore, hne, hquote⟩, ?_⟩
  · rw [hs.text_eq, List.append_cancel_right hread]
  · rw [hs.start_eq, Nat.zero_add]

/-- The first hit of a call is the first call that stands in a text. -/
theorem firstHit?_call_eq_some_iff : Text.firstHit? (call k) s = some content ↔
    ∃ ahead behind, CallsAt k s ahead content behind ∧
      ∀ ahead' content' behind', CallsAt k s ahead' content' behind' → ahead <+: ahead' := by
  rw [Text.firstHit?_eq_some_iff (advances_call k)]
  constructor
  · intro h
    obtain ⟨h, hreading, hvalue, hfirst⟩ := h
    obtain ⟨ahead, hcall, hstart⟩ := exists_callsAt_of_isReading hreading
    refine ⟨ahead, h.rest, hvalue ▸ hcall, ?_⟩
    intro ahead' content' behind' hcall'
    rw [Text.prefix_iff_byteLength_le hcall.ahead_prefix hcall'.ahead_prefix, ← hstart]
    exact hfirst _ hcall'.isReading
  · intro h
    obtain ⟨ahead, behind, hcall, hfirst⟩ := h
    refine ⟨_, hcall.isReading, rfl, ?_⟩
    intro h' hreading'
    obtain ⟨ahead', hcall', hstart'⟩ := exists_callsAt_of_isReading hreading'
    rw [hstart']
    exact (Text.prefix_iff_byteLength_le hcall.ahead_prefix hcall'.ahead_prefix).mp
      (hfirst _ _ _ hcall')

end Descriptor

end ModuleDocs

import ModuleDocs.Proofs.Descriptor.Search

/-!
# Where a closing delimiter is found

`closing?` splits a text of characters. The offset at which it splits can be said in bytes, without
the lexer and its modes: it is the first closing delimiter in code at which as many are closed as
have been opened. Character by character, the lexer goes on as the lexemes of the bytes do
(`map_closing?`), since the bytes in the middle of a character begin nothing and end nothing
(`closingFrom?_inside`). So a search over the bytes comes to the same offset.

> `closingOffset?_eq_some_iff`: the offset of the closing delimiter is the least that balances.

The blocks of a keyword end behind that offset (`map_span_blocks`), and so do conditional blocks
(`exists_closingOffset?_of_conditional?`). Nothing ahead of the opening delimiter has a part in it,
and nothing behind the closing one (`closingOffset?_congr`).
-/

namespace ModuleDocs

namespace Descriptor

open Text (bytes byteLength)

variable {d : Delimiters} {x : Char} {n i start : Nat} {s t : Text} {mode : Mode}

/-! ## Bytes and characters -/

/-- The offset of a delimiter, by what is passed over from offset `i` on. -/
def offsetFrom (i : Nat) (p : Text × Text) : Nat := i + byteLength p.1

theorem map_offsetFrom_passing {split : Option (Text × Text)} :
    (split.map (passing x)).map (offsetFrom i) = split.map (offsetFrom (i + x.utf8Size)) := by
  rw [Option.map_map]
  congr 1
  funext p
  exact (Nat.add_assoc i _ _).symm

/-- Bytes in which no character begins are passed over in every mode. -/
theorem closingFrom?_inside {u w : List UInt8} (hu : ∀ y ∈ u, ¬ y.IsUTF8FirstByte) :
    closingFrom? d mode n i (u ++ w) = closingFrom? d mode n (i + u.length) w := by
  induction u generalizing i with
  | nil => rfl
  | cons b u ih =>
    have hne : ∀ a : Char, a.utf8Size = 1 → b ≠ a.toUInt8 := fun a ha heq =>
      hu b List.mem_cons_self (heq ▸ Text.isUTF8FirstByte_toUInt8 ha)
    have hquote : b ≠ quote := hne '"' (by decide)
    have hslash : b ≠ slash := hne '/' (by decide)
    have hopening : b ≠ d.openingByte := hne _ d.ascii.1
    have hclosing : b ≠ d.closingByte := hne _ d.ascii.2
    have hpass : closingFrom? d mode n i (b :: (u ++ w)) =
        closingFrom? d mode n (i + 1) (u ++ w) := by
      cases mode with
      | code =>
        rw [closingFrom?_code hquote (not_prefix_of_ne hslash) (not_prefix_of_ne hslash),
          if_neg hopening, if_neg hclosing]
      | literal => exact closingFrom?_literal hquote (hne '\\' (by decide))
      | lineComment => exact closingFrom?_line (hne '\n' (by decide))
      | blockComment => exact closingFrom?_block (not_prefix_of_ne (hne '*' (by decide)))
    rw [List.cons_append, hpass, ih fun y hy => hu y (List.mem_cons_of_mem _ hy), List.length_cons,
      Nat.add_assoc, Nat.add_comm 1]

/-- A character whose first byte is passed over in a mode is passed over. -/
theorem closingFrom?_char {n' : Nat} {mode' : Mode}
    (h : ∀ b t, bytes (x :: s) = b :: t → (∀ a : Char, a.utf8Size = 1 → (b = a.toUInt8 ↔ x = a)) →
      closingFrom? d mode n i (b :: t) = closingFrom? d mode' n' (i + 1) t) :
    closingFrom? d mode n i (bytes (x :: s)) =
      closingFrom? d mode' n' (i + x.utf8Size) (bytes s) := by
  obtain ⟨b, u, hsize, hbytes, hinside, htold⟩ := Text.exists_bytes_cons x
  rw [hbytes, h b _ (hbytes s) htold, closingFrom?_inside hinside, hsize, Nat.add_assoc,
    Nat.add_comm 1]

theorem closingFrom?_escape_char :
    closingFrom? d .literal n i (bytes ('\\' :: x :: s)) =
      closingFrom? d .literal n (i + 1 + x.utf8Size) (bytes s) := by
  obtain ⟨b, u, hsize, hbytes, hinside, -⟩ := Text.exists_bytes_cons x
  rw [Text.bytes_cons_ascii (by decide), hbytes]
  refine closingFrom?_literal_escape.trans ?_
  rw [closingFrom?_inside hinside, hsize]
  congr 1
  omega

theorem closingFrom?_literal_char (hslash : x ≠ '\\') :
    closingFrom? d .literal n i (bytes (x :: s)) =
      closingFrom? d (if x = '"' then .code else .literal) n (i + x.utf8Size) (bytes s) := by
  refine closingFrom?_char fun b t _ htold => ?_
  split
  · next hquote =>
    rw [(htold '"' (by decide)).mpr hquote]
    exact closingFrom?_literal_quote
  · next hquote =>
    exact closingFrom?_literal (mt (htold '"' (by decide)).mp hquote)
      (mt (htold '\\' (by decide)).mp hslash)

theorem closingFrom?_line_char :
    closingFrom? d .lineComment n i (bytes (x :: s)) =
      closingFrom? d (if x = '\n' then .code else .lineComment) n (i + x.utf8Size) (bytes s) := by
  refine closingFrom?_char fun b t _ htold => ?_
  split
  · next hbreak =>
    rw [(htold '\n' (by decide)).mpr hbreak]
    exact closingFrom?_line_newline
  · next hbreak => exact closingFrom?_line (mt (htold '\n' (by decide)).mp hbreak)

theorem closingFrom?_block_char (hend : ¬ ['*', '/'] <+: x :: s) :
    closingFrom? d .blockComment n i (bytes (x :: s)) =
      closingFrom? d .blockComment n (i + x.utf8Size) (bytes s) := by
  refine closingFrom?_char fun b t hbytes _ => closingFrom?_block ?_
  have hneedle : bytes ['*', '/'] = [star, slash] := by decide
  rwa [← hneedle, ← hbytes, Text.bytes_prefix_iff]

theorem closingFrom?_code_char (hquote : x ≠ '"') (hline : ¬ ['/', '/'] <+: x :: s)
    (hblock : ¬ ['/', '*'] <+: x :: s) :
    closingFrom? d .code n i (bytes (x :: s)) =
      if x = d.opening then closingFrom? d .code (n + 1) (i + x.utf8Size) (bytes s)
      else if x = d.closing then
        match n with
        | 0 => some i
        | n + 1 => closingFrom? d .code n (i + x.utf8Size) (bytes s)
      else closingFrom? d .code n (i + x.utf8Size) (bytes s) := by
  obtain ⟨b, u, hsize, hbytes, hinside, htold⟩ := Text.exists_bytes_cons x
  have hopening : b = d.openingByte ↔ x = d.opening := htold _ d.ascii.1
  have hclosing : b = d.closingByte ↔ x = d.closing := htold _ d.ascii.2
  have hslashes : bytes ['/', '/'] = [slash, slash] := by decide
  have hstar : bytes ['/', '*'] = [slash, star] := by decide
  rw [← Text.bytes_prefix_iff, hslashes, hbytes] at hline
  rw [← Text.bytes_prefix_iff, hstar, hbytes] at hblock
  have hrest : ∀ n, closingFrom? d .code n (i + 1) (u ++ bytes s) =
      closingFrom? d .code n (i + x.utf8Size) (bytes s) := fun n => by
    rw [closingFrom?_inside hinside, hsize, Nat.add_assoc, Nat.add_comm 1]
  rw [hbytes, closingFrom?_code (mt (htold '"' (by decide)).mp hquote) hline hblock]
  cases n with
  | zero => simp only [hopening, hclosing, hrest]
  | succ n => simp only [hopening, hclosing, hrest]

/-- **The lexer of characters and the lexemes of the bytes** find the same delimiter. -/
theorem map_closing? (d : Delimiters) (mode : Mode) (n i : Nat) (s : Text) :
    (closing? d.opening d.closing mode n s).map (offsetFrom i) =
      closingFrom? d mode n i (bytes s) := by
  fun_induction closing? d.opening d.closing mode n s generalizing i with
  | case1 => exact closingFrom?_nil.symm
  | case2 n x r ih =>
    rw [← Option.map_map, map_offsetFrom_passing, map_offsetFrom_passing, ih,
      closingFrom?_escape_char]
    rfl
  | case3 n x r hescape ih =>
    rw [map_offsetFrom_passing, ih]
    by_cases hslash : x = '\\'
    -- a backslash that escapes nothing is the last character
    · cases r with
      | nil =>
        rw [hslash]
        exact closingFrom?_nil.trans closingFrom?_literal_backslash.symm
      | cons y r => exact absurd rfl (hescape y r hslash)
    · exact (closingFrom?_literal_char hslash).symm
  | case4 n x r ih => rw [map_offsetFrom_passing, ih, closingFrom?_line_char]
  | case5 n r ih =>
    rw [← Option.map_map, map_offsetFrom_passing, map_offsetFrom_passing, ih,
      Text.bytes_cons_ascii (by decide), Text.bytes_cons_ascii (by decide)]
    exact closingFrom?_block_end.symm
  | case6 n x r hend ih =>
    rw [map_offsetFrom_passing, ih, closingFrom?_block_char (not_pair_prefix_iff.mpr hend)]
  | case7 n r ih =>
    rw [map_offsetFrom_passing, ih, Text.bytes_cons_ascii (by decide)]
    exact closingFrom?_code_quote.symm
  | case8 n r ih =>
    rw [← Option.map_map, map_offsetFrom_passing, map_offsetFrom_passing, ih,
      Text.bytes_cons_ascii (by decide), Text.bytes_cons_ascii (by decide)]
    exact closingFrom?_code_line.symm
  | case9 n r ih =>
    rw [← Option.map_map, map_offsetFrom_passing, map_offsetFrom_passing, ih,
      Text.bytes_cons_ascii (by decide), Text.bytes_cons_ascii (by decide)]
    exact closingFrom?_code_block.symm
  | case10 n r hquote hline hblock ih =>
    rw [map_offsetFrom_passing, ih, closingFrom?_code_char hquote
      (not_pair_prefix_iff.mpr hline) (not_pair_prefix_iff.mpr hblock), if_pos rfl]
  | case11 r hquote hline hblock hopen =>
    rw [closingFrom?_code_char hquote
      (not_pair_prefix_iff.mpr hline) (not_pair_prefix_iff.mpr hblock), if_neg hopen, if_pos rfl]
    rfl
  | case12 r n hquote hline hblock hopen ih =>
    rw [map_offsetFrom_passing, ih, closingFrom?_code_char hquote
      (not_pair_prefix_iff.mpr hline) (not_pair_prefix_iff.mpr hblock), if_neg hopen, if_pos rfl]
  | case13 n x r hquote hline hblock hopen hclose ih =>
    rw [map_offsetFrom_passing, ih, closingFrom?_code_char hquote
      (not_pair_prefix_iff.mpr hline) (not_pair_prefix_iff.mpr hblock), if_neg hopen, if_neg hclose]

/-! ## The offset of the closing delimiter -/

namespace Delimiters

/-- Splits a text at the delimiter that closes the one ahead of it. -/
def split? (d : Delimiters) (s : Text) : Option (Text × Text) :=
  closing? d.opening d.closing .code 0 s

theorem split?_braces : braces.split? = braced? := rfl

theorem split?_parentheses : parentheses.split? = parenthesised? := rfl

end Delimiters

/-- The offset of the delimiter that closes the one at an offset. -/
def closingOffset? (d : Delimiters) (s : Text) (start : Nat) : Option Nat := do
  let rest ← Text.dropBytes? (start + 1) s
  (d.split? rest).map (offsetFrom (start + 1))

theorem closingOffset?_append (d : Delimiters) (ahead rest : Text) :
    closingOffset? d (ahead ++ d.opening :: rest) (byteLength ahead) =
      (d.split? rest).map (offsetFrom (byteLength ahead + 1)) := by
  have hdrop := Text.dropBytes?_append (ahead ++ [d.opening]) rest
  rw [Text.byteLength_append, Text.byteLength_cons, d.ascii.1, Text.byteLength_nil,
    List.append_assoc, List.singleton_append] at hdrop
  rw [closingOffset?, hdrop]
  rfl

/-- In bytes, it is looked for in the code behind the opening delimiter. -/
theorem exists_closingOffset?_eq (h : (bytes s)[start]? = some d.openingByte) :
    ∃ t, (bytes s).drop start = d.openingByte :: t ∧
      closingOffset? d s start = closingFrom? d .code 0 (start + 1) t := by
  obtain ⟨ahead, rest, rfl, rfl⟩ := Text.exists_split_of_getElem? d.ascii.1 h
  refine ⟨bytes rest, ?_,
    (closingOffset?_append d ahead rest).trans (map_closing? d .code 0 _ rest)⟩
  rw [Text.bytes_append, Text.bytes_cons_ascii d.ascii.1, ← Text.length_bytes, List.drop_left]
  rfl

theorem closingOffset?_eq_some_iff (h : (bytes s)[start]? = some d.openingByte) :
    closingOffset? d s start = some i ↔
      IsLeast {j | Balances d 0 (codeBytes (bytes s) start) j} i := by
  obtain ⟨t, ht, hclosing⟩ := exists_closingOffset?_eq h
  simp only [balances_codeBytes_iff ht]
  rw [hclosing]
  exact closingIn?_eq_some_iff (pairwise_codeFrom _ _)

theorem closingOffset?_eq_none_iff (h : (bytes s)[start]? = some d.openingByte) :
    closingOffset? d s start = none ↔ ∀ i, ¬ Balances d 0 (codeBytes (bytes s) start) i := by
  obtain ⟨t, ht, hclosing⟩ := exists_closingOffset?_eq h
  simp only [balances_codeBytes_iff ht]
  rw [hclosing]
  exact closingIn?_eq_none_iff (pairwise_codeFrom _ _)

/-- The search over the bytes comes to the same offset. -/
theorem search_bytes (h : (bytes s)[start]? = some d.openingByte) :
    search d (bytes s) start = .ofOffset (closingOffset? d s start) := by
  obtain ⟨t, ht, hclosing⟩ := exists_closingOffset?_eq h
  rw [hclosing, search_eq ht]

/-- What a closing delimiter encloses. -/
theorem exists_enclosed (h : (bytes s)[start]? = some d.openingByte)
    (hi : closingOffset? d s start = some i) : ∃ ahead body behind,
      s = ahead ++ d.opening :: (body ++ d.closing :: behind) ∧
        Nested d.opening d.closing body ∧ start = byteLength ahead ∧
        i = start + 1 + byteLength body := by
  obtain ⟨ahead, rest, rfl, rfl⟩ := Text.exists_split_of_getElem? d.ascii.1 h
  rw [closingOffset?_append, Option.map_eq_some_iff] at hi
  obtain ⟨⟨body, behind⟩, hsplit, rfl⟩ := hi
  obtain ⟨rfl, hbody⟩ := (closing?_eq_some_iff d.delimits).mp hsplit
  exact ⟨ahead, body, behind, rfl, hbody, rfl, rfl⟩

theorem getElem?_behind (d : Delimiters) (ahead rest : Text) (j : Nat) :
    (bytes (ahead ++ d.opening :: rest))[byteLength ahead + 1 + j]? = (bytes rest)[j]? := by
  rw [Text.bytes_append, Text.bytes_cons_ascii d.ascii.1, List.append_cons,
    List.getElem?_append_right (by simp)]
  congr 1
  simp

/-- Whether a delimiter closes somewhere is settled by the bytes up to there. -/
theorem closingOffset?_congr (h : (bytes s)[start]? = some d.openingByte)
    (hi : closingOffset? d s start = some i)
    (hagree : ∀ j, start ≤ j → j ≤ i → (bytes t)[j]? = (bytes s)[j]?) :
    closingOffset? d t start = some i := by
  obtain ⟨ahead, body, behind, hs, hbody, hstart, hstop⟩ := exists_enclosed h hi
  have hopening : (bytes t)[start]? = some d.openingByte := by
    rw [hagree start (Nat.le_refl start) (by omega), h]
  -- what is ahead may be other characters, but it is as many bytes
  obtain ⟨ahead', rest, rfl, hahead⟩ := Text.exists_split_of_getElem? d.ascii.1 hopening
  have hrest : bytes (body ++ [d.closing]) <+: bytes rest := by
    refine List.prefix_iff_getElem?.mpr fun j hj => ?_
    have hlen : j < byteLength body + 1 := by
      rwa [Text.length_bytes, Text.byteLength_append, Text.byteLength_cons, d.ascii.2,
        Text.byteLength_nil] at hj
    rw [← getElem?_behind d ahead', hahead, hagree _ (by omega) (by omega), hs, hstart,
      getElem?_behind, List.append_cons, Text.bytes_append, List.getElem?_append_left hj,
      List.getElem?_eq_getElem hj]
  obtain ⟨behind', rfl⟩ := Text.bytes_prefix_iff.mp hrest
  have hsplit : d.split? (body ++ [d.closing] ++ behind') = some (body, behind') :=
    (closing?_eq_some_iff d.delimits).mpr ⟨by simp, hbody⟩
  rw [← hahead, closingOffset?_append, hsplit, hstop, ← hahead]
  rfl

/-- What is read behind an opener stands behind its delimiter. -/
theorem exists_split_of_mem_hits {k : Text} {h : Hit Unit}
    (hmem : h ∈ Text.hits (opener k d.opening) s) :
    ∃ ahead, s = ahead ++ d.opening :: h.rest ∧ h.stop = byteLength ahead + 1 := by
  obtain ⟨ahead, read, hs⟩ := Text.exists_standsIn (advances_opener k d.opening) hmem
  obtain ⟨-, space, -, hsplit⟩ := opener_eq_some_split hs.reads
  have hread := List.append_cancel_right hsplit
  refine ⟨ahead ++ (k ++ space), ?_, ?_⟩
  · rw [hs.text_eq, hread]
    simp
  · rw [hs.stop_eq, hread, Nat.zero_add, ← List.append_assoc, Text.byteLength_append _ [d.opening],
      Text.byteLength_cons, d.ascii.1, Text.byteLength_nil]

theorem closingOffset?_of_mem_hits {k : Text} {h : Hit Unit}
    (hmem : h ∈ Text.hits (opener k d.opening) s) :
    closingOffset? d s (h.stop - 1) = (d.split? h.rest).map (offsetFrom h.stop) := by
  obtain ⟨ahead, rfl, hstop⟩ := exists_split_of_mem_hits hmem
  rw [hstop, Nat.add_sub_cancel, closingOffset?_append]

/-- The blocks of a keyword are its openers whose brace is closed, and they end behind that. -/
theorem map_span_blocks (k s : Text) : (blocks k s).map (fun b => (b.start, b.stop)) =
    (Text.hits (opener k '\x7b') s).filterMap fun h =>
      (closingOffset? .braces s (h.stop - 1)).map fun close => (h.start, close + 1) := by
  rw [blocks, List.map_filterMap]
  refine List.filterMap_congr fun h hmem => ?_
  have hclose : closingOffset? .braces s (h.stop - 1) = _ := closingOffset?_of_mem_hits hmem
  rw [hclose, Delimiters.split?_braces, Option.map_map, Option.map_map]
  rfl

/-- A conditional block ends behind the brace that closes the one behind its condition. -/
theorem exists_closingOffset?_of_conditional? {h : Hit Unit} {r : Nat × Nat}
    (hmem : h ∈ Text.hits (opener "if".toList '(') s) (hr : Exclusions.conditional? h = some r) :
    ∃ close brace last, closingOffset? .parentheses s (h.stop - 1) = some close ∧ close < brace ∧
      closingOffset? .braces s brace = some last ∧ r = (h.start, last + 1) := by
  have hclose : closingOffset? .parentheses s (h.stop - 1) = _ := closingOffset?_of_mem_hits hmem
  obtain ⟨ahead, hs, hstop⟩ := exists_split_of_mem_hits (d := .parentheses) hmem
  simp only [Exclusions.conditional?, bind, Option.bind_eq_some_iff, pure, Option.some.injEq] at hr
  obtain ⟨⟨condition, rest⟩, hcondition, t, hbrace, ⟨body, behind⟩, hbody, rfl⟩ := hr
  have hafter : rest.trimStart = '\x7b' :: t := Text.after?_eq_some.mp hbrace
  obtain ⟨-, gap, -, hgap⟩ := Text.trimStart_eq_cons_iff.mp hafter
  have hrest : h.rest = condition ++ ')' :: rest := closing?_eq_some hcondition
  have hsplit : s = (ahead ++ '(' :: (condition ++ ')' :: gap)) ++ '\x7b' :: t := by
    rw [hs, hrest, hgap]
    simp [Delimiters.parentheses]
  have hlast := closingOffset?_append .braces (ahead ++ '(' :: (condition ++ ')' :: gap)) t
  rw [Delimiters.split?_parentheses, hcondition] at hclose
  rw [Delimiters.split?_braces, hbody] at hlast
  have hsize : Char.utf8Size '(' = 1 ∧ Char.utf8Size ')' = 1 ∧ Char.utf8Size '\x7b' = 1 := by decide
  refine ⟨_, _, _, hclose, ?_, hsplit ▸ hlast, ?_⟩
  · simp only [offsetFrom, hstop, Text.byteLength_append, Text.byteLength_cons, hsize]
    omega
  · rw [hafter, hgap]
    simp only [offsetFrom, hstop, Text.byteLength_append, Text.byteLength_cons, hsize,
      Prod.mk.injEq, true_and]
    omega

/-- **Where a delimiter closes, in bytes**: at the first closing byte of code at which as much is
closed as has been opened, from the opening one on; and nowhere if there is none. The search over
the bytes comes to just that: it never closes what is not open, and never asks for a part of the
text behind its end. What is found is settled by the bytes up to there. -/
theorem closingOffset?_first_balance (d : Delimiters) (s : Text) (start : Nat)
    (hopen : (bytes s)[start]? = some d.openingByte) :
    (∀ i, closingOffset? d s start = some i ↔
      IsLeast {j | Balances d 0 (codeBytes (bytes s) start) j} i) ∧
    (closingOffset? d s start = none ↔ ∀ i, ¬ Balances d 0 (codeBytes (bytes s) start) i) ∧
    search d (bytes s) start = .ofOffset (closingOffset? d s start) ∧
    search d (bytes s) start ≠ .unopened ∧
    search d (bytes s) start ≠ .beyond ∧
    ∀ i, closingOffset? d s start = some i → start < i ∧ (bytes s)[i]? = some d.closingByte ∧
      ∀ t : Text, (∀ j, start ≤ j → j ≤ i → (bytes t)[j]? = (bytes s)[j]?) →
        closingOffset? d t start = some i := by
  refine ⟨fun i => closingOffset?_eq_some_iff hopen, closingOffset?_eq_none_iff hopen,
    search_bytes hopen, ?_, ?_, fun i hi => ⟨?_, ?_, fun t ht => closingOffset?_congr hopen hi ht⟩⟩
  · rw [search_bytes hopen]
    exact Ending.ofOffset_ne_unopened _
  · rw [search_bytes hopen]
    exact Ending.ofOffset_ne_beyond _
  · obtain ⟨ahead, body, behind, -, -, -, hstop⟩ := exists_enclosed hopen hi
    omega
  · exact getElem?_of_mem_codeBytes ((closingOffset?_eq_some_iff hopen).mp hi).1.closes

namespace Sample

/-- A block with a brace in a literal, behind the start of a comment and on a commented line. -/
def tangled : Text := "é\x7b \"ß\x7d\\\"\" /*/ \x7d */ // \x7d\n\x7d".toList

end Sample

theorem closingOffset?_first_balance_sample :
    (bytes Sample.tangled)[2]? = some Delimiters.braces.openingByte ∧
    closingOffset? .braces Sample.tangled 2 = some 26 ∧
    IsLeast {j | Balances .braces 0 (codeBytes (bytes Sample.tangled) 2) j} 26 ∧
    search .braces (bytes Sample.tangled) 2 = .found 26 ∧
    ∀ t : Text, (∀ j, 2 ≤ j → j ≤ 26 → (bytes t)[j]? = (bytes Sample.tangled)[j]?) →
      closingOffset? .braces t 2 = some 26 := by
  have hopen : (bytes Sample.tangled)[2]? = some Delimiters.braces.openingByte := by decide +kernel
  have hclose : closingOffset? .braces Sample.tangled 2 = some 26 := by decide +kernel
  obtain ⟨hleast, -, hsearch, -, -, hrest⟩ :=
    closingOffset?_first_balance .braces Sample.tangled 2 hopen
  refine ⟨hopen, hclose, (hleast 26).mp hclose, ?_, (hrest 26 hclose).2.2⟩
  rw [hsearch, hclose]
  rfl

end Descriptor

end ModuleDocs

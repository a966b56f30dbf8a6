import ModuleDocs.Proofs.Text.Search
import ModuleDocs.Text.Utf8

/-!
# Searching the bytes of a text

A text is searched as the bytes of its UTF-8 encoding, and what is found is a byte offset. A
byte in the middle of a character never begins another one, so an occurrence of a needle among
the bytes cannot start inside a character: the search passes over the rest of a character
(`firstOffset?_inside`), and what it finds is what `cut?` finds among the characters.

> `firstOffset?_bytes`: the first occurrence among the bytes is behind the bytes of what a cut
> puts before the needle.

So every offset that comes from such a search is the length of a beginning of the text, which is
what it takes to cut the text there (`isValid_byteLength`).
-/

namespace ModuleDocs

namespace Text

/-- The bytes of a text. -/
def bytes (s : Text) : List UInt8 := s.flatMap String.utf8EncodeChar

/-- The offset of the first occurrence of a needle in a list of bytes. -/
def firstOffset? (needle : List UInt8) : List UInt8 → Option Nat
  | [] => if needle.isEmpty then some 0 else none
  | b :: r =>
    if needle.isPrefixOf (b :: r) then some 0 else (firstOffset? needle r).map (· + 1)

variable {needle s t : Text} {n u w : List UInt8} {c a : Char} {i : Nat}

/-! ## Bytes -/

@[simp] theorem bytes_nil : bytes [] = [] := rfl

@[simp] theorem bytes_cons : bytes (c :: s) = String.utf8EncodeChar c ++ bytes s := rfl

@[simp] theorem bytes_append : bytes (s ++ t) = bytes s ++ bytes t := List.flatMap_append

@[simp] theorem length_bytes (s : Text) : (bytes s).length = byteLength s := by
  induction s with
  | nil => rfl
  | cons c s ih => rw [bytes_cons, List.length_append, String.length_utf8EncodeChar, ih]; rfl

/-- A text is told by its bytes from what it begins with. -/
theorem bytes_prefix_iff : bytes s <+: bytes t ↔ s <+: t := by
  constructor
  · intro h
    obtain ⟨u, hu⟩ := h
    refine List.isPrefix_of_utf8Encode_append_eq_utf8Encode u.toByteArray ?_
    show (bytes s).toByteArray ++ u.toByteArray = (bytes t).toByteArray
    rw [← List.toByteArray_append, hu]
  · intro h
    obtain ⟨u, rfl⟩ := h
    exact ⟨bytes u, bytes_append.symm⟩

/-- The bytes of a text begin with one that begins a character. -/
theorem exists_bytes_eq_cons (hn : needle ≠ []) :
    ∃ b r, bytes needle = b :: r ∧ b.IsUTF8FirstByte := by
  obtain ⟨c, s, rfl⟩ := List.exists_cons_of_ne_nil hn
  obtain ⟨b, r, hb⟩ := List.exists_cons_of_ne_nil (String.utf8EncodeChar_ne_nil (c := c))
  refine ⟨b, r ++ bytes s, by rw [bytes_cons, hb, List.cons_append], ?_⟩
  have hfirst := UInt8.isUTF8FirstByte_getElem_zero_utf8EncodeChar (c := c)
  simpa [hb] using hfirst

/-- No other byte of a character begins one. -/
theorem not_isUTF8FirstByte_of_mem_tail {b : UInt8}
    (h : b ∈ (String.utf8EncodeChar c).tail) : ¬ b.IsUTF8FirstByte := by
  obtain ⟨i, hi, rfl⟩ := List.mem_iff_getElem.mp h
  rw [List.getElem_tail, UInt8.isUTF8FirstByte_getElem_utf8EncodeChar]
  omega

/-! ## Characters of one byte -/

theorem bytes_cons_ascii (ha : a.utf8Size = 1) : bytes (a :: s) = a.toUInt8 :: bytes s := by
  rw [bytes_cons, String.utf8EncodeChar_eq_singleton ha]
  rfl

theorem isUTF8FirstByte_toUInt8 (ha : a.utf8Size = 1) : a.toUInt8.IsUTF8FirstByte := by
  have hfirst := UInt8.isUTF8FirstByte_getElem_zero_utf8EncodeChar (c := a)
  simpa [String.utf8EncodeChar_eq_singleton ha] using hfirst

/-- A character is its first byte, by which those of one byte are told, and bytes that begin no
character. -/
theorem exists_bytes_cons (c : Char) : ∃ b u, c.utf8Size = u.length + 1 ∧
    (∀ s, bytes (c :: s) = b :: (u ++ bytes s)) ∧ (∀ y ∈ u, ¬ y.IsUTF8FirstByte) ∧
    ∀ a : Char, a.utf8Size = 1 → (b = a.toUInt8 ↔ c = a) := by
  obtain ⟨b, u, hb⟩ := List.exists_cons_of_ne_nil (String.utf8EncodeChar_ne_nil (c := c))
  have hsize := String.length_utf8EncodeChar c
  rw [hb, List.length_cons] at hsize
  have hbytes : ∀ s, bytes (c :: s) = b :: (u ++ bytes s) := fun s => by
    rw [bytes_cons, hb, List.cons_append]
  refine ⟨b, u, hsize.symm, hbytes, fun y hy => ?_, fun a ha => ⟨fun heq => ?_, fun heq => ?_⟩⟩
  · exact not_isUTF8FirstByte_of_mem_tail (c := c) (by rwa [hb])
  · have hprefix : bytes [a] <+: bytes [c] := by
      rw [bytes_cons_ascii ha, hbytes, heq]
      exact (List.prefix_cons_inj _).mpr List.nil_prefix
    exact (List.cons_prefix_cons.mp (bytes_prefix_iff.mp hprefix)).1.symm
  · rw [heq, String.utf8EncodeChar_eq_singleton ha] at hb
    exact (List.cons.inj hb).1.symm

theorem toUInt8_inj (ha : a.utf8Size = 1) (hc : c.utf8Size = 1) :
    a.toUInt8 = c.toUInt8 ↔ a = c := by
  obtain ⟨b, u, -, -, -, htold⟩ := exists_bytes_cons a
  rw [← (htold a ha).mpr rfl]
  exact htold c hc

/-- Where a byte of a text is a character of one byte, that character stands. -/
theorem exists_split_of_getElem? (ha : a.utf8Size = 1) (h : (bytes s)[i]? = some a.toUInt8) :
    ∃ ahead rest, s = ahead ++ a :: rest ∧ byteLength ahead = i := by
  induction s generalizing i with
  | nil => simp at h
  | cons c s ih =>
    obtain ⟨b, u, hsize, hbytes, hinside, htold⟩ := exists_bytes_cons c
    rw [hbytes] at h
    cases i with
    | zero =>
      rw [List.getElem?_cons_zero, Option.some.injEq, htold a ha] at h
      exact ⟨[], s, by rw [h]; rfl, rfl⟩
    | succ i =>
      rw [List.getElem?_cons_succ] at h
      by_cases hi : i < u.length
      · rw [List.getElem?_append_left hi] at h
        exact absurd (isUTF8FirstByte_toUInt8 ha) (hinside _ (List.mem_of_getElem? h))
      · rw [List.getElem?_append_right (Nat.le_of_not_lt hi)] at h
        obtain ⟨ahead, rest, rfl, hlen⟩ := ih h
        refine ⟨c :: ahead, rest, rfl, ?_⟩
        rw [byteLength_cons, hlen]
        omega

/-! ## The search -/

theorem firstOffset?_cons_of_begins {b : UInt8} (h : n <+: b :: w) :
    firstOffset? n (b :: w) = some 0 := by
  rw [firstOffset?, if_pos (List.isPrefixOf_iff_prefix.mpr h)]

theorem firstOffset?_cons_of_not_begins {b : UInt8} (h : ¬ n <+: b :: w) :
    firstOffset? n (b :: w) = (firstOffset? n w).map (· + 1) := by
  rw [firstOffset?, if_neg (mt List.isPrefixOf_iff_prefix.mp h)]

/-- Bytes that the needle does not begin with are passed over. -/
theorem firstOffset?_append_of_ne (h : ∀ b ∈ u, n.head? ≠ some b) (hn : n ≠ []) :
    firstOffset? n (u ++ w) = (firstOffset? n w).map (u.length + ·) := by
  induction u with
  | nil => simp
  | cons b u ih =>
    have hprefix : ¬ n <+: b :: (u ++ w) := by
      obtain ⟨x, n, rfl⟩ := List.exists_cons_of_ne_nil hn
      have hx := h b List.mem_cons_self
      rw [List.head?_cons, ne_eq, Option.some.injEq] at hx
      exact fun hprefix => hx (List.cons_prefix_cons.mp hprefix).1
    rw [List.cons_append, firstOffset?_cons_of_not_begins hprefix,
      ih fun x hx => h x (List.mem_cons_of_mem _ hx), Option.map_map]
    congr 1
    funext k
    simp only [Function.comp_apply, List.length_cons]
    omega

/-- Where no needle begins, the search passes over the whole character. -/
theorem firstOffset?_inside (hn : needle ≠ []) (h : ¬ needle <+: c :: s) :
    firstOffset? (bytes needle) (bytes (c :: s)) =
      (firstOffset? (bytes needle) (bytes s)).map (c.utf8Size + ·) := by
  obtain ⟨x, n, hx, hfirst⟩ := exists_bytes_eq_cons hn
  have hprefix : ¬ bytes needle <+: bytes (c :: s) := by rwa [bytes_prefix_iff]
  have hsize := String.length_utf8EncodeChar c
  have htail : ∀ b ∈ (String.utf8EncodeChar c).tail, (bytes needle).head? ≠ some b := by
    intro b hb heq
    rw [hx, List.head?_cons, Option.some.injEq] at heq
    exact not_isUTF8FirstByte_of_mem_tail hb (heq ▸ hfirst)
  obtain ⟨b, r, hb⟩ := List.exists_cons_of_ne_nil (String.utf8EncodeChar_ne_nil (c := c))
  rw [bytes_cons, hb, List.cons_append] at hprefix ⊢
  rw [hb, List.tail_cons] at htail
  rw [hb, List.length_cons] at hsize
  rw [firstOffset?_cons_of_not_begins hprefix,
    firstOffset?_append_of_ne htail (by rw [hx]; simp), Option.map_map, ← hsize]
  congr 1
  funext k
  simp only [Function.comp_apply]
  omega

/-- **The first occurrence among the bytes** is the one that a cut finds. -/
theorem firstOffset?_bytes (hn : needle ≠ []) :
    firstOffset? (bytes needle) (bytes s) = (cut? needle s).map fun p => byteLength p.1 := by
  induction s with
  | nil =>
    obtain ⟨x, n, hx, -⟩ := exists_bytes_eq_cons hn
    simp [cut?, firstOffset?, hx, hn]
  | cons c s ih =>
    rw [cut?]
    cases ha : after? needle (c :: s) with
    | some rest =>
      have hp : needle <+: c :: s := ⟨rest, (after?_eq_some.mp ha).symm⟩
      have hb := bytes_prefix_iff.mpr hp
      obtain ⟨b, r, hs, -⟩ := exists_bytes_eq_cons (List.cons_ne_nil c s)
      rw [hs] at hb ⊢
      rw [firstOffset?_cons_of_begins hb]
      rfl
    | none =>
      have hp : ¬ needle <+: c :: s := by
        rw [← after?_isSome_iff, ha]
        simp
      rw [firstOffset?_inside hn hp, ih, Option.map_map, Option.map_map]
      rfl

/-! ## Boundaries -/

/-- What is left of a text behind a number of bytes, if they are whole characters. -/
def dropBytes? : Nat → Text → Option Text
  | 0, s => some s
  | _ + 1, [] => none
  | n + 1, c :: s => if c.utf8Size ≤ n + 1 then dropBytes? (n + 1 - c.utf8Size) s else none

theorem dropBytes?_append (s t : Text) : dropBytes? (byteLength s) (s ++ t) = some t := by
  induction s with
  | nil => cases t <;> rfl
  | cons c s ih =>
    have hpos := c.utf8Size_pos
    obtain ⟨n, hn⟩ : ∃ n, byteLength (c :: s) = n + 1 :=
      Nat.exists_eq_add_one.mpr (by rw [byteLength_cons]; omega)
    have hle : n + 1 - c.utf8Size = byteLength s := by rw [← hn, byteLength_cons]; omega
    rw [hn, List.cons_append, dropBytes?, if_pos (by rw [← hn, byteLength_cons]; omega), hle, ih]

/-- The length of a beginning of a text is a place where the text can be cut. -/
theorem isValid_byteLength (h : s <+: t) :
    String.Pos.Raw.IsValid (String.ofList t) ⟨byteLength s⟩ := by
  obtain ⟨u, rfl⟩ := h
  refine String.Pos.Raw.isValid_iff_exists_append.mpr
    ⟨String.ofList s, String.ofList u, String.ofList_append, ?_⟩
  have hsize : (String.ofList s).utf8ByteSize = byteLength s := by
    rw [← String.size_toByteArray, String.toByteArray_ofList, ← length_bytes]
    exact List.size_toByteArray
  rw [← hsize]
  rfl

end Text

end ModuleDocs

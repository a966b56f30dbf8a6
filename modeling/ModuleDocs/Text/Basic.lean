/-!
# Text as a list of characters

Everything the library reads and writes — descriptors, sources, documents,
paths — is a list of characters, so that a scanner is a recursion on its
input and a statement about it is a statement about `++`. Offsets that leave
the library count bytes of the UTF-8 encoding (`byteLength`); the order of
lists of characters is the order of those encodings.

The four searches a reader of documents needs are here, each with the law that
pins it down: `cut?` splits at the leftmost occurrence of a needle
(`cut?_eq_some`), `splitFirst?` at the leftmost separator, `replaceAll`
substitutes non-overlapping occurrences from the left, and `trim` removes white
space at both ends.
-/

namespace ModuleDocs

/-- A text is the list of its characters. -/
abbrev Text := List Char

instance : Coe String Text := ⟨String.toList⟩

namespace Text

/-- Number of bytes of the UTF-8 encoding. -/
def byteLength (s : Text) : Nat := s.foldr (fun c n => c.utf8Size + n) 0

@[simp] theorem byteLength_nil : byteLength [] = 0 := rfl

@[simp] theorem byteLength_cons (c : Char) (s : Text) :
    byteLength (c :: s) = c.utf8Size + byteLength s := rfl

@[simp] theorem byteLength_append (s t : Text) :
    byteLength (s ++ t) = byteLength s + byteLength t := by
  induction s with
  | nil => simp
  | cons c s ih => simp [ih, Nat.add_assoc]

/-- The decimal digits of a number. -/
def ofNat (n : Nat) : Text := Nat.toDigits 10 n

/-! ## White space -/

/-- The characters of the Unicode property `White_Space`. -/
def isSpace (c : Char) : Bool :=
  let n := c.toNat
  (9 ≤ n && n ≤ 13) || n == 32 || n == 0x85 || n == 0xA0 || n == 0x1680 ||
  (0x2000 ≤ n && n ≤ 0x200A) || n == 0x2028 || n == 0x2029 || n == 0x202F ||
  n == 0x205F || n == 0x3000

/-- Drops leading white space. -/
def trimStart (s : Text) : Text := s.dropWhile isSpace

/-- Drops trailing white space. -/
def trimEnd (s : Text) : Text := (s.reverse.dropWhile isSpace).reverse

/-- Drops white space at both ends. -/
def trim (s : Text) : Text := trimEnd (trimStart s)

/-- Nothing but white space. -/
def isBlank (s : Text) : Bool := s.all isSpace

/-! ## Searching -/

/-- The text after `lead`, if the text begins with it. -/
def after? (lead s : Text) : Option Text := lead.isPrefixOf? s

/-- `after?` answers exactly the decompositions `lead ++ rest`. -/
theorem after?_eq_some {lead s rest : Text} :
    after? lead s = some rest ↔ s = lead ++ rest := by
  unfold after?
  induction lead generalizing s with
  | nil =>
    show some s = some rest ↔ s = rest
    simp
  | cons c lead ih =>
    cases s with
    | nil =>
      show none = some rest ↔ [] = c :: (lead ++ rest)
      simp
    | cons d s =>
      show (if c == d then lead.isPrefixOf? s else none) = some rest ↔
        d :: s = c :: (lead ++ rest)
      by_cases h : c = d
      · simp [h, ih]
      · simp [h, Ne.symm h]

/-- The text before `tail`, if the text ends with it. -/
def before? (tail s : Text) : Option Text := tail.isSuffixOf? s

/-- The texts before and after the leftmost occurrence of `needle`. -/
def cut? (needle : Text) : Text → Option (Text × Text)
  | [] => if needle.isEmpty then some ([], []) else none
  | c :: r =>
    match after? needle (c :: r) with
    | some rest => some ([], rest)
    | none => (cut? needle r).map fun p => (c :: p.1, p.2)

/-- A cut puts the text together again. -/
theorem cut?_eq_some {needle s pre post : Text} (h : cut? needle s = some (pre, post)) :
    s = pre ++ needle ++ post := by
  induction s generalizing pre with
  | nil =>
    unfold cut? at h
    split at h
    · next hn =>
      cases h
      simp [List.isEmpty_iff.mp hn]
    · cases h
  | cons c r ih =>
    unfold cut? at h
    split at h
    · next rest hr =>
      cases h
      simpa using after?_eq_some.mp hr
    · obtain ⟨p, hp, he⟩ := Option.map_eq_some_iff.mp h
      cases he
      have hr := @ih p.1 (by rw [hp])
      simp [hr]

/-- Whether `needle` occurs in the text. -/
def includes (s needle : Text) : Bool := (cut? needle s).isSome

/-- The replacement proper; `skip` characters of the last occurrence are still to be passed over. -/
def replaceFrom (needle replacement : Text) : Nat → Text → Text
  | _, [] => []
  | skip + 1, _ :: r => replaceFrom needle replacement skip r
  | 0, c :: r =>
    if needle.isPrefixOf (c :: r) then
      replacement ++ replaceFrom needle replacement (needle.length - 1) r
    else c :: replaceFrom needle replacement 0 r

/-- Replaces the occurrences of a non-empty `needle`, taken from the left
without overlap. -/
def replaceAll (s needle replacement : Text) : Text := replaceFrom needle replacement 0 s

/-- The texts before and after the first `sep`. -/
def splitFirst? (sep : Char) : Text → Option (Text × Text)
  | [] => none
  | c :: r => if c = sep then some ([], r) else (splitFirst? sep r).map fun p => (c :: p.1, p.2)

/-- The lines of a text. A line's end is `\n` or `\r\n` and is not part of it;
an empty last line does not count. -/
def lines (s : Text) : List Text :=
  match s.splitOn '\n' with
  | [] => []
  | fs =>
    let ended := fs.dropLast.map fun l => (before? ['\r'] l).getD l
    match fs.getLast? with
    | some (c :: r) => ended ++ [c :: r]
    | _ => ended

end Text

end ModuleDocs

import ModuleDocs.Proofs.Descriptor.Declared
import ModuleDocs.Proofs.Descriptor.Nesting

/-!
# Which compile-only declaration counts

A compile-only dependency is declared by a plain call, or by a strict one: a call with a block that
insists on a version. Both are looked for in the whole text, each kind by a search of its own, and
the two searches want opposite things of a repeated coordinate.

> `compileOnly_selected`: the version of a coordinate is that of its last strict call, and only
> without one that of its first plain call, where calls that start in an excluded range do not count.

A strict call can fail late: its brace may not be closed, its block may hold no `version` block or
name no version in it. Such a call is no strict call, so a plain one of the same coordinate counts,
and it may be the head of the very same call. Calls are read from left to right, so one that starts
inside another of its kind is not read; that takes a literal which ends in the word that is looked
for (`apartIn_of_calls`).
-/

namespace ModuleDocs

namespace Descriptor

open Text (Advances ApartIn IsReading byteLength)

variable {s c v body content rest : Text} {e : Exclusions} {before : Option Char} {offset : Nat}

/-! ## The specification -/

/-- The body of a block that insists on a version: a `version` block opens in it, and the version is
that of its first `strictly` call. -/
structure InsistsOn (body v : Text) : Prop where
  version : ∃ ahead space rest, OpensAt "version".toList '\x7b' body ahead space rest
  strictly : ∃ ahead behind, CallsAt "strictly".toList body ahead v behind ∧
    ∀ ahead' v' behind', CallsAt "strictly".toList body ahead' v' behind' → ahead <+: ahead'

/-- A compile-only call with a block that insists on a version stands at an offset. -/
def StrictAt (s : Text) (offset : Nat) (c v : Text) : Prop :=
  ∃ ahead content space body behind,
    CallsAt "compileOnly".toList s ahead content (space ++ '\x7b' :: (body ++ '\x7d' :: behind)) ∧
    offset = byteLength ahead ∧ BeginsWith content c ∧ (∀ x ∈ space, Text.isSpace x = true) ∧
    Nested '\x7b' '\x7d' body ∧ InsistsOn body v

/-- A compile-only call with coordinate and version in its literal stands at an offset. -/
def PlainAt (s : Text) (offset : Nat) (c v : Text) : Prop :=
  ∃ ahead content behind, CallsAt "compileOnly".toList s ahead content behind ∧
    offset = byteLength ahead ∧ SplitsInto content c v

/-- A strict call of a text, by its offset. -/
structure StrictCall (s : Text) (offset : Nat) (c v : Text) : Prop where
  stands : StrictAt s offset c v
  /-- It does not start inside an earlier one. -/
  apart : ∀ h ∈ Text.hits strictOpener s, h.start < offset → h.stop ≤ offset

/-- A plain call of a text, by its offset. -/
structure PlainCall (s : Text) (offset : Nat) (c v : Text) : Prop where
  stands : PlainAt s offset c v
  /-- It does not start inside an earlier one. -/
  apart : ∀ h ∈ Text.hits (coordinateCall "compileOnly".toList) s,
    h.start < offset → h.stop ≤ offset

/-! ## Plain calls -/

theorem coordinateCall_eq_some_iff {k : Text} :
    coordinateCall k before s = some ((c, v), rest) ↔
      ∃ content, call k before s = some (content, rest) ∧ SplitsInto content c v := by
  simp only [← splitCoordinate?_eq_some_iff]
  refine ⟨coordinateCall_eq_some, ?_⟩
  intro h
  obtain ⟨content, hcall, hsplit⟩ := h
  simp only [coordinateCall, hcall, hsplit, bind, Option.bind_some, pure]

theorem plainAt_iff : PlainAt s offset c v ↔
    ∃ h, IsReading (coordinateCall "compileOnly".toList) s h ∧ some h.value = some (c, v) ∧
      h.start = offset := by
  constructor
  · intro h
    obtain ⟨ahead, content, behind, hcall, hoffset, hsplit⟩ := h
    refine ⟨_, Text.isReading_of_eq_some (v := (c, v)) hcall.text_eq (by simp) ?_, rfl,
      hoffset.symm⟩
    exact coordinateCall_eq_some_iff.mpr ⟨content,
      call_eq_some_iff.mpr ⟨hcall.before, hcall.content_ne, hcall.unquoted, rfl⟩, hsplit⟩
  · intro h
    obtain ⟨h, ⟨ahead, read, hs⟩, hvalue, hstart⟩ := h
    have hreads := hs.reads
    rw [Option.some.inj hvalue] at hreads
    obtain ⟨content, hcall, hsplit⟩ := coordinateCall_eq_some_iff.mp hreads
    obtain ⟨hbefore, hne, hquote, hread⟩ := call_eq_some_iff.mp hcall
    refine ⟨ahead, content, h.rest, ⟨?_, by simpa [Text.ending?] using hbefore, hne, hquote⟩, ?_,
      hsplit⟩
    · rw [hs.text_eq, List.append_cancel_right hread]
    · rw [← hstart, hs.start_eq, Nat.zero_add]

/-! ## Strict calls -/

theorem strictOpener_eq_some_iff : strictOpener before s = some (c, rest) ↔
    ∃ content space, call "compileOnly".toList before s = some (content, space ++ '\x7b' :: rest) ∧
      BeginsWith content c ∧ ∀ x ∈ space, Text.isSpace x = true := by
  constructor
  · intro h
    obtain ⟨content, behind, hcall, hlead, hbrace⟩ := strictOpener_eq_some h
    obtain ⟨-, space, hspace, rfl⟩ := Text.trimStart_eq_cons_iff.mp hbrace
    exact ⟨content, space, hcall, leadingCoordinate?_eq_some_iff.mp hlead, hspace⟩
  · intro h
    obtain ⟨content, space, hcall, hlead, hspace⟩ := h
    have hbrace : Text.trimStart (space ++ '\x7b' :: rest) = '\x7b' :: rest :=
      Text.trimStart_eq_cons_iff.mpr ⟨by decide, space, hspace, rfl⟩
    have hafter : Text.after? ['\x7b'] ('\x7b' :: rest) = some rest := Text.after?_eq_some.mpr rfl
    simp only [strictOpener, hcall, leadingCoordinate?_eq_some_iff.mpr hlead, hbrace, hafter, bind,
      Option.bind_some, pure]

/-- The version of a block is what its body insists on. -/
theorem strictVersion?_eq_some_iff : strictVersion? body = some v ↔ InsistsOn body v := by
  have hversion : (Text.firstHit? (opener "version".toList '\x7b') body).isSome ↔
      ∃ ahead space rest, OpensAt "version".toList '\x7b' body ahead space rest := by
    rw [Text.firstHit?_isSome_iff (advances_opener _ _)]
    constructor
    · intro h
      obtain ⟨h, hreading⟩ := h
      obtain ⟨ahead, space, hopens, -⟩ := exists_opensAt_of_isReading hreading
      exact ⟨ahead, space, h.rest, hopens⟩
    · intro h
      obtain ⟨ahead, space, rest, hopens⟩ := h
      exact ⟨_, hopens.isReading (by decide)⟩
  constructor
  · intro h
    simp only [strictVersion?, bind, Option.bind_eq_some_iff] at h
    obtain ⟨_, hopens, hcalls⟩ := h
    exact ⟨hversion.mp (Option.isSome_iff_exists.mpr ⟨_, hopens⟩),
      firstHit?_call_eq_some_iff.mp hcalls⟩
  · intro h
    obtain ⟨_, hopens⟩ := Option.isSome_iff_exists.mp (hversion.mpr h.version)
    simp only [strictVersion?, hopens, firstHit?_call_eq_some_iff.mpr h.strictly, bind,
      Option.bind_some]

theorem strictDeclaration?_eq_some_iff {h : Hit Text} : strictDeclaration? h = some (c, v) ↔
    h.value = c ∧ ∃ body behind, h.rest = body ++ '\x7d' :: behind ∧ Nested '\x7b' '\x7d' body ∧
      InsistsOn body v := by
  constructor
  · intro hd
    simp only [strictDeclaration?, bind, Option.bind_eq_some_iff, pure, Option.some.injEq,
      Prod.mk.injEq] at hd
    obtain ⟨⟨body, behind⟩, hbraced, w, hversion, hvalue, hw⟩ := hd
    subst hw
    obtain ⟨hrest, hnested⟩ := braced?_eq_some_iff.mp hbraced
    exact ⟨hvalue, body, behind, hrest, hnested, strictVersion?_eq_some_iff.mp hversion⟩
  · intro hd
    obtain ⟨hvalue, body, behind, hrest, hnested, hinsists⟩ := hd
    have hbraced : braced? h.rest = some (body, behind) :=
      braced?_eq_some_iff.mpr ⟨hrest, hnested⟩
    simp only [strictDeclaration?, hbraced, strictVersion?_eq_some_iff.mpr hinsists, hvalue, bind,
      Option.bind_some, pure]

theorem strictAt_iff : StrictAt s offset c v ↔
    ∃ h, IsReading strictOpener s h ∧ strictDeclaration? h = some (c, v) ∧ h.start = offset := by
  simp only [strictDeclaration?_eq_some_iff]
  constructor
  · intro h
    obtain ⟨ahead, content, space, body, behind, hcall, hoffset, hlead, hspace, hnested,
      hinsists⟩ := h
    have hread : strictOpener ahead.getLast?
        ("compileOnly".toList ++ "(\"".toList ++ content ++ "\")".toList ++ space ++ ['\x7b'] ++
          (body ++ '\x7d' :: behind)) = some (c, body ++ '\x7d' :: behind) :=
      strictOpener_eq_some_iff.mpr ⟨content, space,
        call_eq_some_iff.mpr ⟨hcall.before, hcall.content_ne, hcall.unquoted, by simp⟩, hlead,
        hspace⟩
    refine ⟨_, Text.isReading_of_eq_some (by rw [hcall.text_eq]; simp) (by simp) hread,
      ⟨rfl, body, behind, rfl, hnested, hinsists⟩, hoffset.symm⟩
  · intro h
    obtain ⟨h, ⟨ahead, read, hs⟩, ⟨hvalue, body, behind, hrest, hnested, hinsists⟩, hstart⟩ := h
    obtain ⟨content, space, hcall, hlead, hspace⟩ := strictOpener_eq_some_iff.mp hs.reads
    obtain ⟨hbefore, hne, hquote, hread⟩ := call_eq_some_iff.mp hcall
    refine ⟨ahead, content, space, body, behind,
      ⟨?_, by simpa [Text.ending?] using hbefore, hne, hquote⟩, ?_, hvalue ▸ hlead, hspace, hnested,
      hinsists⟩
    · rw [hs.text_eq, List.append_assoc, hread, hrest]
      simp only [List.append_assoc]
    · rw [← hstart, hs.start_eq, Nat.zero_add]

/-! ## Calls outside the exclusions -/

/-- A reading outside the exclusions that does not start inside an earlier hit is a hit outside
them. -/
theorem exists_hit_outside_iff {α : Type} {r : Recogniser α} {p : Hit α → Prop}
    (hr : Advances r) :
    (∃ h ∈ (Text.hits r s).filter fun h => !e.covers h.start, p h ∧ h.start = offset) ↔
      ((∃ h, IsReading r s h ∧ p h ∧ h.start = offset) ∧
        ∀ h ∈ Text.hits r s, h.start < offset → h.stop ≤ offset) ∧ e.covers offset = false := by
  constructor
  · intro h
    obtain ⟨h, hmem, hp, rfl⟩ := h
    obtain ⟨hhit, houtside⟩ := List.mem_filter.mp hmem
    obtain ⟨hreading, hapart⟩ := (Text.mem_hits_iff hr).mp hhit
    exact ⟨⟨⟨h, hreading, hp, rfl⟩, hapart⟩, by simpa using houtside⟩
  · intro h
    obtain ⟨⟨⟨h, hreading, hp, rfl⟩, hapart⟩, houtside⟩ := h
    have hhit := (Text.mem_hits_iff hr).mpr ⟨hreading, hapart⟩
    exact ⟨h, List.mem_filter.mpr ⟨hhit, by simpa using houtside⟩, hp, rfl⟩

theorem plainCall_outside_iff : PlainCall s offset c v ∧ e.covers offset = false ↔
    ∃ h ∈ (Text.hits (coordinateCall "compileOnly".toList) s).filter fun h => !e.covers h.start,
      some h.value = some (c, v) ∧ h.start = offset := by
  rw [exists_hit_outside_iff (advances_coordinateCall _), ← plainAt_iff]
  exact and_congr_left' ⟨fun h => ⟨h.stands, h.apart⟩, fun h => ⟨h.1, h.2⟩⟩

theorem strictCall_outside_iff : StrictCall s offset c v ∧ e.covers offset = false ↔
    ∃ h ∈ (Text.hits strictOpener s).filter fun h => !e.covers h.start,
      strictDeclaration? h = some (c, v) ∧ h.start = offset := by
  rw [exists_hit_outside_iff advances_strictOpener, ← strictAt_iff]
  exact and_congr_left' ⟨fun h => ⟨h.stands, h.apart⟩, fun h => ⟨h.1, h.2⟩⟩

/-! ## The first and the last -/

section Order

variable {α : Type} {l : List (Hit α)} {f : Hit α → Option (Text × Text)}
  {p : Nat → Text → Text → Prop}

/-- What a list of hits declares of a coordinate is declared at the offset that comes first in the
order of the list. -/
theorem lookup_hits_iff {R : Nat → Nat → Prop} (hordered : l.Pairwise fun a b => R a.start b.start)
    (hR : ∀ m n, R m n → ¬ R n m)
    (hp : ∀ q c w, p q c w ↔ ∃ h ∈ l, f h = some (c, w) ∧ h.start = q) :
    TextMap.lookup c (l.filterMap f) = some v ↔ ∃ q, p q c v ∧ ∀ q' w, p q' c w → ¬ R q' q := by
  rw [TextMap.lookup_filterMap_eq_some_iff hordered fun a b => hR a.start b.start]
  simp only [hp]
  constructor
  · intro h
    obtain ⟨a, ha, hfa, hfirst⟩ := h
    refine ⟨a.start, ⟨a, ha, hfa, rfl⟩, ?_⟩
    intro q w h
    obtain ⟨b, hb, hfb, rfl⟩ := h
    exact hfirst b hb w hfb
  · intro h
    obtain ⟨q, ⟨a, ha, hfa, rfl⟩, hfirst⟩ := h
    exact ⟨a, ha, hfa, fun b hb w hfb => hfirst _ w ⟨b, hb, hfb, rfl⟩⟩

theorem lookup_hits_eq_none_iff
    (hp : ∀ q c w, p q c w ↔ ∃ h ∈ l, f h = some (c, w) ∧ h.start = q) :
    TextMap.lookup c (l.filterMap f) = none ↔ ∀ q w, ¬ p q c w := by
  rw [TextMap.lookup_filterMap_eq_none_iff]
  simp only [hp]
  constructor
  · intro h q w hdeclared
    obtain ⟨a, ha, hfa, -⟩ := hdeclared
    exact h a ha w hfa
  · intro h a ha w hfa
    exact h a.start w ⟨a, ha, hfa, rfl⟩

end Order

/-- The version of a coordinate is that of its last strict call outside the exclusions, else that
of its first plain call outside them. -/
theorem get?_compileOnlyDeclarations_iff :
    (compileOnlyDeclarations s e).get? c = some v ↔
      (∃ p, (StrictCall s p c v ∧ e.covers p = false) ∧
        ∀ q w, StrictCall s q c w ∧ e.covers q = false → q ≤ p) ∨
      (∀ q w, ¬ (StrictCall s q c w ∧ e.covers q = false)) ∧
        ∃ p, (PlainCall s p c v ∧ e.covers p = false) ∧
          ∀ q w, PlainCall s q c w ∧ e.covers q = false → p ≤ q := by
  -- the map of the strict calls has the last one at a coordinate, so they are looked up in reverse
  have hstrict : ((Text.hits strictOpener s).filter fun h => !e.covers h.start).reverse.Pairwise
      fun a b => a.start > b.start :=
    List.pairwise_reverse.mpr ((Text.pairwise_start_hits advances_strictOpener).filter _)
  have hstrictCall : ∀ q c w, StrictCall s q c w ∧ e.covers q = false ↔
      ∃ h ∈ ((Text.hits strictOpener s).filter fun h => !e.covers h.start).reverse,
        strictDeclaration? h = some (c, w) ∧ h.start = q := by
    simp only [List.mem_reverse]
    exact fun _ _ _ => strictCall_outside_iff
  have hplain : ((Text.hits (coordinateCall "compileOnly".toList) s).filter
      fun h => !e.covers h.start).Pairwise fun a b => a.start < b.start :=
    (Text.pairwise_start_hits (advances_coordinateCall _)).filter _
  rw [compileOnlyDeclarations, TextMap.get?_foldl_insertIfNew, TextMap.get?_ofList,
    Option.or_eq_some_iff, ← List.filterMap_eq_map, ← List.filterMap_reverse,
    lookup_hits_iff hstrict (fun _ _ => Nat.lt_asymm) hstrictCall,
    lookup_hits_eq_none_iff hstrictCall, lookup_hits_iff (f := some ∘ Hit.value) hplain
      (fun _ _ => Nat.lt_asymm) fun _ _ _ => plainCall_outside_iff]
  simp only [gt_iff_lt, Nat.not_lt]

/-! ## Calls inside calls -/

/-- A call that starts inside another one has the closing quote of the other as its opening one.
So calls lie apart unless a literal ends in the word that is looked for. -/
theorem apartIn_of_calls {α : Type} {r : Recogniser α} {k : Text} (hk : k ≠ []) (hquote : '"' ∉ k)
    (hr : ∀ before read v rest, r before (read ++ rest) = some (v, rest) →
      ∃ content behind, read = k ++ '"' :: (content ++ '"' :: ')' :: behind) ∧ '"' ∉ content ∧
        ∀ x ∈ ')' :: behind, k.head? ≠ some x)
    (hs : ¬ k ++ ['"', ')'] <:+: s) : ApartIn r s := by
  intro first second hfirst hsecond hlt
  obtain ⟨ahead, read, hstands⟩ := hfirst
  obtain ⟨ahead', read', hstands'⟩ := hsecond
  by_contra hover
  obtain ⟨a, b, ha, hb, hread, hrest⟩ := hstands.inside hstands' hlt (Nat.lt_of_not_le hover)
  obtain ⟨content, behind, hfront, hcontent, hbehind⟩ := hr _ _ _ _ hstands.reads
  obtain ⟨content', behind', hfront', -⟩ := hr _ _ _ _ hstands'.reads
  -- the second word lies in the first call, and no quote is in the word
  have hword : b ++ first.rest =
      k ++ '"' :: (content' ++ '"' :: ')' :: behind' ++ second.rest) := by
    rw [← hrest, hfront']
    simp
  have hcall : k ++ '"' :: (content ++ '"' :: (')' :: behind ++ first.rest)) =
      a ++ k ++ '"' :: (content' ++ '"' :: ')' :: behind' ++ second.rest) := by
    rw [List.append_assoc, ← hword, ← List.append_assoc, ← hread, hfront]
    simp
  rcases Text.append_cons_split hquote hcall with ⟨t, hsame, -⟩ | ⟨p, hp, hinner⟩
  · have hlength := congrArg List.length hsame
    have hpos := List.length_pos_iff.mpr ha
    simp only [List.length_append] at hlength
    omega
  · rcases Text.append_cons_split hquote hinner with ⟨t, hends, hclosing⟩ | ⟨q, hq, -⟩
    · -- the quote behind the second word is the closing one of the first call
      have ht : t = [] := by
        cases t with
        | nil => rfl
        | cons x t =>
          obtain ⟨rfl, -⟩ := List.cons.inj hclosing
          exact absurd (by simp [hends]) hcontent
      subst ht
      refine hs ⟨ahead ++ a, behind ++ first.rest, ?_⟩
      obtain ⟨-, hparenthesis⟩ := List.cons.inj hclosing
      rw [hstands.text_eq, hread]
      simp only [List.append_assoc]
      rw [hword, hparenthesis]
      simp
    · -- behind the closing quote the word would begin with a character that it does not begin with
      have hb' : q ++ b = ')' :: behind := by
        have hboth := hread.symm.trans hfront
        rw [hp, hq] at hboth
        simp only [List.append_assoc, List.cons_append] at hboth
        exact (List.cons.inj (List.append_cancel_left
          (List.cons.inj (List.append_cancel_left hboth)).2)).2
      obtain ⟨x, b, rfl⟩ := List.exists_cons_of_ne_nil hb
      obtain ⟨y, k, rfl⟩ := List.exists_cons_of_ne_nil hk
      obtain ⟨rfl, -⟩ := List.cons.inj hword
      exact hbehind x (by rw [← hb']; simp) rfl

/-- The head of a compile-only call, up to its literal. -/
def compileOnlyHead : Text := "compileOnly(".toList

theorem head?_compileOnlyHead : compileOnlyHead.head? = some 'c' := by decide

theorem quote_notMem_compileOnlyHead : '"' ∉ compileOnlyHead := by decide

theorem compileOnlyHead_ne_nil : compileOnlyHead ≠ [] := by
  intro h
  have hhead := head?_compileOnlyHead
  rw [h] at hhead
  cases hhead

theorem compileOnly_text : "compileOnly".toList ++ "(\"".toList ++ content ++ "\")".toList ++ rest =
    compileOnlyHead ++ '"' :: (content ++ '"' :: ')' :: rest) := by
  have hopen : "compileOnly".toList ++ "(\"".toList = compileOnlyHead ++ ['"'] := by
    decide
  have hclose : "\")".toList = ['"', ')'] := by decide
  rw [hopen, hclose]
  simp

/-- No literal ends in the head of a compile-only call. -/
def Unentangled (s : Text) : Prop := ¬ compileOnlyHead ++ ['"', ')'] <:+: s

theorem apartIn_plain (hs : Unentangled s) :
    ApartIn (coordinateCall "compileOnly".toList) s := by
  refine apartIn_of_calls compileOnlyHead_ne_nil quote_notMem_compileOnlyHead ?_ hs
  intro before read d rest hread
  obtain ⟨c, v⟩ := d
  obtain ⟨content, hcall, -⟩ := coordinateCall_eq_some hread
  obtain ⟨-, -, hquote, hfront⟩ := call_eq_some_iff.mp hcall
  refine ⟨content, [], ?_, hquote, ?_⟩
  · rw [List.append_cancel_right hfront]
    exact (List.append_nil _).symm.trans compileOnly_text
  · intro x hx hhead
    obtain rfl := List.mem_singleton.mp hx
    exact absurd (head?_compileOnlyHead.symm.trans hhead) (by decide)

theorem apartIn_strict (hs : Unentangled s) : ApartIn strictOpener s := by
  refine apartIn_of_calls compileOnlyHead_ne_nil quote_notMem_compileOnlyHead ?_ hs
  intro before read c rest hread
  obtain ⟨content, space, hcall, -, hspace⟩ := strictOpener_eq_some_iff.mp hread
  obtain ⟨-, -, hquote, hfront⟩ := call_eq_some_iff.mp hcall
  refine ⟨content, space ++ ['\x7b'], ?_, hquote, ?_⟩
  · rw [compileOnly_text] at hfront
    have hcut : read ++ rest =
        compileOnlyHead ++ '"' :: (content ++ '"' :: ')' :: (space ++ ['\x7b'])) ++ rest := by
      rw [hfront]
      simp
    exact List.append_cancel_right hcut
  · intro x hx hhead
    obtain rfl : 'c' = x := Option.some.inj (head?_compileOnlyHead.symm.trans hhead)
    rcases List.mem_cons.mp hx with heq | hx
    · exact absurd heq (by decide)
    · rcases List.mem_append.mp hx with hx | hx
      · exact absurd (hspace _ hx) (by decide)
      · exact absurd (List.mem_singleton.mp hx) (by decide)

/-- Where no literal ends in the word, whatever reads as a call is one. -/
theorem plainCall_iff_plainAt (hs : Unentangled s) :
    PlainCall s offset c v ↔ PlainAt s offset c v := by
  refine ⟨PlainCall.stands, fun hstands => ⟨hstands, ?_⟩⟩
  obtain ⟨h, hreading, -, rfl⟩ := plainAt_iff.mp hstands
  exact (apartIn_plain hs).stop_le_of_mem_hits (advances_coordinateCall _) hreading

theorem strictCall_iff_strictAt (hs : Unentangled s) :
    StrictCall s offset c v ↔ StrictAt s offset c v := by
  refine ⟨StrictCall.stands, fun hstands => ⟨hstands, ?_⟩⟩
  obtain ⟨h, hreading, -, rfl⟩ := strictAt_iff.mp hstands
  exact (apartIn_strict hs).stop_le_of_mem_hits advances_strictOpener hreading

/-- **Which compile-only declaration counts.** The version of a coordinate is that of its last
strict call outside the exclusions; if there is none, that of its first plain call outside them.
Where no literal ends in the head of a call, the calls are all those that can be read anywhere in
the text. -/
theorem compileOnly_selected (s : Text) (e : Exclusions) :
    (∀ c v, (compileOnlyDeclarations s e).get? c = some v ↔
      (∃ p, (StrictCall s p c v ∧ e.covers p = false) ∧
        ∀ q w, StrictCall s q c w ∧ e.covers q = false → q ≤ p) ∨
      (∀ q w, ¬ (StrictCall s q c w ∧ e.covers q = false)) ∧
        ∃ p, (PlainCall s p c v ∧ e.covers p = false) ∧
          ∀ q w, PlainCall s q c w ∧ e.covers q = false → p ≤ q) ∧
    (Unentangled s → ∀ p c v,
      (StrictCall s p c v ↔ StrictAt s p c v) ∧ (PlainCall s p c v ↔ PlainAt s p c v)) :=
  ⟨fun _ _ => get?_compileOnlyDeclarations_iff,
    fun hs _ _ _ => ⟨strictCall_iff_strictAt hs, plainCall_iff_plainAt hs⟩⟩

namespace Sample

/-- One coordinate with a plain call ahead of a strict one, the other with a plain call in an `if`
ahead of another one. -/
def compileOnlyTwice : Text :=
  ("compileOnly(\"g:a:1\")\nif (x) \x7b\n  compileOnly(\"g:b:2\")\n\x7d\n" ++
    "compileOnly(\"g:a\") \x7b\n  version \x7b strictly(\"3\") \x7d\n\x7d\n" ++
    "compileOnly(\"g:b:4\")\n").toList

end Sample

theorem compileOnly_selected_sample :
    Unentangled Sample.compileOnlyTwice ∧
      (∃ p, StrictAt Sample.compileOnlyTwice p "g:a".toList "3".toList ∧
        (Exclusions.ofText Sample.compileOnlyTwice).covers p = false) ∧
      ∃ p, PlainAt Sample.compileOnlyTwice p "g:b".toList "4".toList ∧
        (Exclusions.ofText Sample.compileOnlyTwice).covers p = false := by
  obtain ⟨hselected, hcalls⟩ := compileOnly_selected Sample.compileOnlyTwice
    (Exclusions.ofText Sample.compileOnlyTwice)
  have hunentangled : Unentangled Sample.compileOnlyTwice := by
    unfold Unentangled
    decide +kernel
  have hcalls := hcalls hunentangled
  refine ⟨hunentangled, ?_, ?_⟩
  · rcases (hselected "g:a".toList "3".toList).mp (by decide +kernel) with
      ⟨p, ⟨hcall, houtside⟩, -⟩ | ⟨-, p, hcall, -⟩
    · exact ⟨p, (hcalls _ _ _).1.mp hcall, houtside⟩
    · obtain ⟨h, hmem, hvalue, -⟩ := plainCall_outside_iff.mp hcall
      exact absurd hvalue (by revert h; decide +kernel)
  · rcases (hselected "g:b".toList "4".toList).mp (by decide +kernel) with
      ⟨p, hcall, -⟩ | ⟨-, p, ⟨hcall, houtside⟩, -⟩
    · obtain ⟨h, hmem, hvalue, -⟩ := strictCall_outside_iff.mp hcall
      exact absurd hvalue (by revert h; decide +kernel)
    · exact ⟨p, (hcalls _ _ _).2.mp hcall, houtside⟩

end Descriptor

end ModuleDocs

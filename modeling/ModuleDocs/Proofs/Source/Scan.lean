import Mathlib.Data.List.Perm.Subperm
import ModuleDocs.Proofs.Text.Keyed
import ModuleDocs.Proofs.Text.Search
import ModuleDocs.Source.Scan

/-!
# One scan for all tags

One pass over the files serves all tags of a table, and it ends as soon as there are as many
tags with a file as the table has entries. Each tag still gets what a search for it alone
would find, the first file that reveals it (`get?_scanMarkers`): a line enters its file for
a tag only where there is none, and when the pass ends early every tag has one, because no
tag outside the table is ever entered (`mem_keys_of_size`). A table that repeats a tag has
more entries than tags, so for it the pass does not end early at all.

A reader that fails in the middle of a file is one whose next line is not text: what it gave
before counts.
-/

namespace ModuleDocs

namespace Text

variable {t : Text} {ps : List (List UInt8)}

/-! ## Lines of a file -/

/-- The lines of a file, as bytes. -/
def byteLines (b : ByteArray) : List (List UInt8) :=
  let pieces := piecesBetween 10 b.toList
  let ended := pieces.dropLast.map fun p => if p.getLast? = some 13 then p.dropLast else p
  match pieces.getLast? with
  | some (x :: r) => ended ++ [x :: r]
  | _ => ended

/-- The text of a line, if it is text. -/
def lineText? (p : List UInt8) : Option Text := decode? ⟨p.toArray⟩

theorem decodedLines_eq (b : ByteArray) : decodedLines b = decodePrefix (byteLines b) := by
  rw [decodedLines, byteLines]
  cases (piecesBetween 10 b.toList).getLast? with
  | none => rfl
  | some last => cases last <;> rfl

/-- The lines ahead of the first one that is not text. -/
def textLines (ps : List (List UInt8)) : List (List UInt8) :=
  ps.takeWhile fun p => (lineText? p).isSome

theorem mem_decodePrefix_iff :
    t ∈ decodePrefix ps ↔ ∃ p ∈ textLines ps, lineText? p = some t := by
  induction ps with
  | nil => simp [decodePrefix, textLines]
  | cons p ps ih =>
    rw [decodePrefix, ← lineText?, textLines, List.takeWhile_cons, ← textLines]
    cases hp : lineText? p with
    | none => simp
    | some u => simp [ih, hp, eq_comm]

theorem includes_iff {s needle : Text} : s.includes needle = true ↔ needle <:+: s :=
  cut?_isSome_iff

end Text

namespace Source

variable {open_ : Reader} {markers : List (Text × Text)} {tag : Text} {file : Path}
  {files : List Path} {found : TextMap Path} {line : Text} {lines : List Text}

/-! ## What a line and a file reveal -/

/-- Whether a line has a literal of a tag. -/
def lineReveals (markers : List (Text × Text)) (tag line : Text) : Bool :=
  markers.any fun m => m.1 = tag && line.includes m.2

/-- Whether a file can be opened and reveals a tag, as far as it is text. -/
def reveals (open_ : Reader) (markers : List (Text × Text)) (tag : Text) (file : Path) : Bool :=
  match open_ file with
  | none => false
  | some bytes => (Text.decodedLines bytes).any (lineReveals markers tag)

theorem lineReveals_cons {m : Text × Text} : lineReveals (m :: markers) tag line =
    (decide (m.1 = tag) && line.includes m.2 || lineReveals markers tag line) := rfl

theorem get?_markLine : (markLine markers file found line).get? tag =
    (found.get? tag).or (if lineReveals markers tag line then some file else none) := by
  induction markers generalizing found with
  | nil => simp [markLine, lineReveals]
  | cons m markers ih =>
    rw [markLine, List.foldl_cons, ← markLine, ih, lineReveals_cons]
    by_cases htag : m.1 = tag
    · cases hline : line.includes m.2 with
      | false => simp
      | true =>
        rw [if_pos rfl, TextMap.get?_insertIfNew, htag, if_pos rfl]
        cases found.get? tag <;> simp
    · have helsewhere : (if line.includes m.2 then found.insertIfNew m.1 file else found).get? tag =
          found.get? tag := by
        split
        · rw [TextMap.get?_insertIfNew, if_neg (Ne.symm htag)]
        · rfl
      rw [helsewhere, decide_eq_false htag, Bool.false_and, Bool.false_or]

theorem get?_foldl_markLine : (lines.foldl (markLine markers file) found).get? tag =
    (found.get? tag).or (if lines.any (lineReveals markers tag) then some file else none) := by
  induction lines generalizing found with
  | nil => simp
  | cons line lines ih =>
    rw [List.foldl_cons, ih, get?_markLine, List.any_cons]
    cases found.get? tag with
    | some _ => rfl
    | none =>
      cases hline : lineReveals markers tag line <;> simp

/-! ## The scan -/

/-- Goes over one file, whatever has been found. -/
def scanFile (open_ : Reader) (markers : List (Text × Text)) (found : TextMap Path)
    (file : Path) : TextMap Path :=
  match open_ file with
  | none => found
  | some bytes => (Text.decodedLines bytes).foldl (markLine markers file) found

theorem get?_scanFile : (scanFile open_ markers found file).get? tag =
    (found.get? tag).or (if reveals open_ markers tag file then some file else none) := by
  rw [scanFile, reveals]
  cases open_ file with
  | none => simp
  | some bytes => exact get?_foldl_markLine

/-- A search that goes on behind a file takes what that file reveals first. -/
theorem get?_scanFile_or :
    ((scanFile open_ markers found file).get? tag).or (files.find? (reveals open_ markers tag)) =
      (found.get? tag).or ((file :: files).find? (reveals open_ markers tag)) := by
  rw [get?_scanFile, Option.or_assoc, List.find?_cons]
  cases reveals open_ markers tag file <;> simp

/-- No tag outside the table has been found. -/
def Within (markers : List (Text × Text)) (found : TextMap Path) : Prop :=
  ∀ tag ∈ found.keys, tag ∈ markers.map Prod.fst

theorem mem_tags_of_reveals (h : reveals open_ markers tag file = true) :
    tag ∈ markers.map Prod.fst := by
  rw [reveals] at h
  split at h
  · cases h
  · obtain ⟨line, -, hline⟩ := List.any_eq_true.mp h
    obtain ⟨m, hm, hreveals⟩ := List.any_eq_true.mp hline
    rw [Bool.and_eq_true, decide_eq_true_iff] at hreveals
    exact List.mem_map.mpr ⟨m, hm, hreveals.1⟩

theorem Within.scanFile (h : Within markers found) :
    Within markers (scanFile open_ markers found file) := by
  intro tag htag
  rw [TextMap.mem_keys_iff, get?_scanFile, Option.isSome_or, Bool.or_eq_true,
    ← TextMap.mem_keys_iff] at htag
  rcases htag with hold | hnew
  · exact h tag hold
  · have hreveals : reveals open_ markers tag file = true := by
      by_contra hno
      simp [hno] at hnew
    exact mem_tags_of_reveals hreveals

/-- With as many tags as the table has entries, every tag of it has been found. -/
theorem mem_keys_of_size (h : Within markers found) (hsize : found.size = markers.length)
    (htag : tag ∈ markers.map Prod.fst) : tag ∈ found.keys := by
  have hsub : List.Subperm found.keys (markers.map Prod.fst) := found.nodup_keys.subperm h
  have hlength : (markers.map Prod.fst).length ≤ found.keys.length := by
    rw [List.length_map, ← hsize, TextMap.keys, List.length_map, TextMap.size]
  exact (hsub.perm_of_length_le hlength).mem_iff.mpr htag

/-- What was found stays, and each other tag gets the first file that reveals it. -/
theorem get?_scanMarkersFrom (h : Within markers found) :
    (scanMarkersFrom open_ markers found files).get? tag =
      (found.get? tag).or (files.find? (reveals open_ markers tag)) := by
  induction files generalizing found with
  | nil => simp [scanMarkersFrom]
  | cons file files ih =>
    rw [scanMarkersFrom]
    split
    · next hsize =>
      by_cases htag : tag ∈ markers.map Prod.fst
      · obtain ⟨f, hf⟩ := Option.isSome_iff_exists.mp
          (TextMap.mem_keys_iff.mp (mem_keys_of_size h hsize htag))
        rw [hf]
        rfl
      · have hnone : (file :: files).find? (reveals open_ markers tag) = none :=
          List.find?_eq_none.mpr fun f _ hf => htag (mem_tags_of_reveals hf)
        rw [hnone, Option.or_none]
    · have hstep : (scanMarkersFrom open_ markers (Source.scanFile open_ markers found file)
          files).get? tag =
            (found.get? tag).or ((file :: files).find? (reveals open_ markers tag)) := by
        rw [ih h.scanFile, get?_scanFile_or]
      rw [Source.scanFile] at hstep
      cases hopen : open_ file with
      | none => rwa [hopen] at hstep
      | some bytes => rwa [hopen] at hstep

/-- **The scan is the plain search for each tag.** -/
theorem get?_scanMarkers : (scanMarkers open_ files markers).get? tag =
    files.find? (reveals open_ markers tag) := by
  rw [scanMarkers, get?_scanMarkersFrom fun _ htag => by cases htag]
  rfl

/-! ## What the search looks for -/

/-- A file reveals a tag: it can be opened and has, ahead of its first line that is not
text, a line with a literal of the tag. -/
def Reveals (open_ : Reader) (markers : List (Text × Text)) (tag : Text) (file : Path) : Prop :=
  ∃ bytes, open_ file = some bytes ∧ ∃ p ∈ Text.textLines (Text.byteLines bytes), ∃ line,
    Text.lineText? p = some line ∧ ∃ literal, (tag, literal) ∈ markers ∧ literal <:+: line

theorem lineReveals_iff : lineReveals markers tag line = true ↔
    ∃ literal, (tag, literal) ∈ markers ∧ literal <:+: line := by
  rw [lineReveals, List.any_eq_true]
  simp only [Bool.and_eq_true, decide_eq_true_iff, Text.includes_iff]
  constructor
  · rintro ⟨m, hm, rfl, hinfix⟩
    exact ⟨m.2, hm, hinfix⟩
  · rintro ⟨literal, hm, hinfix⟩
    exact ⟨(tag, literal), hm, rfl, hinfix⟩

theorem reveals_iff : reveals open_ markers tag file = true ↔ Reveals open_ markers tag file := by
  rw [reveals, Reveals]
  cases open_ file with
  | none => simp
  | some bytes =>
    simp only [List.any_eq_true, Option.some.injEq, exists_eq_left', Text.decodedLines_eq,
      Text.mem_decodePrefix_iff, lineReveals_iff]
    constructor
    · rintro ⟨line, ⟨p, hp, hline⟩, hliteral⟩
      exact ⟨p, hp, line, hline, hliteral⟩
    · rintro ⟨p, hp, line, hline, hliteral⟩
      exact ⟨line, ⟨p, hp, hline⟩, hliteral⟩

theorem get?_scanMarkers_eq_some_iff : (scanMarkers open_ files markers).get? tag = some file ↔
    ∃ earlier later, files = earlier ++ file :: later ∧ Reveals open_ markers tag file ∧
      ∀ f ∈ earlier, ¬ Reveals open_ markers tag f := by
  rw [get?_scanMarkers, List.find?_eq_some_iff_append]
  simp only [Bool.not_eq_true', ← Bool.not_eq_true, reveals_iff]
  constructor
  · rintro ⟨hfile, earlier, later, hsplit, hearlier⟩
    exact ⟨earlier, later, hsplit, hfile, hearlier⟩
  · rintro ⟨earlier, later, hsplit, hfile, hearlier⟩
    exact ⟨hfile, earlier, later, hsplit, hearlier⟩

theorem get?_scanMarkers_eq_none_iff : (scanMarkers open_ files markers).get? tag = none ↔
    ∀ f ∈ files, ¬ Reveals open_ markers tag f := by
  rw [get?_scanMarkers, List.find?_eq_none]
  simp only [reveals_iff]

theorem get?_foldl_scanFile : (files.foldl (scanFile open_ markers) found).get? tag =
    (found.get? tag).or (files.find? (reveals open_ markers tag)) := by
  induction files generalizing found with
  | nil => simp
  | cons file files ih => rw [List.foldl_cons, ih, get?_scanFile_or]

/-- **The scan for all tags is a search for each.** A tag has the first file that reveals it,
and is left out if no file does. So ending early changes nothing, and neither do the other
tags of the table, files that cannot be opened, or files behind the ones there are. -/
theorem scanMarkers_search (open_ : Reader) (files : List Path) (markers : List (Text × Text)) :
    (∀ tag file, (scanMarkers open_ files markers).get? tag = some file ↔
      ∃ earlier later, files = earlier ++ file :: later ∧ Reveals open_ markers tag file ∧
        ∀ f ∈ earlier, ¬ Reveals open_ markers tag f) ∧
    (∀ tag, (scanMarkers open_ files markers).get? tag = none ↔
      ∀ f ∈ files, ¬ Reveals open_ markers tag f) ∧
    scanMarkers open_ files markers = files.foldl (scanFile open_ markers) .empty ∧
    (∀ tag markers', (∀ literal, (tag, literal) ∈ markers' ↔ (tag, literal) ∈ markers) →
      (scanMarkers open_ files markers').get? tag = (scanMarkers open_ files markers).get? tag) ∧
    scanMarkers open_ (files.filter fun f => (open_ f).isSome) markers =
      scanMarkers open_ files markers ∧
    ∀ more tag file, (scanMarkers open_ files markers).get? tag = some file →
      (scanMarkers open_ (files ++ more) markers).get? tag = some file := by
  refine ⟨fun _ _ => get?_scanMarkers_eq_some_iff, fun _ => get?_scanMarkers_eq_none_iff, ?_,
    fun tag markers' h => ?_, ?_, fun more tag file h => ?_⟩
  · refine TextMap.ext_get? fun tag => ?_
    rw [get?_scanMarkers, get?_foldl_scanFile]
    rfl
  · have hreveals : reveals open_ markers' tag = reveals open_ markers tag := by
      funext f
      rw [Bool.eq_iff_iff, reveals_iff, reveals_iff, Reveals, Reveals]
      simp only [h]
    rw [get?_scanMarkers, get?_scanMarkers, hreveals]
  · refine TextMap.ext_get? fun tag => ?_
    have hopened (f : Path) : ((open_ f).isSome = true ∧ reveals open_ markers tag f = true) ↔
        reveals open_ markers tag f = true := by
      refine and_iff_right_of_imp fun hf => ?_
      obtain ⟨bytes, hbytes, -⟩ := reveals_iff.mp hf
      rw [hbytes]
      rfl
    rw [get?_scanMarkers, get?_scanMarkers, List.find?_filter]
    simp only [hopened, Bool.decide_eq_true]
  · rw [get?_scanMarkers] at h
    rw [get?_scanMarkers, List.find?_append, h, Option.some_or]

namespace Sample

/-- A file whose second line is not text and hides the third one, and a whole one. -/
def sources : Reader := fun p =>
  if p.text = "broken".toList then some ⟨#[0x41, 10, 0xFF, 10, 0x42, 10]⟩
  else if p.text = "whole".toList then some ⟨#[0x41, 0x42, 10, 0x43]⟩
  else none

/-- A table that repeats a tag. -/
def table : List (Text × Text) :=
  [("b".toList, "B".toList), ("a".toList, "A".toList), ("b".toList, "C".toList)]

end Sample

open Source.Sample in
/-- The tag is not revealed by what a file has behind a line that is not text, and a later
file does not take its place. -/
theorem scanMarkers_search_sample :
    let files : List Path := [⟨"missing".toList⟩, ⟨"broken".toList⟩, ⟨"whole".toList⟩]
    let found := scanMarkers sources files table
    found.get? "a".toList = some ⟨"broken".toList⟩ ∧ found.get? "b".toList = some ⟨"whole".toList⟩ ∧
      (scanMarkers sources (files ++ [⟨"broken".toList⟩]) table).get? "b".toList =
        some ⟨"whole".toList⟩ ∧
      (scanMarkers sources files (table.filter fun m => m.1 = "b".toList)).get? "b".toList =
        found.get? "b".toList := by
  intro files found
  obtain ⟨hfound, -, -, htable, -, happend⟩ := scanMarkers_search sources files table
  have hb : found.get? "b".toList = some ⟨"whole".toList⟩ := by
    refine (hfound _ _).mpr ⟨[⟨"missing".toList⟩, ⟨"broken".toList⟩], [], rfl,
      reveals_iff.mp (by decide +kernel), ?_⟩
    rw [List.forall_mem_cons, List.forall_mem_singleton, ← reveals_iff, ← reveals_iff]
    decide +kernel
  have ha : found.get? "a".toList = some ⟨"broken".toList⟩ := by
    refine (hfound _ _).mpr ⟨[⟨"missing".toList⟩], [⟨"whole".toList⟩], rfl,
      reveals_iff.mp (by decide +kernel), ?_⟩
    rw [List.forall_mem_singleton, ← reveals_iff]
    decide +kernel
  exact ⟨ha, hb, happend _ _ _ hb, htable _ _ fun literal => by simp⟩

end Source

end ModuleDocs

import ModuleDocs.Proofs.Document.Filling
import ModuleDocs.Proofs.Text.Bytes

/-!
# The exact splice

An update is described by where it cuts the document. Among all ways of reading a document as
text, begin marker, text, end marker and text, one comes first: the one with the shortest text
before the region, and of these the one with the shortest body (`Region.IsFirst`). That is the
region that is found (`isFirst_of_find?`), so nothing else can be meant by "the first region".

The document itself is cut by byte offsets, which come from two searches of its bytes, the second
one behind the first begin marker (`Region.cuts?`). They are the lengths of what the region puts
before each cut (`cuts?_eq`), so every one of them is a place between two characters, whatever
characters the document, the component and the source hold.
-/

namespace ModuleDocs

/-- The byte offsets at which an update cuts a document. -/
structure Cuts where
  /-- Where the begin marker starts. -/
  start : Nat
  /-- Where the search for the end marker starts. -/
  resume : Nat
  /-- Where the end marker ends. -/
  stop : Nat

namespace Region

open Text (bytes byteLength firstOffset?)

/-- The offsets of the first begin marker and of the first end marker behind it, in the bytes of a
document. -/
def cuts? (m : MarkerPair) (document : Text) : Option Cuts := do
  let start ← firstOffset? (bytes m.opening) (bytes document)
  let resume := start + (bytes m.opening).length
  let found ← firstOffset? (bytes m.closing) ((bytes document).drop resume)
  pure ⟨start, resume, resume + found + (bytes m.closing).length⟩

/-- A region of a document that no other one comes before: none has a shorter text ahead of it,
and none that starts at the same place has a shorter body. -/
structure IsFirst (m : MarkerPair) (document : Text) (r : Region) : Prop where
  document_eq : r.document m = document
  before_le : ∀ q : Region, q.document m = document → r.before.length ≤ q.before.length
  body_le : ∀ q : Region, q.document m = document → q.before = r.before →
    r.body.length ≤ q.body.length

variable {m : MarkerPair} {d : Text} {r q : Region}

/-! ## The first region -/

/-- A document as it is cut at the begin marker. -/
theorem document_eq_append (r : Region) :
    r.document m = r.before ++ m.opening ++ (r.body ++ m.closing ++ r.after) := by
  simp [document]

/-- Regions that start at the same place have the same text behind the begin marker. -/
theorem rest_eq_of_before_eq (h : q.document m = r.document m) (hb : q.before = r.before) :
    q.body ++ m.closing ++ q.after = r.body ++ m.closing ++ r.after := by
  rw [document_eq_append, document_eq_append, hb] at h
  exact List.append_cancel_left h

/-- **The region that is found** is the first one. -/
theorem isFirst_of_find? (hm : m.Solid) (h : find? m d = some r) : r.IsFirst m d := by
  obtain ⟨hd, ho, hc⟩ := (find?_eq_some_iff hm).mp h
  refine ⟨hd, ?_, ?_⟩
  · intro q hq
    have hdoc : r.document m = q.document m := hd.trans hq.symm
    rw [document_eq_append, document_eq_append] at hdoc
    exact Text.length_le_of_leftmost hm.1 ho hdoc
  · intro q hq hbefore
    exact Text.length_le_of_leftmost hm.2 hc
      (rest_eq_of_before_eq (hq.trans hd.symm) hbefore).symm

/-- There is only one first region. -/
theorem IsFirst.unique (hr : r.IsFirst m d) (hq : q.IsFirst m d) : q = r := by
  have hdoc : q.document m = r.document m := hq.document_eq.trans hr.document_eq.symm
  have hbefore : q.before = r.before := by
    have hlen := Nat.le_antisymm (hq.before_le r hr.document_eq) (hr.before_le q hq.document_eq)
    simp only [document_eq_append, List.append_assoc] at hdoc
    exact List.append_inj_left hdoc hlen
  have hrest := rest_eq_of_before_eq hdoc hbefore
  have hlen := Nat.le_antisymm (hq.body_le r hr.document_eq hbefore.symm)
    (hr.body_le q hq.document_eq hbefore)
  simp only [List.append_assoc] at hrest
  have hbody : q.body = r.body := List.append_inj_left hrest hlen
  have hafter : q.after = r.after :=
    List.append_cancel_left (List.append_inj_right hrest hlen)
  obtain ⟨before, body, after⟩ := q
  cases hbefore
  cases hbody
  cases hafter
  rfl

/-! ## The cuts -/

/-- **The searches of the bytes** cut the document at the ends of the region and behind its begin
marker. -/
theorem cuts?_eq (hm : m.Solid) : cuts? m d = (find? m d).map fun r =>
    ⟨byteLength r.before, byteLength (r.before ++ m.opening), byteLength (r.upTo m)⟩ := by
  unfold cuts? find?
  rw [Text.firstOffset?_bytes hm.1]
  cases hopen : Text.cut? m.opening d with
  | none => rfl
  | some p =>
    obtain ⟨before, rest⟩ := p
    have hd : d = before ++ m.opening ++ rest := Text.cut?_eq_some hopen
    have hdrop : (bytes d).drop (byteLength before + (bytes m.opening).length) = bytes rest := by
      rw [hd, Text.bytes_append, Text.bytes_append]
      refine List.drop_left' ?_
      rw [List.length_append, Text.length_bytes, Text.length_bytes]
    simp only [Option.map_some, bind, Option.bind_some, hdrop, Text.firstOffset?_bytes hm.2]
    cases hclose : Text.cut? m.closing rest with
    | none => rfl
    | some q =>
      simp only [Option.map_some, Option.bind_some, pure, upTo, text, Text.length_bytes,
        Text.byteLength_append, Option.some.injEq, Cuts.mk.injEq, true_and]
      omega

/-- What is in the bytes of a document before its region and behind it. -/
theorem bytes_outside (hd : r.document m = d) :
    (bytes d).take (byteLength r.before) = bytes r.before ∧
      (bytes d).drop (byteLength (r.upTo m)) = bytes r.after := by
  have hsplit : d = r.before ++ (r.text m ++ r.after) := by
    rw [← hd, ← upTo_append_after, upTo, List.append_assoc]
  constructor
  · rw [hsplit, Text.bytes_append, ← Text.length_bytes]
    exact List.take_left
  · rw [← hd, ← upTo_append_after, Text.bytes_append, ← Text.length_bytes]
    exact List.drop_left

theorem document_fill (r : Region) (x : Text) : (r.fill x).document m =
    r.before ++ m.opening ++ '\n' :: x.trim ++ '\n' :: m.closing ++ r.after := by
  simp [document]

/-- In bytes, a filled document is the old one but for what lies between two cuts. -/
theorem bytes_document_fill (hd : r.document m = d) (x : Text) :
    bytes ((r.fill x).document m) = (bytes d).take (byteLength r.before) ++
      bytes (m.opening ++ '\n' :: x.trim ++ '\n' :: m.closing) ++
      (bytes d).drop (byteLength (r.upTo m)) := by
  obtain ⟨hbefore, hafter⟩ := bytes_outside hd
  rw [hbefore, hafter, document_fill]
  simp only [Text.bytes_append, List.append_assoc]

/-- Every cut lies between two characters. -/
theorem isValid_cuts {o : Cuts} (hm : m.Solid) (h : cuts? m d = some o) :
    ∀ i ∈ [o.start, o.resume, o.stop], String.Pos.Raw.IsValid (String.ofList d) ⟨i⟩ := by
  rw [cuts?_eq hm] at h
  obtain ⟨r, hr, ho⟩ := Option.map_eq_some_iff.mp h
  have hd : r.document m = d := ((find?_eq_some_iff hm).mp hr).1
  have hupTo : r.upTo m <+: d := ⟨r.after, by rw [← hd, upTo_append_after]⟩
  have hopening : r.before ++ m.opening <+: d :=
    List.IsPrefix.trans ⟨r.body ++ m.closing, by simp [upTo, text]⟩ hupTo
  subst ho
  intro i hi
  simp only [List.mem_cons, List.not_mem_nil, or_false] at hi
  rcases hi with rfl | rfl | rfl
  · exact Text.isValid_byteLength ((List.prefix_append _ _).trans hopening)
  · exact Text.isValid_byteLength hopening
  · exact Text.isValid_byteLength hupTo

end Region

open Region

variable {m : MarkerPair} {d x : Text} {r : Region}

/-- A document with a region of a pair still has one when it is filled. -/
theorem find?_fill_isSome (hm : m.Solid) (r : Region) (x : Text) :
    (find? m ((r.fill x).document m)).isSome :=
  (find?_isSome_iff hm).mpr ⟨r.before, (r.fill x).body, r.after, rfl⟩

/-- **The exact splice.** An update succeeds exactly on a document in which an end marker of the
pair stands somewhere behind a begin marker, and `hasRegion` tells which these are. Of all such
readings of the document it takes the one with the shortest text ahead and, of these, the shortest
body; it puts the trimmed content there on lines of its own and leaves the rest as it is. The
region is still there afterwards, and the document counts as changed exactly if it differs. In
bytes, the new document is the old one up to one cut, the new region, and the old one from another
cut on; these cuts, and the place from which the end marker is looked for, lie between
characters. -/
theorem updateContent_splice (style : MarkerStyle) (d component source x : Text) :
    let m := style.markers component source
    ((∃ u, updateContent style d component source x = .ok u) ↔
      ∃ before body after, d = before ++ m.opening ++ body ++ m.closing ++ after) ∧
    (hasRegion style d component source = true ↔
      ∃ before body after, d = before ++ m.opening ++ body ++ m.closing ++ after) ∧
    ∀ u, updateContent style d component source x = .ok u →
      ∃ r : Region, r.IsFirst m d ∧ (∀ q : Region, q.IsFirst m d → q = r) ∧
        u.content = r.before ++ m.opening ++ '\n' :: x.trim ++ '\n' :: m.closing ++ r.after ∧
        (u.changed = true ↔ u.content ≠ d) ∧
        hasRegion style u.content component source = true ∧
        ∃ o, Region.cuts? m d = some o ∧
          Text.bytes u.content = (Text.bytes d).take o.start ++
            Text.bytes (m.opening ++ '\n' :: x.trim ++ '\n' :: m.closing) ++
            (Text.bytes d).drop o.stop ∧
          ∀ i ∈ [o.start, o.resume, o.stop], String.Pos.Raw.IsValid (String.ofList d) ⟨i⟩ := by
  intro m
  have hm : m.Solid := style.markers_solid component source
  refine ⟨?_, find?_isSome_iff hm, ?_⟩
  · rw [← find?_isSome_iff hm]
    cases hr : find? m d with
    | none => simp [updateContent_of_none (x := x) hr]
    | some r => simp [updateContent_of_find? (x := x) hr]
  · intro u hu
    cases hr : find? m d with
    | none =>
      rw [updateContent_of_none hr] at hu
      cases hu
    | some r =>
      rw [updateContent_of_find? hr, put_of_find? hr] at hu
      cases hu
      have hfirst := isFirst_of_find? hm hr
      have hcuts := cuts?_eq (d := d) hm
      rw [hr, Option.map_some] at hcuts
      exact ⟨r, hfirst, fun q => hfirst.unique, document_fill r x, by simp,
        find?_fill_isSome hm r x, _, hcuts, bytes_document_fill hfirst.document_eq x,
        isValid_cuts hm hcuts⟩

namespace Sample

/-- A document in which an end marker leads and the begin marker stands twice, with characters of
two bytes around them. -/
def crowded : Text :=
  "ß".toList ++ (markers "a".toList).closing ++ (markers "a".toList).opening ++ "ä".toList ++
    (markers "a".toList).opening ++ (markers "a".toList).closing ++ "é".toList

def regionCrowded : Region where
  before := "ß".toList ++ (markers "a".toList).closing
  body := "ä".toList ++ (markers "a".toList).opening
  after := "é".toList

theorem find?_regionCrowded : find? (markers "a".toList) crowded = some regionCrowded := by
  decide

end Sample

/-- The region begins at the first begin marker, and the second one goes with its body. -/
theorem updateContent_splice_sample :
    ∃ u, updateContent {} Sample.crowded "a".toList "s".toList " new\n".toList = .ok u ∧
      u.content = "ß".toList ++ (Sample.markers "a".toList).closing ++
        (Sample.markers "a".toList).opening ++ "\nnew\n".toList ++
        (Sample.markers "a".toList).closing ++ "é".toList ∧
      hasRegion {} u.content "a".toList "s".toList = true ∧
      ∃ o, Region.cuts? (Sample.markers "a".toList) Sample.crowded = some o ∧
        String.Pos.Raw.IsValid (String.ofList Sample.crowded) ⟨o.stop⟩ := by
  obtain ⟨u, hu⟩ : ∃ u, updateContent {} Sample.crowded "a".toList "s".toList " new\n".toList =
    .ok u := ⟨_, updateContent_of_find? Sample.find?_regionCrowded⟩
  obtain ⟨r, -, hunique, hcontent, -, hregion, o, ho, -, hvalid⟩ :=
    (updateContent_splice {} Sample.crowded "a".toList "s".toList " new\n".toList).2.2 u hu
  have hr := hunique _
    (isFirst_of_find? (MarkerStyle.markers_solid _ _ _) Sample.find?_regionCrowded)
  subst hr
  refine ⟨u, hu, ?_, hregion, o, ho, hvalid _ (by simp)⟩
  rw [hcontent]
  decide +kernel

end ModuleDocs

import ModuleDocs.Document.Region
import ModuleDocs.Proofs.Text.Search

/-!
# Regions under an update

An update searches the document, puts new content into the region it finds, and
the next update searches the result again. So everything rests on where the
markers are found *after* an update. `find?_eq_some_iff` says it without the
search: a region is found where the begin marker does not occur before its end,
nor the end marker before its own end. From it come the three facts about a
document whose region of `m` was filled:

- `find?_fill`: the region of `m` is where it was and holds the new content;
- `find?_fill_behind`, `find?_fill_ahead`: a region that lies apart from it is
  found with its text as it was, moved along if it lies behind;
- `find?_fill_none`: a region that was missing is still missing.

They hold because a marker is one line and the content stands on lines of its
own: an occurrence cannot reach across a line break.
-/

namespace ModuleDocs

namespace MarkerPair

/-- Neither marker has a line break in it. -/
def OneLine (m : MarkerPair) : Prop := '\n' ∉ m.opening ∧ '\n' ∉ m.closing

/-- Neither marker is empty. -/
def Solid (m : MarkerPair) : Prop := m.opening ≠ [] ∧ m.closing ≠ []

/-- One of the markers occurs in a text. -/
def OccursIn (m : MarkerPair) (s : Text) : Prop := m.opening <:+: s ∨ m.closing <:+: s

end MarkerPair

namespace MarkerStyle

theorem markers_solid (style : MarkerStyle) (component source : Text) :
    (style.markers component source).Solid := by
  have hname : style.component ++ component ++ ' ' :: style.source ++ source ≠ [] := by simp
  constructor
  · intro h
    exact hname (List.append_eq_nil_iff.mp (List.append_eq_nil_iff.mp h).1).2
  · intro h
    exact hname (List.append_eq_nil_iff.mp (List.append_eq_nil_iff.mp h).1).2

/-- Components of one source have markers of their own. -/
theorem markers_inj {style : MarkerStyle} {component component' source : Text} :
    style.markers component source = style.markers component' source ↔
      component = component' := by
  constructor
  · intro h
    have ho : _ ++ (style.component ++ component ++ ' ' :: style.source ++ source) ++ _ =
        _ ++ (style.component ++ component' ++ ' ' :: style.source ++ source) ++ _ :=
      congrArg MarkerPair.opening h
    have hname := List.append_cancel_left (List.append_cancel_right ho)
    simp only [List.append_assoc, List.append_cancel_left_eq] at hname
    exact List.append_cancel_right hname
  · intro heq
    subst heq
    rfl

end MarkerStyle

namespace Region

/-- The region itself, markers included. -/
def text (r : Region) (m : MarkerPair) : Text := m.opening ++ r.body ++ m.closing

/-- The document up to the end of the region. -/
def upTo (r : Region) (m : MarkerPair) : Text := r.before ++ r.text m

/-- The bytes from the start to the end of the region. -/
def span (r : Region) (m : MarkerPair) : Nat × Nat :=
  (Text.byteLength r.before, Text.byteLength (r.upTo m))

/-- Two regions of one document have no byte in common. -/
def Apart (m : MarkerPair) (r : Region) (n : MarkerPair) (q : Region) : Prop :=
  (r.span m).2 ≤ (q.span n).1 ∨ (q.span n).2 ≤ (r.span m).1

theorem Apart.symm {m n : MarkerPair} {r q : Region} (h : Apart m r n q) : Apart n q m r :=
  Or.symm h

theorem upTo_append_after (r : Region) (m : MarkerPair) : r.upTo m ++ r.after = r.document m := by
  simp [upTo, text, document]

@[simp] theorem fill_before (r : Region) (x : Text) : (r.fill x).before = r.before := rfl

@[simp] theorem fill_after (r : Region) (x : Text) : (r.fill x).after = r.after := rfl

@[simp] theorem fill_body (r : Region) (x : Text) :
    (r.fill x).body = '\n' :: x.trim ++ ['\n'] := rfl

variable {m n : MarkerPair} {d x : Text} {r q : Region}

/-! ## Where a region is found -/

/-- **Where a region is found**: no begin marker ends before its begin marker
does, and no end marker lies between its markers. -/
theorem find?_eq_some_iff (hm : m.Solid) :
    find? m d = some r ↔ r.document m = d ∧ ¬ m.opening <:+: r.before ++ m.opening.dropLast ∧
      ¬ m.closing <:+: r.body ++ m.closing.dropLast := by
  obtain ⟨before, body, after⟩ := r
  unfold find?
  simp only [bind, Option.bind_eq_some_iff, pure, Option.some.injEq]
  constructor
  · intro h
    obtain ⟨⟨a, rest⟩, h1, ⟨b, c⟩, h2, h3⟩ := h
    cases h3
    obtain ⟨hd, ha⟩ := (Text.cut?_eq_some_iff hm.1).mp h1
    obtain ⟨hr, hb⟩ := (Text.cut?_eq_some_iff hm.2).mp h2
    exact ⟨by rw [hd, show rest = _ from hr]; simp [document], ha, hb⟩
  · intro h
    obtain ⟨hd, ha, hb⟩ := h
    refine ⟨(before, body ++ m.closing ++ after), ?_, (body, after), ?_, rfl⟩
    · exact (Text.cut?_eq_some_iff hm.1).mpr ⟨by rw [← hd]; simp [document], ha⟩
    · exact (Text.cut?_eq_some_iff hm.2).mpr ⟨rfl, hb⟩

/-- A region is found exactly when an end marker follows a begin marker. -/
theorem find?_isSome_iff (hm : m.Solid) :
    (find? m d).isSome ↔ ∃ p b s, d = p ++ m.opening ++ b ++ m.closing ++ s := by
  constructor
  · intro h
    obtain ⟨r, hr⟩ := Option.isSome_iff_exists.mp h
    exact ⟨r.before, r.body, r.after, ((find?_eq_some_iff hm).mp hr).1.symm⟩
  · intro h
    obtain ⟨p, b, s, hd⟩ := h
    have hd' : d = p ++ m.opening ++ (b ++ m.closing ++ s) := by
      rw [hd]
      simp
    obtain ⟨pre, post, hcut, hsuf⟩ := Text.exists_cut?_of_eq hm.1 hd'
    have hin : m.closing <:+: post :=
      List.IsInfix.trans ⟨b, s, rfl⟩ hsuf.isInfix
    obtain ⟨⟨body, after⟩, hc⟩ := Option.isSome_iff_exists.mp (Text.cut?_isSome_iff.mpr hin)
    simp [find?, hcut, hc]

theorem find?_eq_none_iff (hm : m.Solid) :
    find? m d = none ↔ ∀ p b s, d ≠ p ++ m.opening ++ b ++ m.closing ++ s := by
  rw [← Option.not_isSome_iff_eq_none, find?_isSome_iff hm]
  simp

/-! ## Lying apart -/

/-- Regions that are apart: one ends in the text before the other. -/
theorem apart_iff (hr : find? m d = some r) (hq : find? n d = some q) :
    Apart m r n q ↔ r.upTo m <+: q.before ∨ q.upTo n <+: r.before := by
  have hd := document_of_find? hr
  have hd' := document_of_find? hq
  have hru : r.upTo m <+: d := ⟨r.after, by rw [← hd, upTo_append_after]⟩
  have hqu : q.upTo n <+: d := ⟨q.after, by rw [← hd', upTo_append_after]⟩
  have hrb : r.before <+: d := (List.prefix_append _ _).trans hru
  have hqb : q.before <+: d := (List.prefix_append _ _).trans hqu
  rw [Text.prefix_iff_byteLength_le hru hqb, Text.prefix_iff_byteLength_le hqu hrb]
  rfl

/-- What follows a region, up to and with the next one. -/
theorem after_eq_of_upTo_append {gap : Text} (hr : find? m d = some r) (hq : find? n d = some q)
    (hg : q.before = r.upTo m ++ gap) : r.after = gap ++ q.text n ++ q.after := by
  have hd : r.document m = q.document n :=
    (document_of_find? hr).trans (document_of_find? hq).symm
  rw [← upTo_append_after, ← upTo_append_after, upTo.eq_def q, hg] at hd
  simpa using hd

/-! ## Finding regions after an update -/

theorem not_infix_dropLast {s : Text} (hs : s ≠ []) : ¬ s <:+: s.dropLast := by
  intro h
  have hlen := h.length_le
  have hpos := List.length_pos_iff.mpr hs
  rw [List.length_dropLast] at hlen
  omega

/-- A filled region is found where it was, with the new content. -/
theorem find?_fill_of_trim (hm : m.Solid) (hline : '\n' ∉ m.closing)
    (hx : ¬ m.closing <:+: x.trim) (hr : find? m d = some r) :
    find? m ((r.fill x).document m) = some (r.fill x) := by
  refine (find?_eq_some_iff hm).mpr ⟨rfl, ((find?_eq_some_iff hm).mp hr).2.1, fun hi => ?_⟩
  have hi : m.closing <:+: [] ++ '\n' :: (x.trim ++ '\n' :: m.closing.dropLast) := by
    simpa using hi
  rcases (Text.infix_append_cons_iff hline).mp hi with hnil | hi
  · exact hm.2 (List.infix_nil.mp hnil)
  · rcases (Text.infix_append_cons_iff hline).mp hi with htrim | hend
    · exact hx htrim
    · exact not_infix_dropLast hm.2 hend

theorem find?_fill (hm : m.Solid) (hline : '\n' ∉ m.closing) (hx : ¬ m.closing <:+: x)
    (hr : find? m d = some r) : find? m ((r.fill x).document m) = some (r.fill x) :=
  find?_fill_of_trim hm hline (fun h => hx (h.trans (Text.trim_infix x))) hr

/-- A region behind a filled one is found there, with its text as it was. -/
theorem find?_fill_behind {gap : Text} (hn : n.Solid) (hline : '\n' ∉ n.opening)
    (hx : ¬ n.opening <:+: x) (hr : find? m d = some r) (hq : find? n d = some q)
    (hg : q.before = r.upTo m ++ gap) :
    find? n ((r.fill x).document m) = some { q with before := (r.fill x).upTo m ++ gap } := by
  obtain ⟨_, ho, hc⟩ := (find?_eq_some_iff hn).mp hq
  refine (find?_eq_some_iff hn).mpr ⟨?_, fun hi => ?_, hc⟩
  · rw [← upTo_append_after, ← upTo_append_after, fill_after, after_eq_of_upTo_append hr hq hg]
    simp [upTo, text]
  · -- the new lines are the only place where the text before the region changed
    have hi : n.opening <:+: (r.before ++ m.opening) ++
        '\n' :: (x.trim ++ '\n' :: (m.closing ++ gap ++ n.opening.dropLast)) := by
      simpa [upTo, text] using hi
    rw [hg, upTo, text] at ho
    rcases (Text.infix_append_cons_iff hline).mp hi with hb | hi
    · refine ho (hb.trans ⟨[], r.body ++ m.closing ++ gap ++ n.opening.dropLast, ?_⟩)
      simp
    · rcases (Text.infix_append_cons_iff hline).mp hi with ht | ha
      · exact hx (ht.trans (Text.trim_infix x))
      · refine ho (ha.trans ⟨r.before ++ m.opening ++ r.body, [], ?_⟩)
        simp

/-- A region ahead of a filled one is found where it was, with its text as it
was. -/
theorem find?_fill_ahead {gap : Text} (hn : n.Solid) (hq : find? n d = some q)
    (hg : r.before = q.upTo n ++ gap) :
    find? n ((r.fill x).document m) =
      some { q with after := gap ++ (r.fill x).text m ++ r.after } := by
  obtain ⟨_, ho, hc⟩ := (find?_eq_some_iff hn).mp hq
  refine (find?_eq_some_iff hn).mpr ⟨?_, ho, hc⟩
  rw [← upTo_append_after, ← upTo_append_after, fill_after, upTo, upTo, fill_before, hg]
  simp [upTo, text]

/-- An update makes no region. -/
theorem find?_fill_none (hn : n.Solid) (hline : n.OneLine) (hx : ¬ n.OccursIn x)
    (hr : find? m d = some r) (hnone : find? n d = none) :
    find? n ((r.fill x).document m) = none := by
  rw [find?_eq_none_iff hn] at hnone ⊢
  intro p b s heq
  have hx' : ¬ n.OccursIn x.trim := fun h =>
    hx (h.imp (·.trans (Text.trim_infix x)) (·.trans (Text.trim_infix x)))
  have hd : d = (r.before ++ m.opening) ++ r.body ++ (m.closing ++ r.after) := by
    rw [← document_of_find? hr]
    simp [document]
  have heq : (r.before ++ m.opening) ++ '\n' :: (x.trim ++ '\n' :: (m.closing ++ r.after)) =
      p ++ n.opening ++ (b ++ n.closing ++ s) := by
    simpa [document] using heq
  -- both markers lie in the text before the new lines or in the text behind them
  rcases Text.append_cons_split hline.1 heq with ⟨w, ha, hs⟩ | ⟨w, _, hs⟩
  · rcases Text.append_cons_split hline.2 hs.symm with ⟨v, hv, _⟩ | ⟨v, _, hv⟩
    · exact hnone p b (v ++ r.body ++ (m.closing ++ r.after)) (by rw [hd, ha, hv]; simp)
    · rcases Text.append_cons_split hline.2 hv with ⟨u, hu, _⟩ | ⟨u, _, hu⟩
      · exact hx' (Or.inr ⟨v, u, hu.symm⟩)
      · exact hnone p (w ++ r.body ++ u) s (by rw [hd, ha, hu]; simp)
  · rcases Text.append_cons_split hline.1 hs with ⟨u, hu, _⟩ | ⟨u, _, hu⟩
    · exact hx' (Or.inl ⟨w, u, hu.symm⟩)
    · exact hnone ((r.before ++ m.opening) ++ r.body ++ u) b s (by rw [hd, hu]; simp)

end Region

/-! ## A document with two regions -/

namespace Sample

open Region

/-- The markers of a component in the sample document. -/
def markers (component : Text) : MarkerPair := ({} : MarkerStyle).markers component "s".toList

def regionA : Region where
  before := "# Title\n".toList
  body := "\nold\n".toList
  after := "\nprose\n".toList ++ (markers "b".toList).opening ++ "\nold\n".toList ++
    (markers "b".toList).closing ++ "\n".toList

/-- A document with the regions of `a` and `b`, in this order. -/
def document : Text := regionA.document (markers "a".toList)

def regionB : Region where
  before := regionA.upTo (markers "a".toList) ++ "\nprose\n".toList
  body := "\nold\n".toList
  after := "\n".toList

theorem find?_regionA : find? (markers "a".toList) document = some regionA := by decide

theorem find?_regionB : find? (markers "b".toList) document = some regionB := by decide +kernel

theorem markers_oneLine : (markers "a".toList).OneLine ∧ (markers "b".toList).OneLine := by
  unfold MarkerPair.OneLine
  decide

theorem apart_regions : Apart (markers "a".toList) regionA (markers "b".toList) regionB := by
  unfold Apart
  decide +kernel

end Sample

end ModuleDocs

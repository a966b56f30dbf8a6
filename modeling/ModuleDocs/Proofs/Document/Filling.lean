import ModuleDocs.Proofs.Document.Region

/-!
# Filling regions one after another

`MarkerPair.put` is an update as a function on documents, and `putAll` a run of
updates. The regions of a document are told apart by a list of marker pairs; in a
`Settled` document those that are there lie apart. `put_cases` says once what a
`put` does to every region of such a document: it fills its own, leaves those
ahead in their place, moves those behind along, and makes none.

Everything else is read off it: a `put` keeps a document settled
(`settled_put`) and changes the body of its own region only (`body_put`). From
there a run of updates is a matter of lists: it leaves in every region the last
content meant for it (`body_putAll`).

For two updates alone less is asked: they commute as soon as their regions lie
apart and neither content begins the other's region (`updateContent_comm`).
-/

namespace ModuleDocs

/-- The document with new content in the region of a marker pair, or as it is if
the region is missing. -/
def MarkerPair.put (m : MarkerPair) (content document : Text) : Text :=
  match Region.find? m document with
  | some r => (r.fill content).document m
  | none => document

/-- The document after every content of a list was put into its region, in order. -/
def putAll (jobs : List (MarkerPair × Text)) (document : Text) : Text :=
  jobs.foldl (fun d j => j.1.put j.2 d) document

/-- The text between the markers of a pair. -/
def MarkerPair.body? (m : MarkerPair) (document : Text) : Option Text :=
  (Region.find? m document).map Region.body

/-- The text of a pair's region, markers included. -/
def MarkerPair.text? (m : MarkerPair) (document : Text) : Option Text :=
  (Region.find? m document).map (·.text m)

/-- A content on lines of its own, as it stands between markers. -/
def lined (content : Text) : Text := '\n' :: content.trim ++ ['\n']

/-- The last content of a list that is meant for a marker pair. -/
def lastFor (m : MarkerPair) (jobs : List (MarkerPair × Text)) : Option Text :=
  (jobs.reverse.find? fun j => j.1 = m).map Prod.snd

/-- Marker pairs that a document's regions can be told apart by. -/
def Proper (ms : List MarkerPair) : Prop := ∀ m ∈ ms, m.Solid ∧ m.OneLine

/-- The regions of the document lie apart. -/
def Settled (ms : List MarkerPair) (document : Text) : Prop :=
  ∀ m ∈ ms, ∀ n ∈ ms, m ≠ n → ∀ r q, Region.find? m document = some r →
    Region.find? n document = some q → Region.Apart m r n q

/-- A content for one of the regions that holds no marker of any. -/
def Harmless (ms : List MarkerPair) (j : MarkerPair × Text) : Prop :=
  j.1 ∈ ms ∧ ∀ m ∈ ms, ¬ m.OccursIn j.2

open Region

variable {m n : MarkerPair} {d x y : Text} {r q : Region}

/-! ## One update -/

theorem put_of_find? (h : find? m d = some r) : m.put x d = (r.fill x).document m := by
  rw [MarkerPair.put, h]

theorem put_of_none (h : find? m d = none) : m.put x d = d := by
  rw [MarkerPair.put, h]

/-- An update of a region that is there answers the filled document. -/
theorem updateContent_of_find? {style : MarkerStyle} {component source : Text}
    (h : find? (style.markers component source) d = some r) :
    updateContent style d component source x =
      .ok ⟨(style.markers component source).put x d,
        (style.markers component source).put x d != d⟩ := by
  rw [put_of_find? h, updateContent]
  simp only [h]

theorem updateContent_of_none {style : MarkerStyle} {component source : Text}
    (h : find? (style.markers component source) d = none) :
    updateContent style d component source x = .error (.noMarkers component source) := by
  rw [updateContent]
  simp only [h]

theorem lt_length_upTo (hm : m.Solid) (r : Region) : r.before.length < (r.upTo m).length := by
  have := List.length_pos_iff.mpr hm.1
  simp only [upTo, text, List.length_append]
  omega

/-- Regions that are apart, by the lengths of what stands before them. -/
theorem apart_iff_length (hr : find? m d = some r) (hq : find? n d = some q) :
    Apart m r n q ↔
      (r.upTo m).length ≤ q.before.length ∨ (q.upTo n).length ≤ r.before.length := by
  have hd := document_of_find? hr
  have hd' := document_of_find? hq
  have hru : r.upTo m <+: d := ⟨r.after, by rw [← hd, upTo_append_after]⟩
  have hqu : q.upTo n <+: d := ⟨q.after, by rw [← hd', upTo_append_after]⟩
  have hrb : r.before <+: d := (List.prefix_append _ _).trans hru
  have hqb : q.before <+: d := (List.prefix_append _ _).trans hqu
  rw [apart_iff hr hq]
  constructor
  · intro h
    rcases h with h | h
    · exact Or.inl h.length_le
    · exact Or.inr h.length_le
  · intro h
    rcases h with h | h
    · exact Or.inl (List.prefix_of_prefix_length_le hru hqb h)
    · exact Or.inr (List.prefix_of_prefix_length_le hqu hrb h)

/-- The region of an update that is found afterwards begins where it did and ends
no later than the new content. -/
theorem exists_find?_put_self (hm : m.Solid) (hr : find? m d = some r) :
    ∃ r', find? m (m.put x d) = some r' ∧ r'.before = r.before ∧
      (r'.upTo m).length ≤ ((r.fill x).upTo m).length := by
  obtain ⟨_, ho, _⟩ := (find?_eq_some_iff hm).mp hr
  obtain ⟨body, after, hcut, hsuf⟩ := Text.exists_cut?_of_eq hm.2
    (rfl : (r.fill x).body ++ m.closing ++ r.after = (r.fill x).body ++ m.closing ++ r.after)
  obtain ⟨hrest, hc⟩ := (Text.cut?_eq_some_iff hm.2).mp hcut
  have hdoc : (Region.mk r.before body after).document m = (r.fill x).document m := by
    simp only [document, fill_before, fill_after, List.append_assoc] at hrest ⊢
    rw [hrest]
  refine ⟨⟨r.before, body, after⟩, ?_, rfl, ?_⟩
  · rw [put_of_find? hr]
    exact (find?_eq_some_iff hm).mpr ⟨hdoc, ho, hc⟩
  · have hlen := congrArg List.length hdoc
    rw [← upTo_append_after, ← upTo_append_after, List.length_append, List.length_append] at hlen
    have hle := hsuf.length_le
    simp only [fill_after] at hlen
    omega

/-- Regions that lie apart still do after an update of one of them, and the other
keeps its text. -/
theorem exists_apart_put (hm : m.Solid) (hn : n.Solid) (hline : '\n' ∉ n.opening)
    (hx : ¬ n.opening <:+: x) (hr : find? m d = some r) (hq : find? n d = some q)
    (h : Apart m r n q) :
    ∃ r' q', find? m (m.put x d) = some r' ∧ find? n (m.put x d) = some q' ∧
      q'.body = q.body ∧ Apart m r' n q' := by
  obtain ⟨r', hr', hbefore, hlen⟩ := exists_find?_put_self (x := x) hm hr
  rcases (apart_iff hr hq).mp h with ⟨gap, hg⟩ | ⟨gap, hg⟩
  · have hq' := find?_fill_behind hn hline hx hr hq hg.symm
    rw [← put_of_find? hr] at hq'
    refine ⟨r', _, hr', hq', rfl, (apart_iff_length hr' hq').mpr (Or.inl ?_)⟩
    rw [List.length_append]
    omega
  · have hq' := find?_fill_ahead (m := m) (x := x) hn hq hg.symm
    rw [← put_of_find? hr] at hq'
    refine ⟨r', _, hr', hq', rfl, (apart_iff_length hr' hq').mpr (Or.inr ?_)⟩
    rw [hbefore, ← hg]
    exact (List.prefix_append _ _).length_le

theorem text?_eq_of_body_eq {d' : Text} {q' : Region} (hq : find? n d = some q)
    (hq' : find? n d' = some q') (h : q'.body = q.body) : n.text? d' = n.text? d := by
  simp only [MarkerPair.text?, hq, hq', Option.map_some, text, h]

theorem put_comm_of_ahead (hm : m.Solid) (hn : n.Solid) (hline : '\n' ∉ n.opening)
    (hx : ¬ n.opening <:+: x) (hr : find? m d = some r) (hq : find? n d = some q)
    (h : r.upTo m <+: q.before) : n.put y (m.put x d) = m.put x (n.put y d) := by
  obtain ⟨gap, hg⟩ := h
  have hbehind := find?_fill_behind hn hline hx hr hq hg.symm
  have hahead := find?_fill_ahead (m := n) (x := y) hm hr hg.symm
  rw [put_of_find? hr, put_of_find? hq, put_of_find? hbehind, put_of_find? hahead,
    ← upTo_append_after, ← upTo_append_after]
  simp [upTo, text]

/-- Two updates commute if their regions lie apart and neither content begins the
region of the other. -/
theorem put_comm_of_apart (hm : m.Solid) (hn : n.Solid) (hmline : '\n' ∉ m.opening)
    (hnline : '\n' ∉ n.opening) (hx : ¬ n.opening <:+: x) (hy : ¬ m.opening <:+: y)
    (hr : find? m d = some r) (hq : find? n d = some q) (h : Apart m r n q) :
    n.put y (m.put x d) = m.put x (n.put y d) := by
  rcases (apart_iff hr hq).mp h with h | h
  · exact put_comm_of_ahead hm hn hnline hx hr hq h
  · exact (put_comm_of_ahead hn hm hmline hy hq hr h).symm

/-- **The order of two updates does not matter.** For two pairs whose regions have
no byte in common both orders succeed with one document, if neither content holds
the begin marker of the other pair; and no step touches the other pair's region. -/
theorem updateContent_comm {style : MarkerStyle} {d c₁ s₁ c₂ s₂ x₁ x₂ : Text} {r₁ r₂ : Region}
    (h₁ : find? (style.markers c₁ s₁) d = some r₁) (h₂ : find? (style.markers c₂ s₂) d = some r₂)
    (hline₁ : (style.markers c₁ s₁).OneLine) (hline₂ : (style.markers c₂ s₂).OneLine)
    (hapart : Apart (style.markers c₁ s₁) r₁ (style.markers c₂ s₂) r₂)
    (hx₁ : ¬ (style.markers c₂ s₂).opening <:+: x₁)
    (hx₂ : ¬ (style.markers c₁ s₁).opening <:+: x₂) :
    ∃ u₁ u₂ u₁₂ u₂₁,
      updateContent style d c₁ s₁ x₁ = .ok u₁ ∧
      updateContent style u₁.content c₂ s₂ x₂ = .ok u₁₂ ∧
      updateContent style d c₂ s₂ x₂ = .ok u₂ ∧
      updateContent style u₂.content c₁ s₁ x₁ = .ok u₂₁ ∧
      u₁₂.content = u₂₁.content ∧
      (style.markers c₂ s₂).text? u₁.content = (style.markers c₂ s₂).text? d ∧
      (style.markers c₁ s₁).text? u₁₂.content = (style.markers c₁ s₁).text? u₁.content ∧
      (style.markers c₁ s₁).text? u₂.content = (style.markers c₁ s₁).text? d ∧
      (style.markers c₂ s₂).text? u₂₁.content = (style.markers c₂ s₂).text? u₂.content := by
  have hm := style.markers_solid c₁ s₁
  have hn := style.markers_solid c₂ s₂
  -- the first step of either order, and the second one on its result
  obtain ⟨r₁', r₂', hr₁, hr₂, hb₂, hap⟩ :=
    exists_apart_put (x := x₁) hm hn hline₂.1 hx₁ h₁ h₂ hapart
  obtain ⟨_, r₁₂, _, hr₁₂, hb₁₂, _⟩ :=
    exists_apart_put (x := x₂) hn hm hline₁.1 hx₂ hr₂ hr₁ hap.symm
  obtain ⟨q₂', q₁', hq₂, hq₁, hb₁, haq⟩ :=
    exists_apart_put (x := x₂) hn hm hline₁.1 hx₂ h₂ h₁ hapart.symm
  obtain ⟨_, q₂₁, _, hq₂₁, hb₂₁, _⟩ :=
    exists_apart_put (x := x₁) hm hn hline₂.1 hx₁ hq₁ hq₂ haq.symm
  exact ⟨_, _, _, _, updateContent_of_find? h₁, updateContent_of_find? hr₂,
    updateContent_of_find? h₂, updateContent_of_find? hq₁,
    put_comm_of_apart hm hn hline₁.1 hline₂.1 hx₁ hx₂ h₁ h₂ hapart,
    text?_eq_of_body_eq h₂ hr₂ hb₂, text?_eq_of_body_eq hr₁ hr₁₂ hb₁₂,
    text?_eq_of_body_eq h₁ hq₁ hb₁, text?_eq_of_body_eq hq₂ hq₂₁ hb₂₁⟩

/-- The region behind is filled first, with a content that holds its own end marker. -/
theorem updateContent_comm_sample :
    ∃ u₁ u₂ u₁₂ u₂₁,
      updateContent {} Sample.document "b".toList "s".toList (Sample.markers "b".toList).closing =
        .ok u₁ ∧
      updateContent {} u₁.content "a".toList "s".toList "new".toList = .ok u₁₂ ∧
      updateContent {} Sample.document "a".toList "s".toList "new".toList = .ok u₂ ∧
      updateContent {} u₂.content "b".toList "s".toList (Sample.markers "b".toList).closing =
        .ok u₂₁ ∧
      u₁₂.content = u₂₁.content := by
  have hx₁ : ¬ (Sample.markers "a".toList).opening <:+: (Sample.markers "b".toList).closing := by
    decide +kernel
  have hx₂ : ¬ (Sample.markers "b".toList).opening <:+: "new".toList := by decide +kernel
  obtain ⟨u₁, u₂, u₁₂, u₂₁, h₁, h₁₂, h₂, h₂₁, heq, _⟩ :=
    updateContent_comm Sample.find?_regionB Sample.find?_regionA Sample.markers_oneLine.2
      Sample.markers_oneLine.1 Sample.apart_regions.symm hx₁ hx₂
  exact ⟨u₁, u₂, u₁₂, u₂₁, h₁, h₁₂, h₂, h₂₁, heq⟩

/-- Another region after an update: it keeps its text, and its place as well if it
stands ahead of the filled one; if it stands behind, it moves along with its end. -/
theorem put_cases {ms : List MarkerPair} (hms : Proper ms) (hd : Settled ms d)
    (hx : Harmless ms (m, x)) (hr : find? m d = some r) (hn : n ∈ ms) (hnm : n ≠ m) :
    (find? n d = none ∧ find? n (m.put x d) = none) ∨
    ∃ q q', find? n d = some q ∧ find? n (m.put x d) = some q' ∧ q'.body = q.body ∧
      (((q.upTo n).length ≤ r.before.length ∧ q'.before.length = q.before.length ∧
          (q'.upTo n).length = (q.upTo n).length) ∨
        ((r.upTo m).length ≤ q.before.length ∧
          q'.before.length + (r.upTo m).length = q.before.length + ((r.fill x).upTo m).length ∧
          (q'.upTo n).length + (r.upTo m).length =
            (q.upTo n).length + ((r.fill x).upTo m).length)) := by
  have hnx := hx.2 n hn
  rw [put_of_find? hr]
  cases hq : find? n d with
  | none => exact Or.inl ⟨rfl, find?_fill_none (hms n hn).1 (hms n hn).2 hnx hr hq⟩
  | some q =>
    right
    rcases (apart_iff hr hq).mp (hd m hx.1 n hn (Ne.symm hnm) r q hr hq) with
      ⟨gap, hg⟩ | ⟨gap, hg⟩
    · -- behind the filled one: the place moves along with its end
      refine ⟨q, _, rfl, find?_fill_behind (hms n hn).1 (hms n hn).2.1
        (fun h => hnx (Or.inl h)) hr hq hg.symm, rfl, Or.inr ⟨?_, ?_, ?_⟩⟩
      · exact (List.IsPrefix.length_le ⟨gap, hg⟩)
      · rw [← hg]
        simp only [List.length_append]
        omega
      · rw [upTo.eq_def q, ← hg, upTo.eq_def { q with before := _ }]
        simp only [text, List.length_append]
        omega
    · -- ahead of it: the place stays
      refine ⟨q, _, rfl, find?_fill_ahead (hms n hn).1 hq hg.symm, rfl, Or.inl ⟨?_, rfl, rfl⟩⟩
      exact List.IsPrefix.length_le ⟨gap, hg⟩

theorem find?_put_self {ms : List MarkerPair} (hms : Proper ms) (hx : Harmless ms (m, x))
    (hr : find? m d = some r) : find? m (m.put x d) = some (r.fill x) := by
  rw [put_of_find? hr]
  exact find?_fill (hms m hx.1).1 (hms m hx.1).2.2 (fun h => hx.2 m hx.1 (Or.inr h)) hr

/-! ## Settled documents -/

section Settled

variable {ms : List MarkerPair} {jobs : List (MarkerPair × Text)}

/-- An update keeps the regions apart. -/
theorem settled_put (hms : Proper ms) (hd : Settled ms d) (hx : Harmless ms (m, x)) :
    Settled ms (m.put x d) := by
  cases hr : find? m d with
  | none => rwa [put_of_none hr]
  | some r =>
    have hself := find?_put_self hms hx hr
    -- the filled region against any other one
    have hone : ∀ b ∈ ms, b ≠ m → ∀ rb, find? b (m.put x d) = some rb →
        Apart m (r.fill x) b rb := by
      intro b hb hbm rb hrb
      rw [apart_iff_length hself hrb]
      rcases put_cases hms hd hx hr hb hbm with ⟨_, hnone⟩ | ⟨q, q', _, hq', _, hpos⟩
      · rw [hnone] at hrb
        cases hrb
      · rw [hq'] at hrb
        cases hrb
        simp only [fill_before]
        omega
    intro a ha b hb hab ra rb hra hrb
    -- the filled region is one of the two, or both are others
    by_cases ham : a = m
    · subst ham
      rw [hself] at hra
      cases hra
      exact hone b hb (Ne.symm hab) rb hrb
    · by_cases hbm : b = m
      · subst hbm
        rw [hself] at hrb
        cases hrb
        exact (hone a ha ham ra hra).symm
      · rw [apart_iff_length hra hrb]
        rcases put_cases hms hd hx hr ha ham with ⟨_, hnone⟩ | ⟨qa, qa', hqa, hqa', _, hposa⟩
        · rw [hnone] at hra
          cases hra
        rcases put_cases hms hd hx hr hb hbm with ⟨_, hnone⟩ | ⟨qb, qb', hqb, hqb', _, hposb⟩
        · rw [hnone] at hrb
          cases hrb
        rw [hqa'] at hra
        rw [hqb'] at hrb
        cases hra
        cases hrb
        have hapart := (apart_iff_length hqa hqb).mp (hd a ha b hb hab qa qb hqa hqb)
        have hra := lt_length_upTo (hms a ha).1 qa
        have hrb := lt_length_upTo (hms b hb).1 qb
        have hfill : r.before.length < ((r.fill x).upTo m).length :=
          lt_length_upTo (hms m hx.1).1 (r.fill x)
        omega

/-- An update changes the body of its own region and of no other. -/
theorem body_put (hms : Proper ms) (hd : Settled ms d) (hx : Harmless ms (m, x)) (hn : n ∈ ms) :
    n.body? (m.put x d) =
      if n = m then (n.body? d).map fun _ => lined x else n.body? d := by
  cases hr : find? m d with
  | none =>
    rw [put_of_none hr]
    split
    · next h => rw [h, MarkerPair.body?, hr]; rfl
    · rfl
  | some r =>
    split
    · next h =>
      rw [h, MarkerPair.body?, MarkerPair.body?, hr, find?_put_self hms hx hr]
      rfl
    · next h =>
      rcases put_cases hms hd hx hr hn h with ⟨h1, h2⟩ | ⟨q, q', h1, h2, hbody, _⟩
      · rw [MarkerPair.body?, MarkerPair.body?, h1, h2]
      · rw [MarkerPair.body?, MarkerPair.body?, h1, h2, Option.map_some, Option.map_some, hbody]

/-! ## Runs of updates -/

@[simp] theorem putAll_nil : putAll [] d = d := rfl

@[simp] theorem putAll_cons {j : MarkerPair × Text} :
    putAll (j :: jobs) d = putAll jobs (j.1.put j.2 d) := rfl

theorem putAll_append {more : List (MarkerPair × Text)} :
    putAll (jobs ++ more) d = putAll more (putAll jobs d) := List.foldl_append

theorem settled_putAll (hms : Proper ms) (hd : Settled ms d) (hj : ∀ j ∈ jobs, Harmless ms j) :
    Settled ms (putAll jobs d) := by
  induction jobs generalizing d with
  | nil => exact hd
  | cons j jobs ih =>
    rw [putAll_cons]
    exact ih (settled_put hms hd (hj j (by simp))) fun k hk => hj k (by simp [hk])

theorem lastFor_append_singleton {j : MarkerPair × Text} :
    lastFor n (jobs ++ [j]) = if n = j.1 then some j.2 else lastFor n jobs := by
  rw [lastFor, List.reverse_append, List.reverse_singleton, List.singleton_append, List.find?_cons]
  split
  · next h => rw [if_pos (by simpa using Eq.symm (by simpa using h))]; rfl
  · next h => rw [if_neg (fun e => by simp [e] at h)]; rfl

/-- **After a run** a region holds the last content meant for it, or what it held. -/
theorem body_putAll (hms : Proper ms) (hd : Settled ms d) (hj : ∀ j ∈ jobs, Harmless ms j)
    (hn : n ∈ ms) :
    n.body? (putAll jobs d) =
      (n.body? d).map fun b => ((lastFor n jobs).map lined).getD b := by
  induction jobs using List.reverseRecOn with
  | nil => simp [lastFor]
  | append_singleton jobs j ih =>
    have hjs : ∀ k ∈ jobs, Harmless ms k := fun k hk => hj k (by simp [hk])
    rw [putAll_append, putAll_cons, putAll_nil,
      body_put hms (settled_putAll hms hd hjs) (hj j (by simp)) hn, ih hjs,
      lastFor_append_singleton]
    split
    · rw [Option.map_map]; rfl
    · rfl

theorem body_putAll_isSome (hms : Proper ms) (hd : Settled ms d)
    (hj : ∀ j ∈ jobs, Harmless ms j) (hn : n ∈ ms) :
    (n.body? (putAll jobs d)).isSome = (n.body? d).isSome := by
  rw [body_putAll hms hd hj hn, Option.isSome_map]

end Settled

end ModuleDocs

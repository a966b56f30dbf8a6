import Mathlib.Data.List.Find
import ModuleDocs.Proofs.Document.Filling

/-!
# What stands outside the regions

`cutOut` goes through a document and leaves, in the place of every located
region, the marker pair of that region; what remains besides are the characters
that no region holds. `segments` are the texts between these places.

An update keeps all of it, the places of the regions among the prose included
(`cutOut_put`), and so does every run of updates (`cutOut_putAll`). Nothing is
lost in a cut either: with the regions put back it is the document
(`restore_cutOut`). So a document is known from its cut and the bodies of its
regions (`eq_of_cutOut_eq`), which is why a run made twice is a run made once
(`putAll_putAll`).
-/

namespace ModuleDocs

open Region

namespace MarkerPair

/-- Whether the pair's region begins at an offset. -/
def beginsAt (m : MarkerPair) (d : Text) (i : Nat) : Bool :=
  (find? m d).any fun r => r.before.length = i

/-- Whether an offset lies in the pair's region behind its first character. -/
def reachesOver (m : MarkerPair) (d : Text) (i : Nat) : Bool :=
  (find? m d).any fun r => r.before.length < i ∧ i < (r.upTo m).length

end MarkerPair

/-- The part `s` of the document, which stands at an offset, without its regions. -/
def cutFrom (ms : List MarkerPair) (d : Text) : Nat → Text → List (MarkerPair ⊕ Char)
  | _, [] => []
  | i, c :: s =>
    match ms.find? (·.beginsAt d i) with
    | some m => .inl m :: cutFrom ms d (i + 1) s
    | none =>
      if ms.any (·.reachesOver d i) then cutFrom ms d (i + 1) s
      else .inr c :: cutFrom ms d (i + 1) s

/-- The document without its regions, each of which leaves its marker pair. -/
def cutOut (ms : List MarkerPair) (d : Text) : List (MarkerPair ⊕ Char) := cutFrom ms d 0 d

/-- The texts around the regions, in order. -/
def segments (ms : List MarkerPair) (d : Text) : List Text :=
  ((cutOut ms d).splitOnP Sum.isLeft).map (List.filterMap Sum.getRight?)

/-- A cut document with the regions of `d` put back. -/
def restore (d : Text) (cut : List (MarkerPair ⊕ Char)) : Text :=
  cut.flatMap fun
    | .inl m => (m.text? d).getD []
    | .inr c => [c]

variable {ms : List MarkerPair} {m n : MarkerPair} {d d' s x : Text} {r q : Region}

/-! ## Cutting parts of a document -/

theorem beginsAt_iff {i : Nat} :
    n.beginsAt d i = true ↔ ∃ q, find? n d = some q ∧ q.before.length = i := by
  cases h : find? n d <;> simp [MarkerPair.beginsAt, h]

theorem reachesOver_iff {i : Nat} :
    n.reachesOver d i = true ↔
      ∃ q, find? n d = some q ∧ q.before.length < i ∧ i < (q.upTo n).length := by
  cases h : find? n d <;> simp [MarkerPair.reachesOver, h]

theorem cutFrom_append {t : Text} {i : Nat} :
    cutFrom ms d i (s ++ t) = cutFrom ms d i s ++ cutFrom ms d (i + s.length) t := by
  induction s generalizing i with
  | nil => rfl
  | cons c s ih =>
    simp only [List.cons_append, cutFrom, ih, List.length_cons]
    rw [show i + 1 + s.length = i + (s.length + 1) by omega]
    split
    · rfl
    · split <;> rfl

/-- Two documents are cut alike where their regions stand alike. -/
theorem cutFrom_congr {i j : Nat} (h : ∀ k < s.length, ∀ n ∈ ms,
      n.beginsAt d (i + k) = n.beginsAt d' (j + k) ∧
        n.reachesOver d (i + k) = n.reachesOver d' (j + k)) :
    cutFrom ms d i s = cutFrom ms d' j s := by
  induction s generalizing i j with
  | nil => rfl
  | cons c s ih =>
    have hhead := h 0 (by simp)
    have hb : ms.find? (·.beginsAt d i) = ms.find? (·.beginsAt d' j) :=
      List.find?_congr fun n hn => (hhead n hn).1
    have ho : ms.any (·.reachesOver d i) = ms.any (·.reachesOver d' j) := by
      rw [Bool.eq_iff_iff, List.any_eq_true, List.any_eq_true]
      exact exists_congr fun n => and_congr_right fun hn => Bool.eq_iff_iff.mp (hhead n hn).2
    have hrest : cutFrom ms d (i + 1) s = cutFrom ms d' (j + 1) s := by
      refine ih fun k hk n hn => ?_
      have := h (k + 1) (by simp only [List.length_cons]; omega) n hn
      rwa [show i + (k + 1) = i + 1 + k by omega, show j + (k + 1) = j + 1 + k by omega] at this
    simp only [cutFrom, hb, ho, hrest]

/-- Regions that share a character are of one pair. -/
theorem eq_of_overlap (hd : Settled ms d) (hm : m ∈ ms) (hn : n ∈ ms)
    (hr : find? m d = some r) (hq : find? n d = some q) {i : Nat}
    (hri : r.before.length ≤ i ∧ i < (r.upTo m).length)
    (hqi : q.before.length ≤ i ∧ i < (q.upTo n).length) : n = m ∧ q = r := by
  have hnm : n = m := by
    by_contra hne
    have hap := (apart_iff_length hr hq).mp (hd m hm n hn (Ne.symm hne) r q hr hq)
    omega
  subst hnm
  exact ⟨rfl, Option.some.inj (hq.symm.trans hr)⟩

/-- A region leaves its marker pair where it begins. -/
theorem cutFrom_cons_begins (hms : Proper ms) (hd : Settled ms d) (hm : m ∈ ms)
    (hr : find? m d = some r) {c : Char} : cutFrom ms d r.before.length (c :: s) =
      .inl m :: cutFrom ms d (r.before.length + 1) s := by
  have hsome : (ms.find? (·.beginsAt d r.before.length)).isSome :=
    List.find?_isSome.mpr ⟨m, hm, beginsAt_iff.mpr ⟨r, hr, rfl⟩⟩
  obtain ⟨n, hn⟩ := Option.isSome_iff_exists.mp hsome
  have hat : n.beginsAt d r.before.length = true := by simpa using List.find?_some hn
  have hmem := List.mem_of_find?_eq_some hn
  obtain ⟨q, hq, hlen⟩ := beginsAt_iff.mp hat
  have h1 := lt_length_upTo (hms m hm).1 r
  have h2 := lt_length_upTo (hms n hmem).1 q
  obtain ⟨hnm, _⟩ := eq_of_overlap hd hm hmem hr hq ⟨Nat.le_refl _, h1⟩ (by omega)
  rw [cutFrom, hn, hnm]

/-- Behind its first character a region leaves nothing. -/
theorem cutFrom_cons_inside (hms : Proper ms) (hd : Settled ms d) (hn : n ∈ ms)
    (hq : find? n d = some q) {i : Nat} (hi : q.before.length < i ∧ i < (q.upTo n).length)
    {c : Char} : cutFrom ms d i (c :: s) = cutFrom ms d (i + 1) s := by
  have hfind : ms.find? (·.beginsAt d i) = none := by
    refine List.find?_eq_none.mpr fun b hb hat => ?_
    obtain ⟨qb, hqb, hlen⟩ := beginsAt_iff.mp (by simpa using hat)
    have hlt := lt_length_upTo (hms b hb).1 qb
    obtain ⟨_, hqq⟩ := eq_of_overlap hd hn hb hq hqb ⟨by omega, hi.2⟩ (by omega)
    rw [hqq] at hlen
    omega
  have hany : ms.any (·.reachesOver d i) = true :=
    List.any_eq_true.mpr ⟨n, hn, reachesOver_iff.mpr ⟨q, hq, hi.1, hi.2⟩⟩
  rw [cutFrom, hfind]
  simp only [hany, if_true]

/-- A character that no region holds stays. -/
theorem cutFrom_cons_outside {i : Nat} (hb : ∀ n ∈ ms, n.beginsAt d i = false)
    (ho : ∀ n ∈ ms, n.reachesOver d i = false) {c : Char} :
    cutFrom ms d i (c :: s) = .inr c :: cutFrom ms d (i + 1) s := by
  have hfind : ms.find? (·.beginsAt d i) = none :=
    List.find?_eq_none.mpr fun n hn => by rw [hb n hn]; decide
  have hany : ms.any (·.reachesOver d i) = false := by
    rw [List.any_eq_false]
    intro n hn
    rw [ho n hn]
    decide
  rw [cutFrom, hfind]
  simp only [hany, Bool.false_eq_true, if_false]

/-- Nothing is left of what lies inside a region. -/
theorem cutFrom_inside (hms : Proper ms) (hd : Settled ms d) (hn : n ∈ ms)
    (hq : find? n d = some q) {i : Nat}
    (hi : q.before.length < i ∧ i + s.length ≤ (q.upTo n).length) : cutFrom ms d i s = [] := by
  induction s generalizing i with
  | nil => rfl
  | cons c s ih =>
    rw [List.length_cons] at hi
    rw [cutFrom_cons_inside hms hd hn hq (by omega)]
    exact ih (by omega)

/-- A region leaves its marker pair. -/
theorem cutFrom_text (hms : Proper ms) (hd : Settled ms d) (hm : m ∈ ms)
    (hr : find? m d = some r) : cutFrom ms d r.before.length (r.text m) = [.inl m] := by
  have hlen : (r.upTo m).length = r.before.length + (r.text m).length := by
    rw [upTo, List.length_append]
  have hpos := lt_length_upTo (hms m hm).1 r
  cases ht : r.text m with
  | nil =>
    rw [hlen, ht, List.length_nil] at hpos
    omega
  | cons c t =>
    rw [ht, List.length_cons] at hlen
    rw [cutFrom_cons_begins hms hd hm hr, cutFrom_inside hms hd hm hr (by omega)]

/-- A document is cut in three parts at each of its regions. -/
theorem cutOut_of_find? (hr : find? m d = some r) :
    cutOut ms d = cutFrom ms d 0 r.before ++ cutFrom ms d r.before.length (r.text m) ++
      cutFrom ms d (r.upTo m).length r.after := by
  have hd : d = r.before ++ r.text m ++ r.after := by
    rw [← document_of_find? hr, ← upTo_append_after]
    rfl
  calc cutOut ms d = cutFrom ms d 0 (r.before ++ r.text m ++ r.after) :=
        congrArg (cutFrom ms d 0) hd
    _ = _ := by rw [cutFrom_append, cutFrom_append, upTo, Nat.zero_add, Nat.zero_add]

/-! ## Putting the regions back -/

@[simp] theorem restore_nil : restore d [] = [] := rfl

theorem restore_inl (hr : find? m d = some r) {cut : List (MarkerPair ⊕ Char)} :
    restore d (.inl m :: cut) = r.text m ++ restore d cut := by
  simp [restore, MarkerPair.text?, hr]

theorem restore_inr {c : Char} {cut : List (MarkerPair ⊕ Char)} :
    restore d (.inr c :: cut) = c :: restore d cut := rfl

/-- At the place of a region stands its text. -/
theorem drop_before_length (hr : find? m d = some r) :
    d.drop r.before.length = r.text m ++ r.after := by
  have hd : d = r.before ++ (r.text m ++ r.after) := by
    rw [← document_of_find? hr, ← upTo_append_after, upTo, List.append_assoc]
  calc d.drop r.before.length
      = (r.before ++ (r.text m ++ r.after)).drop r.before.length :=
        congrArg (List.drop r.before.length) hd
    _ = r.text m ++ r.after := List.drop_left

/-- Regions put back behind an offset: if the offset lies in a region, the text
starts behind that region. -/
theorem restore_cutFrom (hms : Proper ms) (hd : Settled ms d) {i : Nat} (hs : d.drop i = s) :
    ((∀ n ∈ ms, n.reachesOver d i = false) → restore d (cutFrom ms d i s) = s) ∧
    ∀ n ∈ ms, ∀ q, find? n d = some q → q.before.length < i → i ≤ (q.upTo n).length →
      restore d (cutFrom ms d i s) = s.drop ((q.upTo n).length - i) := by
  induction s generalizing i with
  | nil => simp [cutFrom]
  | cons c s ih =>
    have hs' : d.drop (i + 1) = s := by
      rw [← List.drop_drop, hs, List.drop_one, List.tail_cons]
    obtain ⟨ihout, ihin⟩ := ih hs'
    have hout : (∀ n ∈ ms, n.reachesOver d i = false) →
        restore d (cutFrom ms d i (c :: s)) = c :: s := by
      intro hfree
      by_cases hat : ∃ m ∈ ms, m.beginsAt d i = true
      · obtain ⟨m, hm, hat⟩ := hat
        obtain ⟨r, hr, hlen⟩ := beginsAt_iff.mp hat
        subst hlen
        have hlt := lt_length_upTo (hms m hm).1 r
        rw [drop_before_length hr] at hs
        have hup : (r.text m).length = (r.upTo m).length - (r.before.length + 1) + 1 := by
          have hlen : (r.upTo m).length = r.before.length + (r.text m).length := by
            rw [upTo, List.length_append]
          omega
        rw [cutFrom_cons_begins hms hd hm hr, restore_inl hr,
          ihin m hm r hr (by omega) (by omega), ← List.drop_succ_cons, ← hup, ← hs, List.drop_left]
      · -- neither in a region nor at the beginning of one
        have hbegins : ∀ n ∈ ms, n.beginsAt d i = false := by
          intro n hn
          rw [Bool.eq_false_iff]
          exact fun h => hat ⟨n, hn, h⟩
        rw [cutFrom_cons_outside hbegins hfree, restore_inr, ihout]
        intro n hn
        rw [Bool.eq_false_iff, Ne, reachesOver_iff]
        intro h
        obtain ⟨q, hq, h1, h2⟩ := h
        rcases Nat.lt_or_ge q.before.length i with hlt | hge
        · exact absurd (reachesOver_iff.mpr ⟨q, hq, hlt, by omega⟩) (by rw [hfree n hn]; decide)
        · exact hat ⟨n, hn, beginsAt_iff.mpr ⟨q, hq, by omega⟩⟩
    refine ⟨hout, fun n hn q hq h1 h2 => ?_⟩
    rcases Nat.eq_or_lt_of_le h2 with heq | hlt
    · -- the region ends here, and no other one reaches over its end
      rw [hout, heq, Nat.sub_self, List.drop_zero]
      intro b hb
      rw [Bool.eq_false_iff, Ne, reachesOver_iff]
      intro h
      obtain ⟨qb, hqb, hb1, hb2⟩ := h
      obtain ⟨hbn, hqq⟩ := eq_of_overlap (i := i - 1) hd hn hb hq hqb (by omega) (by omega)
      rw [hbn, hqq] at hb2
      omega
    · rw [cutFrom_cons_inside hms hd hn hq ⟨h1, hlt⟩, ihin n hn q hq (by omega) (by omega),
        show (q.upTo n).length - i = (q.upTo n).length - (i + 1) + 1 by omega,
        List.drop_succ_cons]

/-- **A cut loses nothing**: with its regions put back it is the document. -/
theorem restore_cutOut (hms : Proper ms) (hd : Settled ms d) : restore d (cutOut ms d) = d := by
  refine (restore_cutFrom hms hd (List.drop_zero (l := d))).1 fun n hn => ?_
  rw [Bool.eq_false_iff, Ne, reachesOver_iff]
  intro h
  obtain ⟨q, _, h, _⟩ := h
  exact Nat.not_lt_zero _ h

/-- Only pairs of the list are left in a cut. -/
theorem mem_of_inl_mem_cutFrom {i : Nat} (h : Sum.inl m ∈ cutFrom ms d i s) : m ∈ ms := by
  induction s generalizing i with
  | nil => exact absurd h (by simp [cutFrom])
  | cons c s ih =>
    rw [cutFrom] at h
    split at h
    · next n hn =>
      rcases List.mem_cons.mp h with heq | h
      · cases heq
        exact List.mem_of_find?_eq_some hn
      · exact ih h
    · split at h
      · exact ih h
      · exact ih (by simpa using h)

/-- A document is known from its cut and what its regions hold. -/
theorem eq_of_cutOut_eq (hms : Proper ms) (hd : Settled ms d) (hd' : Settled ms d')
    (hcut : cutOut ms d = cutOut ms d') (hbody : ∀ m ∈ ms, m.body? d = m.body? d') : d = d' := by
  rw [← restore_cutOut hms hd, ← restore_cutOut hms hd', ← hcut]
  refine List.flatMap_congr fun e he => ?_
  cases e with
  | inr c => rfl
  | inl m =>
    have hb := hbody m (mem_of_inl_mem_cutFrom he)
    have htext (d : Text) : m.text? d = (m.body? d).map fun b => m.opening ++ b ++ m.closing := by
      simp [MarkerPair.text?, MarkerPair.body?, text, Function.comp_def]
    simp only [htext, hb]

/-! ## Updates -/

/-- The regions after an update stand where they did, ahead of the filled one and
behind it. -/
theorem at_put {i j : Nat} (hms : Proper ms) (hd : Settled ms d) (hx : Harmless ms (m, x))
    (hr : find? m d = some r) (hn : n ∈ ms)
    (hij : (i = j ∧ i < r.before.length) ∨ (((r.fill x).upTo m).length ≤ i ∧
      i + (r.upTo m).length = j + ((r.fill x).upTo m).length)) :
    n.beginsAt (m.put x d) i = n.beginsAt d j ∧
      n.reachesOver (m.put x d) i = n.reachesOver d j := by
  have hlt := lt_length_upTo (hms m hx.1).1 r
  have hlt' : r.before.length < ((r.fill x).upTo m).length :=
    lt_length_upTo (hms m hx.1).1 (r.fill x)
  suffices h : (n.beginsAt (m.put x d) i = true ↔ n.beginsAt d j = true) ∧
      (n.reachesOver (m.put x d) i = true ↔ n.reachesOver d j = true) from
    ⟨Bool.eq_iff_iff.mpr h.1, Bool.eq_iff_iff.mpr h.2⟩
  rw [beginsAt_iff, beginsAt_iff, reachesOver_iff, reachesOver_iff]
  by_cases hnm : n = m
  · subst hnm
    simp only [find?_put_self hms hx hr, hr, Option.some.injEq, exists_eq_left', fill_before]
    omega
  · rcases put_cases hms hd hx hr hn hnm with ⟨h1, h2⟩ | ⟨q, q', h1, h2, _, hpos⟩
    · simp [h1, h2]
    · have := lt_length_upTo (hms n hn).1 q
      simp only [h1, h2, Option.some.injEq, exists_eq_left']
      omega

/-- **An update leaves what stands outside the regions**, and the regions in
their places among it. -/
theorem cutOut_put (hms : Proper ms) (hd : Settled ms d) (hx : Harmless ms (m, x)) :
    cutOut ms (m.put x d) = cutOut ms d := by
  cases hr : find? m d with
  | none => rw [put_of_none hr]
  | some r =>
    -- ahead of the filled region, at it and behind it
    have hself := find?_put_self hms hx hr
    have hpre : cutFrom ms (m.put x d) 0 r.before = cutFrom ms d 0 r.before :=
      cutFrom_congr fun k hk n hn => at_put hms hd hx hr hn (Or.inl ⟨rfl, by omega⟩)
    have hpost : cutFrom ms (m.put x d) ((r.fill x).upTo m).length r.after =
        cutFrom ms d (r.upTo m).length r.after :=
      cutFrom_congr fun k hk n hn => at_put hms hd hx hr hn (Or.inr ⟨by omega, by omega⟩)
    have htext : cutFrom ms (m.put x d) r.before.length ((r.fill x).text m) = [.inl m] :=
      cutFrom_text hms (settled_put hms hd hx) hx.1 hself
    rw [cutOut_of_find? hself, cutOut_of_find? hr, fill_before, fill_after, hpre, hpost, htext,
      cutFrom_text hms hd hx.1 hr]

theorem cutOut_putAll {jobs : List (MarkerPair × Text)} (hms : Proper ms) (hd : Settled ms d)
    (hj : ∀ j ∈ jobs, Harmless ms j) : cutOut ms (putAll jobs d) = cutOut ms d := by
  induction jobs generalizing d with
  | nil => rfl
  | cons j jobs ih =>
    have hput := hj j (by simp)
    rw [putAll_cons, ih (settled_put hms hd hput) fun k hk => hj k (by simp [hk]),
      cutOut_put hms hd hput]

/-- **A run made twice is a run made once.** -/
theorem putAll_putAll {jobs : List (MarkerPair × Text)} (hms : Proper ms) (hd : Settled ms d)
    (hj : ∀ j ∈ jobs, Harmless ms j) : putAll jobs (putAll jobs d) = putAll jobs d := by
  have hd' := settled_putAll hms hd hj
  refine eq_of_cutOut_eq hms (settled_putAll hms hd' hj) hd' (cutOut_putAll hms hd' hj) ?_
  intro m hm
  rw [body_putAll hms hd' hj hm, body_putAll hms hd hj hm, Option.map_map]
  refine congrArg (Option.map · _) (funext fun b => ?_)
  cases lastFor m jobs <;> rfl

end ModuleDocs

import Mathlib.Data.List.Pairwise
import ModuleDocs.Proofs.Text.Located

/-!
# Which readings are hits

A search goes through a text from left to right and on behind each hit. So it passes over places
where its recogniser would read, too; but what it passes over lies in a hit:

> `exists_hit_over`: where a recogniser reads, a hit starts there or reaches over the place.

Hits are in order and do not overlap (`pairwise_hits`), and a place settles what is read at it
(`StandsIn.hit_eq`). So the hits are the readings that no hit from further ahead reaches over
(`mem_hits_iff`), and the first hit is the first reading (`firstHit?_eq_some_iff`). Where readings
never reach over one another all of them are hits (`ApartIn.mem_hits_iff`).
-/

namespace ModuleDocs

namespace Text

variable {α : Type} {r : Recogniser α} {before : Option Char} {s ahead read ahead' read' : Text}
  {rest : Text} {c d : Char} {v : α} {h h' : Hit α} {offset skip : Nat}

/-- A reading of a recogniser somewhere in a text, as the hit it would be. -/
def IsReading (r : Recogniser α) (s : Text) (h : Hit α) : Prop :=
  ∃ ahead read, StandsIn r 0 none s h ahead read

/-! ## Readings by their places -/

/-- A reading behind the first character is one of the text behind it. -/
theorem StandsIn.tail (hs : StandsIn r offset before (c :: s) h (d :: ahead) read) :
    StandsIn r (offset + c.utf8Size) (some c) s h ahead read := by
  obtain ⟨hc, htext⟩ := List.cons.inj hs.text_eq
  subst hc
  exact
    { text_eq := htext
      start_eq := by rw [hs.start_eq, byteLength_cons]; omega
      stop_eq := by rw [hs.stop_eq, List.cons_append, byteLength_cons]; omega
      read_ne := hs.read_ne
      reads := by rw [← hs.reads, ending?_cons] }

theorem StandsIn.ahead_prefix (hs : StandsIn r offset before s h ahead read) : ahead <+: s := by
  rw [hs.text_eq, List.append_assoc]
  exact List.prefix_append _ _

theorem StandsIn.start_lt_stop (hs : StandsIn r offset before s h ahead read) :
    h.start < h.stop := by
  obtain ⟨c, t, ht⟩ := List.exists_cons_of_ne_nil hs.read_ne
  have hpos := c.utf8Size_pos
  rw [hs.start_eq, hs.stop_eq, ht, byteLength_append, byteLength_cons]
  omega

/-- What is ahead of a reading is longer the later the reading starts. -/
theorem StandsIn.prefix_iff (hs : StandsIn r offset before s h ahead read)
    (hs' : StandsIn r offset before s h' ahead' read') : ahead <+: ahead' ↔ h.start ≤ h'.start := by
  rw [prefix_iff_byteLength_le hs.ahead_prefix hs'.ahead_prefix, hs.start_eq, hs'.start_eq]
  omega

/-- At one place there is one reading. -/
theorem StandsIn.hit_eq (hs : StandsIn r offset before s h ahead read)
    (hs' : StandsIn r offset before s h' ahead' read') (hstart : h.start = h'.start) : h = h' := by
  have hahead : ahead = ahead' :=
    ((hs.prefix_iff hs').mpr (by omega)).eq_of_length_le
      ((hs'.prefix_iff hs).mpr (by omega)).length_le
  subst hahead
  have htext : read ++ h.rest = read' ++ h'.rest := by
    have hboth := hs.text_eq.symm.trans hs'.text_eq
    rw [List.append_assoc, List.append_assoc] at hboth
    exact List.append_cancel_left hboth
  have hreads : some (h.value, h.rest) = some (h'.value, h'.rest) := by
    rw [← hs.reads, ← hs'.reads, htext]
  obtain ⟨hvalue, hrest⟩ := Prod.mk.inj (Option.some.inj hreads)
  have hread : read = read' := by
    rw [hrest] at htext
    exact List.append_cancel_right htext
  have hstop : h.stop = h'.stop := by rw [hs.stop_eq, hs'.stop_eq, hread]
  cases h
  cases h'
  simp_all

/-- What is read somewhere in a text is a reading of it. -/
theorem isReading_of_eq_some (hs : s = ahead ++ read ++ rest) (hne : read ≠ [])
    (hread : r ahead.getLast? (read ++ rest) = some (v, rest)) :
    IsReading r s ⟨byteLength ahead, byteLength (ahead ++ read), v, rest⟩ :=
  ⟨ahead, read,
    { text_eq := hs
      start_eq := by simp
      stop_eq := by simp
      read_ne := hne
      reads := by rw [ending?, Option.or_none, hread] }⟩

/-! ## Hits among the readings -/

theorem exists_over_of_standsIn (hr : Advances r) : ∀ (s : Text) (offset skip : Nat)
    (before : Option Char) (ahead : Text), StandsIn r offset before s h ahead read →
      skip ≤ ahead.length →
      ∃ h' ∈ Hit.collect r offset before skip s, h'.start ≤ h.start ∧ h.start < h'.stop := by
  intro s
  induction s with
  | nil =>
    intro offset skip before ahead hs _
    have hempty := hs.text_eq.symm
    simp [hs.read_ne] at hempty
  | cons c s ih =>
    intro offset skip before ahead hs hskip
    cases skip with
    | succ skip =>
      cases ahead with
      | nil => simp at hskip
      | cons d ahead =>
        rw [Hit.collect]
        exact ih _ _ _ _ hs.tail (Nat.le_of_succ_le_succ hskip)
    | zero =>
      rw [Hit.collect]
      split
      next hnone =>
        cases ahead with
        | nil =>
          have htext : c :: s = read ++ h.rest := by simpa using hs.text_eq
          have hreads := hs.reads
          rw [← htext, ending?_nil, hnone] at hreads
          cases hreads
        | cons d ahead => exact ih _ _ _ _ hs.tail (Nat.zero_le _)
      next v rest hread =>
        obtain ⟨u, hu, hsplit⟩ := hr _ _ _ _ hread
        have htake : (c :: s).take ((c :: s).length - rest.length) = u := by
          rw [hsplit, List.length_append, Nat.add_sub_cancel, List.take_left]
        dsimp only
        rw [htake]
        have hprefix : u <+: c :: s := ⟨rest, hsplit.symm⟩
        by_cases hover : byteLength ahead < byteLength u
        · -- the place lies in what is read here
          refine ⟨_, List.mem_cons_self, ?_, ?_⟩
          · show offset ≤ h.start
            rw [hs.start_eq]
            omega
          · show h.start < offset + byteLength u
            rw [hs.start_eq]
            omega
        · have hbehind : u <+: ahead :=
            (prefix_iff_byteLength_le hprefix hs.ahead_prefix).mpr (Nat.le_of_not_lt hover)
          cases ahead with
          | nil => exact absurd (List.prefix_nil.mp hbehind) hu
          | cons d ahead =>
            have hlength := hbehind.length_le
            rw [List.length_cons] at hlength
            obtain ⟨h', hmem, hover⟩ := ih _ (u.length - 1) _ _ hs.tail (by omega)
            exact ⟨h', List.mem_cons_of_mem _ hmem, hover⟩

/-- **No reading is lost**: a hit starts where a recogniser reads, or reaches over the place. -/
theorem exists_hit_over (hr : Advances r) (hh : IsReading r s h) :
    ∃ h' ∈ hits r s, h'.start ≤ h.start ∧ h.start < h'.stop := by
  obtain ⟨ahead, read, hs⟩ := hh
  exact exists_over_of_standsIn hr s 0 0 none ahead hs (Nat.zero_le _)

theorem isReading_of_mem_hits (hr : Advances r) (hmem : h ∈ hits r s) : IsReading r s h :=
  exists_standsIn hr hmem

theorem IsReading.start_lt_stop (hh : IsReading r s h) : h.start < h.stop := by
  obtain ⟨ahead, read, hs⟩ := hh
  exact hs.start_lt_stop

theorem IsReading.hit_eq (hh : IsReading r s h) (hh' : IsReading r s h')
    (hstart : h.start = h'.start) : h = h' := by
  obtain ⟨ahead, read, hs⟩ := hh
  obtain ⟨ahead', read', hs'⟩ := hh'
  exact hs.hit_eq hs' hstart

/-- A search that has characters to pass finds nothing in them. -/
theorem le_start_of_mem_collect : ∀ (s : Text) (offset skip : Nat) (before : Option Char),
    h ∈ Hit.collect r offset before skip s → offset + byteLength (s.take skip) ≤ h.start := by
  intro s
  induction s with
  | nil =>
    intro offset skip before hmem
    cases skip <;> cases hmem
  | cons c s ih =>
    intro offset skip before hmem
    cases skip with
    | succ skip =>
      have hle := ih _ skip _ (by simpa only [Hit.collect] using hmem)
      rw [List.take_succ_cons, byteLength_cons]
      omega
    | zero =>
      rw [Hit.collect] at hmem
      split at hmem
      next =>
        have hle := ih _ 0 _ hmem
        rw [List.take_zero, byteLength_nil] at hle ⊢
        omega
      next =>
        rcases List.mem_cons.mp hmem with heq | hmem
        · rw [heq, List.take_zero, byteLength_nil]
          exact Nat.le_refl _
        · have hle := ih _ _ _ hmem
          rw [List.take_zero, byteLength_nil]
          omega

theorem pairwise_collect : ∀ (s : Text) (offset skip : Nat) (before : Option Char),
    (Hit.collect r offset before skip s).Pairwise fun a b => a.stop ≤ b.start := by
  intro s
  induction s with
  | nil =>
    intro offset skip before
    cases skip <;> exact List.Pairwise.nil
  | cons c s ih =>
    intro offset skip before
    cases skip with
    | succ skip =>
      rw [Hit.collect]
      exact ih _ _ _
    | zero =>
      rw [Hit.collect]
      split
      next => exact ih _ _ _
      next v rest _ =>
        refine List.pairwise_cons.mpr ⟨?_, ih _ _ _⟩
        intro b hb
        have hle := le_start_of_mem_collect _ _ _ _ hb
        show offset + byteLength ((c :: s).take ((c :: s).length - rest.length)) ≤ b.start
        cases hlength : (c :: s).length - rest.length with
        | zero =>
          rw [List.take_zero, byteLength_nil]
          omega
        | succ n =>
          rw [hlength, List.take_succ_cons, List.length_cons, Nat.add_sub_cancel,
            List.length_take, ← List.take_eq_take_min] at hle
          rw [List.take_succ_cons, byteLength_cons]
          omega

/-- Hits are in order and do not overlap. -/
theorem pairwise_hits (r : Recogniser α) (s : Text) :
    (hits r s).Pairwise fun a b => a.stop ≤ b.start :=
  pairwise_collect s 0 0 none

theorem pairwise_start_hits (hr : Advances r) :
    (hits r s).Pairwise fun a b => a.start < b.start := by
  refine (pairwise_hits r s).imp_of_mem ?_
  intro a b ha _ hle
  have hlt := (isReading_of_mem_hits hr ha).start_lt_stop
  omega

/-- **The hits of a search** are the readings that no hit from further ahead reaches over. -/
theorem mem_hits_iff (hr : Advances r) : h ∈ hits r s ↔
    IsReading r s h ∧ ∀ h' ∈ hits r s, h'.start < h.start → h'.stop ≤ h.start := by
  constructor
  · intro hmem
    refine ⟨isReading_of_mem_hits hr hmem, ?_⟩
    intro h' hmem' hlt
    have hne : h' ≠ h := by
      rintro rfl
      exact Nat.lt_irrefl _ hlt
    have : Std.Symm fun a b : Hit α => a.stop ≤ b.start ∨ b.stop ≤ a.start :=
      ⟨fun _ _ => Or.symm⟩
    have hordered : (hits r s).Pairwise fun a b => a.stop ≤ b.start ∨ b.stop ≤ a.start :=
      (pairwise_hits r s).imp Or.inl
    rcases hordered.forall hmem' hmem hne with hle | hle
    · exact hle
    · have hlt' := (isReading_of_mem_hits hr hmem).start_lt_stop
      omega
  · intro hh
    obtain ⟨hreading, hclear⟩ := hh
    obtain ⟨h', hmem', hle, hover⟩ := exists_hit_over hr hreading
    have hstart : h'.start = h.start := by
      by_contra hne
      have hstop := hclear h' hmem' (by omega)
      omega
    rw [← (isReading_of_mem_hits hr hmem').hit_eq hreading hstart]
    exact hmem'

/-! ## The first reading -/

theorem firstHit?_isSome_iff (hr : Advances r) :
    (firstHit? r s).isSome ↔ ∃ h, IsReading r s h := by
  rw [firstHit?, Option.isSome_map, List.isSome_head?]
  constructor
  · intro hne
    obtain ⟨h, hmem⟩ := List.exists_mem_of_ne_nil _ hne
    exact ⟨h, isReading_of_mem_hits hr hmem⟩
  · intro hh
    obtain ⟨h, hreading⟩ := hh
    obtain ⟨h', hmem, -⟩ := exists_hit_over hr hreading
    exact List.ne_nil_of_mem hmem

/-- The first hit is the first reading. -/
theorem firstHit?_eq_some_iff (hr : Advances r) : firstHit? r s = some v ↔
    ∃ h, IsReading r s h ∧ h.value = v ∧ ∀ h', IsReading r s h' → h.start ≤ h'.start := by
  have hfirst {a b : Hit α} {l : List (Hit α)} (hl : hits r s = a :: l) (hb : b ∈ hits r s) :
      a.start ≤ b.start := by
    have hpairs := pairwise_hits r s
    rw [hl] at hpairs hb
    rcases List.mem_cons.mp hb with heq | hmem
    · rw [heq]
    · have hstop := (List.pairwise_cons.mp hpairs).1 b hmem
      have ha := (isReading_of_mem_hits hr (hl ▸ List.mem_cons_self (a := a))).start_lt_stop
      omega
  constructor
  · intro h
    obtain ⟨a, hhead, hvalue⟩ := Option.map_eq_some_iff.mp h
    obtain ⟨l, hl⟩ := List.head?_eq_some_iff.mp hhead
    refine ⟨a, isReading_of_mem_hits hr (List.mem_of_head? hhead), hvalue, ?_⟩
    intro b hb
    obtain ⟨b', hmem, hle, -⟩ := exists_hit_over hr hb
    exact Nat.le_trans (hfirst hl hmem) hle
  · intro h
    obtain ⟨a, ha, hvalue, hleast⟩ := h
    obtain ⟨b, hmem, -⟩ := exists_hit_over hr ha
    cases hl : hits r s with
    | nil =>
      rw [hl] at hmem
      cases hmem
    | cons a' l =>
      have ha' : IsReading r s a' :=
        isReading_of_mem_hits hr (hl ▸ List.mem_cons_self)
      obtain ⟨b, hmem, hle, -⟩ := exists_hit_over hr ha
      have hstart : a'.start = a.start :=
        Nat.le_antisymm (Nat.le_trans (hfirst hl hmem) hle) (hleast a' ha')
      rw [firstHit?, hl, List.head?_cons, Option.map_some, ha'.hit_eq ha hstart, hvalue]

/-! ## Readings that lie apart -/

/-- No reading of a text reaches over the start of another. -/
def ApartIn (r : Recogniser α) (s : Text) : Prop :=
  ∀ h h', IsReading r s h → IsReading r s h' → h.start < h'.start → h.stop ≤ h'.start

theorem ApartIn.stop_le_of_mem_hits (hr : Advances r) (ha : ApartIn r s) (hh : IsReading r s h) :
    ∀ h' ∈ hits r s, h'.start < h.start → h'.stop ≤ h.start := by
  intro h' hmem hlt
  exact ha h' h (isReading_of_mem_hits hr hmem) hh hlt

/-- Where readings lie apart the hits are the readings. -/
theorem ApartIn.mem_hits_iff (hr : Advances r) (ha : ApartIn r s) :
    h ∈ hits r s ↔ IsReading r s h := by
  rw [Text.mem_hits_iff hr, and_iff_left_iff_imp]
  exact ha.stop_le_of_mem_hits hr

/-- A reading that another one reaches over begins in what the other has read. -/
theorem StandsIn.inside (hs : StandsIn r offset before s h ahead read)
    (hs' : StandsIn r offset before s h' ahead' read') (hlt : h.start < h'.start)
    (hover : h'.start < h.stop) :
    ∃ a b, a ≠ [] ∧ b ≠ [] ∧ read = a ++ b ∧ read' ++ h'.rest = b ++ h.rest := by
  have hprefix : ahead ++ read <+: s := ⟨h.rest, hs.text_eq.symm⟩
  obtain ⟨a, rfl⟩ := (hs.prefix_iff hs').mpr (Nat.le_of_lt hlt)
  have hinside : ahead ++ a <+: ahead ++ read := by
    rw [hs'.start_eq, hs.stop_eq] at hover
    exact (prefix_iff_byteLength_le hs'.ahead_prefix hprefix).mpr (by omega)
  obtain ⟨b, rfl⟩ := (List.prefix_append_right_inj ahead).mp hinside
  refine ⟨a, b, ?_, ?_, rfl, ?_⟩
  · rintro rfl
    rw [hs.start_eq, hs'.start_eq, List.append_nil] at hlt
    exact Nat.lt_irrefl _ hlt
  · rintro rfl
    rw [hs'.start_eq, hs.stop_eq, List.append_nil] at hover
    exact Nat.lt_irrefl _ hover
  · have hboth := hs'.text_eq.symm.trans hs.text_eq
    simp only [List.append_assoc] at hboth
    exact List.append_cancel_left (List.append_cancel_left hboth)

/-- Readings lie apart if nothing is read behind the first character of what one has read. -/
theorem apartIn_of_unread
    (h : ∀ before read v rest, r before (read ++ rest) = some (v, rest) → Unread r read.tail) :
    ApartIn r s := by
  intro first second hfirst hsecond hlt
  obtain ⟨ahead, read, hs⟩ := hfirst
  obtain ⟨ahead', read', hs'⟩ := hsecond
  by_contra hover
  obtain ⟨a, b, ha, hb, hread, hrest⟩ := hs.inside hs' hlt (Nat.lt_of_not_le hover)
  obtain ⟨x, a, rfl⟩ := List.exists_cons_of_ne_nil ha
  have hsuffix : b <:+ read.tail := by
    rw [hread]
    exact List.suffix_append a b
  have hreads := hs'.reads
  rw [hrest, h _ _ _ _ hs.reads b hb hsuffix] at hreads
  cases hreads

end Text

end ModuleDocs

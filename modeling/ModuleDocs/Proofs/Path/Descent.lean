import ModuleDocs.Proofs.Store.Spelling

/-!
# Going down from a path

A walk spells the paths it meets by joining one entry name after another to the path
it started from: `descend`. Nothing is tidied on the way, but names are never fillers,
so the names can be read back from the components (`components_descend`), and the path
relative to the start is the names with a `/` between them (`relativeTo?_descend`).
-/

namespace ModuleDocs

namespace Text

variable {sep : Char}

theorem intercalate_concat {sep n : Text} {ns : List Text} (hne : ns ≠ []) :
    List.intercalate sep (ns ++ [n]) = List.intercalate sep ns ++ sep ++ n := by
  induction ns with
  | nil => exact absurd rfl hne
  | cons m ns ih =>
    cases ns with
    | nil => simp
    | cons k ns =>
      rw [List.cons_append, List.intercalate_cons_of_ne_nil (by simp), ih (List.cons_ne_nil k ns),
        List.intercalate_cons_cons]
      simp only [List.append_assoc]

theorem head?_intercalate {sep n : Text} {ns : List Text} (hn : n ≠ []) :
    (List.intercalate sep (n :: ns)).head? = n.head? := by
  cases n with
  | nil => exact absurd rfl hn
  | cons c r => cases ns <;> rfl

/-- Texts without the separator are told by their joined text. -/
theorem intercalate_inj {ns ms : List Text} (hns : ns ≠ []) (hms : ms ≠ [])
    (hn : ∀ n ∈ ns, sep ∉ n) (hm : ∀ n ∈ ms, sep ∉ n)
    (h : List.intercalate [sep] ns = List.intercalate [sep] ms) : ns = ms := by
  rw [← List.splitOn_intercalate sep hn hns, h, List.splitOn_intercalate sep hm hms]

end Text

/-- A name that an entry of a directory can have. -/
def IsEntryName (n : Text) : Prop := Component.ofSegment? n = some (.name n) ∧ '/' ∉ n

instance (n : Text) : Decidable (IsEntryName n) := inferInstanceAs (Decidable (_ ∧ _))

namespace IsEntryName

variable {n : Text}

theorem component (h : IsEntryName n) : Component.ofSegment? n = some (.name n) := h.1

theorem solid (h : IsEntryName n) : '/' ∉ n := h.2

theorem ne_nil (h : IsEntryName n) : n ≠ [] := by
  intro hn
  subst hn
  exact absurd h.component (by decide)

theorem ne_dot (h : IsEntryName n) : n ≠ ['.'] := by
  intro hn
  subst hn
  exact absurd h.component (by decide)

theorem ne_dots (h : IsEntryName n) : n ≠ ['.', '.'] := by
  intro hn
  subst hn
  exact absurd h.component (by decide)

theorem head?_ne (h : IsEntryName n) : n.head? ≠ some '/' := fun hh => h.solid (List.mem_of_head? hh)

theorem not_filler (h : IsEntryName n) : Path.isFiller n = false := by
  rw [Path.isFiller, h.component]
  rfl

end IsEntryName

namespace Path

variable {p q : Path} {n : Text} {ns ms : List Text}

/-! ## Segments and components -/

/-- The component that stands for where a path with these segments starts. -/
def lead (segs : List Text) : List Component :=
  if segs.head? = some ['.'] then [.current]
  else if segs.head? = some [] ∧ segs.tail ≠ [] then [.root]
  else []

/-- One more segment at the end changes nothing about the start. -/
theorem lead_concat {segs : List Text} {a : Text} (hne : segs ≠ []) (hnil : segs ≠ [[]]) :
    lead (segs ++ [a]) = lead segs := by
  cases segs with
  | nil => exact absurd rfl hne
  | cons b segs =>
    have hb : b = [] → segs ≠ [] := fun hb hs => hnil (by rw [hb, hs])
    simp only [lead, List.cons_append, List.head?_cons, List.tail_cons, Option.some.injEq, ne_eq,
      List.append_eq_nil_iff, List.cons_ne_self, and_false, not_false_eq_true, and_true]
    split
    · rfl
    · by_cases hb' : b = []
      · simp [hb', hb hb']
      · simp [hb']

theorem lead_concat_eq {segs : List Text} {a b : Text} (hne : segs ≠ []) :
    lead (segs ++ [a]) = lead (segs ++ [b]) := by
  cases segs with
  | nil => exact absurd rfl hne
  | cons c segs => simp [lead]

theorem components_eq (p : Path) :
    p.components = lead (p.text.splitOn '/') ++ core (p.text.splitOn '/') := by
  obtain ⟨t⟩ := p
  unfold components
  split
  · next r hr =>
    simp only at hr
    subst hr
    rw [List.splitOn_cons_eq_if_modifyHead, if_pos (beq_self_eq_true _)]
    simp [lead, core, Component.ofSegment?]
  · next hr =>
    simp only at hr ⊢
    split
    · next fs hfs => simp [hfs, lead, core, Component.ofSegment?]
    · next hfs =>
      have hlead : lead (t.splitOn '/') = [] := by
        cases t with
        | nil => rfl
        | cons c r =>
          have hc : c ≠ '/' := fun hc => hr r (by rw [hc])
          rw [List.splitOn_cons_eq_if_modifyHead, if_neg (by simpa using hc)] at hfs ⊢
          cases hf : r.splitOn '/' with
          | nil => exact absurd hf (List.splitOn_ne_nil _ _)
          | cons f fs =>
            rw [hf] at hfs
            have hdot : c :: f ≠ ['.'] := fun hdot => hfs fs (congrArg (· :: fs) hdot)
            simp [lead, hdot]
      rw [hlead]
      rfl

/-- The segments of a joined path: those of the path, but for an empty last one, and
the name. -/
theorem splitOn_join (hp : p.text ≠ []) (hn : IsEntryName n) :
    ∃ segs, List.splitOn '/' (p.join n).text = segs ++ [n] ∧
      (p.text.splitOn '/' = segs ∨ p.text.splitOn '/' = segs ++ [[]]) := by
  have hfn := List.splitOn_eq_singleton hn.solid
  rw [join, if_neg hn.head?_ne]
  split
  · next h =>
    rcases h with h | h
    · exact absurd h hp
    · obtain ⟨t, ht⟩ := List.getLast?_eq_some_iff.mp h
      refine ⟨t.splitOn '/', ?_, Or.inr ?_⟩
      · rw [ht, List.append_assoc, List.singleton_append, List.splitOn_append_cons_self, hfn]
      · rw [ht, List.splitOn_append_cons_self]
        rfl
  · exact ⟨p.text.splitOn '/', by rw [List.splitOn_append_cons_self, hfn], Or.inl rfl⟩

theorem core_singleton (hn : IsEntryName n) : core [n] = [.name n] := by
  rw [core, List.filterMap_cons_some hn.component, List.filterMap_nil]

/-- **A joined name is the last component.** -/
theorem components_join (p : Path) (hn : IsEntryName n) :
    (p.join n).components = p.components ++ [.name n] := by
  by_cases hp : p.text = []
  · have hj : p.join n = ⟨n⟩ := by
      rw [join, if_neg hn.head?_ne, if_pos (Or.inl hp), hp, List.nil_append]
    have hlead : lead [n] = [] := by simp [lead, hn.ne_dot]
    rw [hj, components_eq, components_eq, hp, List.splitOn_eq_singleton hn.solid,
      core_singleton hn, hlead]
    rfl
  · obtain ⟨segs, hj, hf⟩ := splitOn_join hp hn
    -- the segments start alike, and an empty one at the end stands for nothing
    have hstart : lead (segs ++ [n]) = lead (p.text.splitOn '/') := by
      have hnil : p.text.splitOn '/' ≠ [[]] := by
        intro h
        have hjoin : List.intercalate ['/'] (p.text.splitOn '/') = p.text :=
          List.intercalate_splitOn '/'
        rw [h] at hjoin
        exact hp hjoin.symm
      rcases hf with hf | hf
      · rw [hf] at hnil ⊢
        exact lead_concat (hf ▸ List.splitOn_ne_nil _ _) hnil
      · rw [hf] at hnil ⊢
        refine lead_concat_eq fun hs => hnil ?_
        rw [hs, List.nil_append]
    have hcore : core segs = core (p.text.splitOn '/') := by
      rcases hf with hf | hf
      · rw [hf]
      · rw [hf, core_append]
        simp [core, Component.ofSegment?]
    rw [components_eq, components_eq, hj, hstart, core_append, core_singleton hn, hcore,
      List.append_assoc]

theorem name?_join (p : Path) (hn : IsEntryName n) : (p.join n).name? = some n := by
  rw [name?, components_join p hn, List.getLast?_concat]

theorem isAbsolute_join (hp : p.text ≠ []) (hn : IsEntryName n) :
    (p.join n).isAbsolute = p.isAbsolute := by
  obtain ⟨c, r, hcr⟩ := List.exists_cons_of_ne_nil hp
  rw [join, if_neg hn.head?_ne, isAbsolute, isAbsolute, hcr]
  split <;> rfl

theorem text_join_ne_nil (p : Path) (hn : IsEntryName n) : (p.join n).text ≠ [] := by
  rw [join, if_neg hn.head?_ne]
  split <;> simp [hn.ne_nil]

/-- What is left of segments without the last one ends in no filler, if they did not. -/
theorem dropLastSegment?_concat {segs : List Text} {k : Text}
    (hlast : segs.getLast? = some k) (hk : isFiller k = false) (hn : IsEntryName n) :
    dropLastSegment? (segs ++ [n]).reverse = some segs := by
  obtain ⟨front, rfl⟩ := List.getLast?_eq_some_iff.mp hlast
  rw [dropLastSegment?, List.reverse_concat, List.dropWhile_cons_of_neg (by simp [hn.not_filler])]
  simp [hk]

/-- Without the joined name, a path is as it was, unless it ended in a filler. -/
theorem parent?_join {k : Text} (hlast : (p.text.splitOn '/').getLast? = some k)
    (hk : isFiller k = false) (hn : IsEntryName n) : (p.join n).parent? = some p := by
  obtain ⟨t⟩ := p
  have hnil : isFiller [] = true := rfl
  have ht : ¬ (t = [] ∨ t.getLast? = some '/') := by
    rintro (rfl | h)
    · rw [List.splitOn_nil, List.getLast?_singleton, Option.some.injEq] at hlast
      rw [← hlast, hnil] at hk
      cases hk
    · obtain ⟨front, rfl⟩ := List.getLast?_eq_some_iff.mp h
      rw [List.splitOn_append_cons_self, List.splitOn_nil, List.getLast?_concat,
        Option.some.injEq] at hlast
      rw [← hlast, hnil] at hk
      cases hk
  have hfields (r : Text) : List.splitOn '/' (r ++ '/' :: n) = r.splitOn '/' ++ [n] := by
    rw [List.splitOn_append_cons_self, List.splitOn_eq_singleton hn.solid]
  rw [join, if_neg hn.head?_ne, if_neg ht, parent?]
  split
  · next r hr =>
    -- the root in front is no segment
    cases t with
    | nil => exact absurd (Or.inl rfl) ht
    | cons c r' =>
      obtain ⟨rfl, htail⟩ := List.cons.inj hr
      have hr : r = r' ++ '/' :: n := htail.symm
      rw [List.splitOn_cons_eq_if_modifyHead, if_pos (beq_self_eq_true _),
        List.getLast?_cons_of_ne_nil (List.splitOn_ne_nil _ _)] at hlast
      rw [hr, hfields, dropLastSegment?_concat hlast hk hn, Option.map_some,
        List.intercalate_splitOn]
  · next hr =>
    dsimp only
    rw [hfields]
    split
    · next fs hfs =>
      cases hf : t.splitOn '/' with
      | nil => exact absurd hf (List.splitOn_ne_nil _ _)
      | cons f gs =>
        rw [hf, List.cons_append] at hfs
        obtain ⟨rfl, rfl⟩ := List.cons.inj hfs
        rw [hf] at hlast
        have hgs : gs ≠ [] := by
          rintro rfl
          rw [List.getLast?_singleton, Option.some.injEq] at hlast
          rw [← hlast] at hk
          exact absurd hk (by decide)
        rw [List.getLast?_cons_of_ne_nil hgs] at hlast
        rw [dropLastSegment?_concat hlast hk hn]
        dsimp only
        rw [← hf, List.intercalate_splitOn]
    · rw [dropLastSegment?_concat hlast hk hn, Option.map_some, List.intercalate_splitOn]

/-! ## Descending by names -/

/-- The path below `p` with the names of a list, one after the other. -/
def descend (p : Path) (ns : List Text) : Path := ns.foldl join p

@[simp] theorem descend_nil : p.descend [] = p := rfl

@[simp] theorem descend_cons : p.descend (n :: ns) = (p.join n).descend ns := rfl

@[simp] theorem descend_append : p.descend (ns ++ ms) = (p.descend ns).descend ms :=
  List.foldl_append

theorem components_descend (p : Path) (h : ∀ n ∈ ns, IsEntryName n) :
    (p.descend ns).components = p.components ++ ns.map .name := by
  induction ns generalizing p with
  | nil => simp
  | cons n ns ih =>
    rw [descend_cons, ih _ fun m hm => h m (List.mem_cons_of_mem _ hm),
      components_join p (h n List.mem_cons_self), List.append_assoc]
    rfl

theorem name?_descend (p : Path) (ns : List Text) (hn : IsEntryName n) :
    (p.descend (ns ++ [n])).name? = some n := by
  rw [descend_append, descend_cons, descend_nil, name?_join _ hn]

/-- Names are told by the path they lead to. -/
theorem descend_inj (hns : ∀ n ∈ ns, IsEntryName n) (hms : ∀ n ∈ ms, IsEntryName n)
    (h : (p.descend ns).components = (p.descend ms).components) : ns = ms := by
  rw [components_descend p hns, components_descend p hms, List.append_cancel_left_eq] at h
  exact List.map_injective_iff.mpr (fun _ _ => Component.name.inj) h

theorem below?_descend (h : ∀ n ∈ ns, IsEntryName n) :
    below? p (p.descend ns) = some (ns.map .name) := by
  rw [below?, components_descend p h]
  simp

theorem relativeTo?_descend (h : ∀ n ∈ ns, IsEntryName n) :
    relativeTo? p (p.descend ns) = some (List.intercalate ['/'] ns) := by
  have htext : (ns.map .name).map Component.text = ns := by
    rw [List.map_map]
    exact List.map_id ns
  rw [relativeTo?, below?_descend h, Option.map_some, htext]

/-- Above a path with names below another one is the path without the last of them. -/
theorem parent?_descend (hne : ns ≠ []) (h : ∀ m ∈ ns ++ [n], IsEntryName m) :
    (p.descend (ns ++ [n])).parent? = some (p.descend ns) := by
  obtain ⟨front, k, rfl⟩ := (List.eq_nil_or_concat ns).resolve_left hne
  rw [List.concat_eq_append] at h ⊢
  have hk : IsEntryName k := h k (by simp)
  have hlast : p.descend (front ++ [k]) = (p.descend front).join k := by simp
  rw [descend_append, hlast, descend_cons, descend_nil]
  refine parent?_join ?_ hk.not_filler (h n (by simp))
  by_cases hp : (p.descend front).text = []
  · rw [join, if_neg hk.head?_ne, if_pos (Or.inl hp), hp, List.nil_append,
      List.splitOn_eq_singleton hk.solid, List.getLast?_singleton]
  · obtain ⟨segs, hsegs, -⟩ := splitOn_join hp hk
    rw [hsegs, List.getLast?_concat]

/-- A name and what is below it may be joined at once. -/
theorem join_join {t : Text} (hn : IsEntryName n) (ht : t.head? ≠ some '/') :
    (p.join n).join t = p.join (n ++ '/' :: t) := by
  obtain ⟨l, c, hlc⟩ := List.eq_nil_or_concat n |>.resolve_left hn.ne_nil
  have hc : c ≠ '/' := fun hc => hn.solid (by simp [hlc, hc])
  have hlast : (p.join n).text.getLast? ≠ some '/' := by
    rw [join, if_neg hn.head?_ne, hlc]
    split
    · simpa [← List.append_assoc] using hc
    · have happend : p.text ++ '/' :: l.concat c = (p.text ++ '/' :: l) ++ [c] := by simp
      simpa only [happend, List.getLast?_concat, ne_eq, Option.some.injEq] using hc
  have hend : ¬ ((p.join n).text = [] ∨ (p.join n).text.getLast? = some '/') := by
    simp [hlast, text_join_ne_nil p hn]
  have hhead : (n ++ '/' :: t).head? ≠ some '/' := by
    rw [List.head?_append_of_ne_nil _ hn.ne_nil]
    exact hn.head?_ne
  rw [join, if_neg ht, if_neg hend, join, if_neg hn.head?_ne, join, if_neg hhead]
  split <;> simp

/-- Names joined by `/` lead where they lead one by one. -/
theorem join_intercalate (hne : ns ≠ []) (h : ∀ n ∈ ns, IsEntryName n) :
    p.join (List.intercalate ['/'] ns) = p.descend ns := by
  induction ns generalizing p with
  | nil => exact absurd rfl hne
  | cons n ns ih =>
    have hn := h n List.mem_cons_self
    cases ns with
    | nil => rw [List.intercalate_singleton, descend_cons, descend_nil]
    | cons m ns =>
      have hm := h m (by simp)
      have hhead : (List.intercalate ['/'] (m :: ns)).head? ≠ some '/' := by
        rw [Text.head?_intercalate hm.ne_nil]
        exact hm.head?_ne
      rw [List.intercalate_cons_of_ne_nil (by simp), List.append_assoc, List.singleton_append,
        ← join_join hn hhead, ih (by simp) fun k hk => h k (List.mem_cons_of_mem _ hk)]
      rfl

end Path

end ModuleDocs

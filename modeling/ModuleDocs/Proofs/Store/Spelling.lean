import ModuleDocs.Proofs.Store.Overwrite

/-!
# Spellings of one path

Paths compare by their components, so `docs/a.md` and `docs//./a.md` are one key.
The store resolves a path segment by segment as it is spelled, and a spelling
can fail where another one does not: `docs/a.md/` denotes nothing if `docs/a.md`
is a file. But two spellings never lead to different places:

> `canonical?_unique`: paths with the same components that denote a location
> denote the same one.

Both spellings pass the same names in the same order, and a name leads on from a
directory in one way (`next?`), so the argument follows the two of them side by
side.
-/

namespace ModuleDocs

namespace Path

/-- The components that segments stand for. -/
def core (segs : List Text) : List Component := segs.filterMap Component.ofSegment?

theorem core_append (a b : List Text) : core (a ++ b) = core a ++ core b := List.filterMap_append

/-- Segments stand for parents and names only. -/
theorem ofSegment?_ne {seg : Text} {c : Component} (h : Component.ofSegment? seg = some c) :
    c ≠ .root ∧ c ≠ .current := by
  unfold Component.ofSegment? at h
  split at h
  · cases h
  · split at h <;> cases h <;> simp

/-- A segment is spelled as the component it stands for. -/
theorem text_of_ofSegment? {seg : Text} {c : Component} (h : Component.ofSegment? seg = some c) :
    c.text = seg := by
  unfold Component.ofSegment? at h
  split at h
  · cases h
  · split at h
    · next hseg =>
      cases h
      exact hseg.symm
    · cases h
      rfl

/-- Whether a component stands for a segment that leads somewhere. -/
def isStep : Component → Bool
  | .root => false
  | .current => false
  | _ => true

theorem filter_core (segs : List Text) : (core segs).filter isStep = core segs := by
  rw [List.filter_eq_self]
  intro c hc
  obtain ⟨seg, _, hseg⟩ := List.mem_filterMap.mp hc
  obtain ⟨hroot, hcur⟩ := ofSegment?_ne hseg
  cases c with
  | root => exact absurd rfl hroot
  | current => exact absurd rfl hcur
  | parent => rfl
  | name n => rfl

theorem head?_core_ne_root (segs : List Text) : (core segs).head? ≠ some .root := by
  intro h
  obtain ⟨seg, _, hseg⟩ := List.mem_filterMap.mp (List.mem_of_head? h)
  exact (ofSegment?_ne hseg).1 rfl

/-- The components of a path are those its segments stand for, behind a root or
a leading dot. -/
theorem components_cases (p : Path) :
    (p.isAbsolute = true ∧ p.components = .root :: core (p.text.splitOn '/')) ∨
    (p.isAbsolute = false ∧ (p.components = core (p.text.splitOn '/') ∨
      p.components = .current :: core (p.text.splitOn '/'))) := by
  obtain ⟨t⟩ := p
  unfold components isAbsolute
  split
  · next r hr =>
    simp only at hr
    subst hr
    left
    exact ⟨by simp, by simp [List.splitOn_cons_eq_if_modifyHead, core, Component.ofSegment?]⟩
  · next hr =>
    right
    refine ⟨?_, ?_⟩
    · cases t with
      | nil => rfl
      | cons c r =>
        have hc : c ≠ '/' := fun hc => hr r (by rw [hc])
        simpa using hc
    · split
      · next fs hfs =>
        right
        simp only at hfs
        simp [hfs, core, Component.ofSegment?]
      · exact Or.inl rfl

/-- Paths with the same components start alike and pass the same segments. -/
theorem core_eq_of_components_eq {p q : Path} (h : p.components = q.components) :
    p.isAbsolute = q.isAbsolute ∧
      core (p.text.splitOn '/') = core (q.text.splitOn '/') := by
  have habs (p : Path) : p.isAbsolute = (p.components.head? == some .root) := by
    rcases components_cases p with ⟨ha, hc⟩ | ⟨ha, hc | hc⟩
    · rw [ha, hc]
      rfl
    · rw [ha, hc]
      simpa using (head?_core_ne_root _)
    · rw [ha, hc]
      rfl
  have hcore (p : Path) : core (p.text.splitOn '/') = p.components.filter isStep := by
    rcases components_cases p with ⟨_, hc⟩ | ⟨_, hc | hc⟩
    · rw [hc, List.filter_cons_of_neg (by simp [isStep]), filter_core]
    · rw [hc, filter_core]
    · rw [hc, List.filter_cons_of_neg (by simp [isStep]), filter_core]
  rw [habs p, habs q, hcore p, hcore q, h]
  exact ⟨rfl, rfl⟩

end Path

namespace Store

open ModuleDocs.Path

variable {s : Store} {loc l l' : Location} {seg : Text} {rest : List Text}

/-- Where a segment leads from a directory: the links that may still be followed,
the location to go on from, and the segments to go on with before the rest. -/
def next? (s : Store) (links : Nat) (loc : Location) (seg : Text) :
    Option (Nat × Location × List Text) :=
  if seg = ['.', '.'] then some (links, loc.dropLast, [])
  else
    match s.node? (loc ++ [seg]) with
    | none => none
    | some (.link target) =>
      match links with
      | 0 => none
      | left + 1 => some (left, if target.isAbsolute then [] else loc, target.text.splitOn '/')
    | some _ => some (links, loc ++ [seg], [])

/-- A segment uses up a link or nothing is put in its place. -/
theorem next?_decreases {links links' : Nat} {loc' : Location} {front : List Text}
    (h : next? s links loc seg = some (links', loc', front)) :
    links' < links ∨ (links' = links ∧ front = []) := by
  unfold next? at h
  split at h
  · cases h
    exact Or.inr ⟨rfl, rfl⟩
  · split at h
    · cases h
    · split at h
      · cases h
      · cases h
        exact Or.inl (Nat.lt_succ_self _)
    · cases h
      exact Or.inr ⟨rfl, rfl⟩

/-- Where a segment leads does not depend on how many links may still be followed. -/
theorem next?_unique {links links' k k' : Nat} {front front' : List Text}
    (h : next? s links loc seg = some (k, l, front))
    (h' : next? s links' loc seg = some (k', l', front')) : l = l' ∧ front = front' := by
  rw [next?] at h h'
  by_cases hup : seg = ['.', '.']
  · rw [if_pos hup] at h h'
    cases h
    cases h'
    exact ⟨rfl, rfl⟩
  · rw [if_neg hup] at h h'
    cases hnode : s.node? (loc ++ [seg]) with
    | none =>
      rw [hnode] at h
      cases h
    | some node =>
      rw [hnode] at h h'
      cases node with
      | link target =>
        cases links with
        | zero => cases h
        | succ left =>
          cases links' with
          | zero => cases h'
          | succ left' =>
            cases h
            cases h'
            exact ⟨rfl, rfl⟩
      | file | directory =>
        cases h
        cases h'
        exact ⟨rfl, rfl⟩

theorem follow_filler {links : Nat} {place : Place} (hseg : Component.ofSegment? seg = none)
    (h : follow s false links loc (seg :: rest) = .ok place) :
    follow s false links loc rest = .ok place := by
  have hfill : seg = [] ∨ seg = ['.'] := by
    unfold Component.ofSegment? at hseg
    split at hseg
    · assumption
    · split at hseg <;> cases hseg
  rw [follow] at h
  split at h
  · cases h
  · cases h
  · cases h
  · simpa only [hfill, if_true] using h

theorem follow_step {links : Nat} {c : Component} (hseg : Component.ofSegment? seg = some c)
    (h : follow s false links loc (seg :: rest) = .ok (.at l)) :
    ∃ links' loc' front, next? s links loc seg = some (links', loc', front) ∧
      follow s false links' loc' (front ++ rest) = .ok (.at l) := by
  have hfill : ¬ (seg = [] ∨ seg = ['.']) := by
    intro hf
    simp [Component.ofSegment?, hf] at hseg
  rw [follow] at h
  split at h
  · cases h
  · cases h
  · cases h
  · simp only [hfill, if_false] at h
    by_cases hup : seg = ['.', '.']
    · rw [if_pos hup] at h
      exact ⟨_, _, _, by rw [next?, if_pos hup], h⟩
    · rw [if_neg hup] at h
      cases hnext : s.node? (loc ++ [seg]) with
      | none =>
        rw [hnext] at h
        simp only at h
        split at h <;> cases h
      | some n =>
        rw [hnext] at h
        cases n with
        | link target =>
          cases links with
          | zero => simp at h
          | succ left =>
            simp only [Bool.false_eq_true, false_and, if_false] at h
            exact ⟨_, _, _, by rw [next?, if_neg hup, hnext], h⟩
        | file b => exact ⟨_, _, _, by rw [next?, if_neg hup, hnext], h⟩
        | directory => exact ⟨_, _, _, by rw [next?, if_neg hup, hnext], h⟩

/-- Segments that lead to a location stay where they are, if they stand for
nothing, or go on with the first component they stand for. -/
theorem follow_cases {links : Nat} {segs : List Text}
    (h : follow s false links loc segs = .ok (.at l)) :
    (core segs = [] ∧ l = loc) ∨
    ∃ c rest links' loc' front, core segs = c :: core rest ∧
      next? s links loc c.text = some (links', loc', front) ∧
      follow s false links' loc' (front ++ rest) = .ok (.at l) := by
  induction segs with
  | nil =>
    rw [follow] at h
    cases h
    exact Or.inl ⟨rfl, rfl⟩
  | cons seg rest ih =>
    cases hs : Component.ofSegment? seg with
    | none =>
      have hcore : core (seg :: rest) = core rest := List.filterMap_cons_none hs
      rw [hcore]
      exact ih (follow_filler hs h)
    | some c =>
      obtain ⟨links', loc', front, hn, hf⟩ := follow_step hs h
      rw [← text_of_ofSegment? hs] at hn
      exact Or.inr ⟨c, rest, links', loc', front, List.filterMap_cons_some hs, hn, hf⟩

/-- Segments that stand for the same components lead to one place, if they lead to
one at all, however many links may be followed. The induction is on the links left, then on
the components. -/
theorem follow_unique (links links' : Nat) (segs segs' : List Text) (loc : Location)
    (hcore : core segs = core segs') (h : follow s false links loc segs = .ok (.at l))
    (h' : follow s false links' loc segs' = .ok (.at l')) : l = l' := by
  rcases follow_cases h with ⟨hnil, rfl⟩ | ⟨c, rest, links₁, loc₁, front, hc, hn, hf⟩
  · rcases follow_cases h' with ⟨_, rfl⟩ | ⟨c', rest', _, _, _, hc', _, _⟩
    · rfl
    · rw [← hcore, hnil] at hc'
      cases hc'
  · rcases follow_cases h' with ⟨hnil, _⟩ | ⟨c', rest', links₂, loc₂, front₂, hc', hn₂, hf₂⟩
    · rw [hcore, hnil] at hc
      cases hc
    · rw [← hcore, hc] at hc'
      obtain ⟨rfl, hrest⟩ := List.cons.inj hc'
      obtain ⟨rfl, rfl⟩ := next?_unique hn hn₂
      have hcore' : core (front ++ rest) = core (front ++ rest') := by
        rw [core_append, core_append, hrest]
      have hdec : links₁ < links ∨
          (links₁ = links ∧ (core (front ++ rest)).length < (core segs).length) := by
        rcases next?_decreases hn with hlt | ⟨hlinks, hfront⟩
        · exact Or.inl hlt
        · exact Or.inr ⟨hlinks, by rw [hfront, hc]; simp⟩
      exact follow_unique links₁ links₂ (front ++ rest) (front ++ rest') loc₁ hcore' hf hf₂
  termination_by (links, (core segs).length)
  decreasing_by
    rcases hdec with hlt | ⟨heq, hlt⟩
    · exact Prod.Lex.left _ _ hlt
    · rw [heq]
      exact Prod.Lex.right _ hlt

/-- **Spellings of one path denote one place**, those that denote any. -/
theorem canonical?_unique {p q : Path} (hpq : p.components = q.components)
    (hp : s.canonical? p = some l) (hq : s.canonical? q = some l') : l = l' := by
  obtain ⟨habs, hcore⟩ := core_eq_of_components_eq hpq
  have hfollow {p : Path} {l : Location} (h : s.canonical? p = some l) :
      follow s false linkLimit (if p.isAbsolute then [] else s.home) (p.text.splitOn '/') =
        .ok (.at l) := by
    unfold canonical? resolve at h
    split at h
    · next l' h' =>
      cases h
      split at h'
      · cases h'
      · exact h'
    · cases h
  have hp' := hfollow hp
  rw [habs] at hp'
  exact follow_unique linkLimit linkLimit _ _ _ hcore hp' (hfollow hq)

/-- Spellings of one path read one text, those that read any. -/
theorem readText_unique {p q : Path} {t t' : Text} (hpq : p.components = q.components)
    (hp : s.readText p = .ok t) (hq : s.readText q = .ok t') : t = t' := by
  obtain ⟨l, hl, ht⟩ := readText_eq_ok_iff.mp hp
  obtain ⟨l', hl', ht'⟩ := readText_eq_ok_iff.mp hq
  rw [canonical?_unique hpq hl hl', ht'] at ht
  cases ht
  rfl

end Store

end ModuleDocs

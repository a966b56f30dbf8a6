import Mathlib.Data.List.Basic
import ModuleDocs.Store

/-!
# Writing over files

A store whose files hold other bytes is still the same tree of directories and
links: `SameLayout`. Every path is resolved alike in it (`follow_eq`), so what a
path denotes does not depend on what was written before.

`write` over a file keeps the layout and changes the one location the path
denotes. A list of such writes is followed in `overwrite_spec`: a location holds
what was last written to it, and what it held if nothing was.
-/

namespace ModuleDocs

namespace Store

variable {s s' s'' : Store} {loc l : Location} {p q : Path}

/-! ## The layout of a store -/

/-- The stores differ in the contents of files at most. -/
structure SameLayout (s s' : Store) : Prop where
  home : s'.home = s.home
  node : ∀ loc, s'.node? loc = s.node? loc ∨
    ∃ b b', s.node? loc = some (.file b) ∧ s'.node? loc = some (.file b')

theorem SameLayout.refl (s : Store) : SameLayout s s := ⟨rfl, fun _ => Or.inl rfl⟩

theorem SameLayout.trans (h : SameLayout s s') (h' : SameLayout s' s'') : SameLayout s s'' := by
  refine ⟨h'.home.trans h.home, fun loc => ?_⟩
  rcases h.node loc with he | ⟨b, b', hb, hb'⟩
  · rw [← he]
    exact h'.node loc
  · rcases h'.node loc with he | ⟨c, c', _, hc'⟩
    · exact Or.inr ⟨b, b', hb, he.trans hb'⟩
    · exact Or.inr ⟨b, c', hb, hc'⟩

/-- What is not a file is the same. -/
theorem SameLayout.node_eq (h : SameLayout s s') {n : Option Node} (hn : s.node? loc = n)
    (hf : ∀ b, n ≠ some (.file b)) : s'.node? loc = n := by
  rcases h.node loc with he | ⟨b, _, hb, _⟩
  · rw [he, hn]
  · exact absurd (hn.symm.trans hb) (hf b)

theorem SameLayout.node_file (h : SameLayout s s') {b : ByteArray}
    (hb : s.node? loc = some (.file b)) : ∃ b', s'.node? loc = some (.file b') := by
  rcases h.node loc with he | ⟨_, b', _, hb'⟩
  · exact ⟨b, he.trans hb⟩
  · exact ⟨b', hb'⟩

/-- **Paths are resolved alike** in stores of one layout. -/
theorem follow_eq (h : SameLayout s s') {keepLast : Bool} {links : Nat} {segs : List Text} :
    follow s' keepLast links loc segs = follow s keepLast links loc segs := by
  -- a step asks what is here and what the next name is, never what a file holds
  fun_induction follow s keepLast links loc segs with
  | case1 => rw [follow]
  | case2 _ loc _ _ hnode =>
    rw [follow, h.node_eq hnode (by simp)]
  | case3 _ loc _ _ _ hnode =>
    obtain ⟨b', hb'⟩ := h.node_file hnode
    rw [follow, hb']
  | case4 _ loc _ _ _ hnode =>
    rw [follow, h.node_eq hnode (by simp)]
  | case5 _ loc _ _ hnode hseg ih =>
    rw [follow, h.node_eq hnode (by simp)]
    simp only [hseg, if_true, ih]
  | case6 _ loc _ hnode hseg ih =>
    rw [follow, h.node_eq hnode (by simp)]
    simp only [hseg, if_false, if_true, ih]
  | case7 _ loc _ hnode hseg hup hnext =>
    rw [follow, h.node_eq hnode (by simp)]
    simp only [hseg, hup, if_false, if_true, h.node_eq hnext (by simp)]
  | case8 _ loc _ _ hnode hseg hup hnext hrest =>
    rw [follow, h.node_eq hnode (by simp)]
    simp only [hseg, hup, hrest, if_false, h.node_eq hnext (by simp)]
  | case9 _ loc _ _ hnode hseg hup _ hnext hlast =>
    rw [follow, h.node_eq hnode (by simp)]
    simp only [hseg, hup, hlast, if_false, and_self, if_true, h.node_eq hnext (by simp)]
  | case10 loc _ _ hnode hseg hup _ hnext hlast =>
    rw [follow, h.node_eq hnode (by simp)]
    simp only [hseg, hup, hlast, if_false, h.node_eq hnext (by simp)]
  | case11 loc _ _ hnode hseg hup _ hnext hlast _ ih =>
    rw [follow, h.node_eq hnode (by simp)]
    simp only [hseg, hup, hlast, if_false, h.node_eq hnext (by simp)]
    exact ih
  | case12 _ loc seg _ hnode hseg hup val hval hnext ih =>
    rw [follow, h.node_eq hnode (by simp)]
    simp only [hseg, hup, if_false]
    cases val with
    | link target => exact absurd rfl (hval target)
    | directory =>
      simp only [h.node_eq hnext (by simp), ih]
    | file b =>
      obtain ⟨b', hb'⟩ := h.node_file hnext
      simp only [hb', ih]

theorem resolve_eq (h : SameLayout s s') (p : Path) : s'.resolve p = s.resolve p := by
  simp only [resolve, follow_eq h, h.home]

theorem canonical?_eq (h : SameLayout s s') (p : Path) : s'.canonical? p = s.canonical? p := by
  rw [canonical?, canonical?, resolve_eq h]

/-! ## Reading a file -/

/-- The text of the file at a location. -/
def textAt? (s : Store) (loc : Location) : Option Text :=
  match s.node? loc with
  | some (.file b) => Text.decode? b
  | _ => none

theorem canonical?_eq_some_iff : s.canonical? p = some loc ↔ s.resolve p = .ok (.at loc) := by
  rw [canonical?]
  split
  · next l h => simp [h]
  · next h =>
    constructor
    · intro h'
      cases h'
    · intro h'
      exact absurd h' (h loc)

theorem isFile_iff :
    s.isFile p = true ↔ ∃ loc b, s.canonical? p = some loc ∧ s.node? loc = some (.file b) := by
  rw [isFile, lookup?]
  cases hc : s.canonical? p with
  | none => simp
  | some loc =>
    rw [Option.bind_some]
    split
    · next b hb => exact ⟨fun _ => ⟨loc, b, rfl, hb⟩, fun _ => rfl⟩
    · next hf =>
      refine ⟨fun h => absurd h (by simp), ?_⟩
      intro h
      obtain ⟨_, b, hl, hb⟩ := h
      cases hl
      exact absurd hb (hf b)

theorem isFile_eq (h : SameLayout s s') (p : Path) : s'.isFile p = s.isFile p := by
  rw [Bool.eq_iff_iff, isFile_iff, isFile_iff, canonical?_eq h]
  refine exists_congr fun loc => ?_
  rcases h.node loc with he | ⟨b, b', hb, hb'⟩
  · rw [he]
  · simp [hb, hb']

/-- What a path reads is the text of the file it denotes. -/
theorem readText_eq_ok_iff {t : Text} :
    s.readText p = .ok t ↔ ∃ loc, s.canonical? p = some loc ∧ s.textAt? loc = some t := by
  simp only [canonical?_eq_some_iff, readText, read, textAt?, bind, Except.bind]
  cases hr : s.resolve p with
  | error e => simp
  | ok place =>
    cases place with
    | missing dir name => simp
    | «at» loc =>
      simp only [Except.ok.injEq, Place.at.injEq, exists_eq_left']
      cases s.node? loc with
      | none => simp
      | some n =>
        cases n with
        | file b => cases hd : Text.decode? b <;> simp [hd]
        | directory => simp
        | link target => simp

theorem textAt?_some_file {t : Text} (h : s.textAt? loc = some t) :
    ∃ b, s.node? loc = some (.file b) := by
  rw [textAt?] at h
  split at h
  · next b hb => exact ⟨b, hb⟩
  · cases h

/-! ## Writing over a file -/

theorem node?_setNode {n : Node} (hloc : loc ≠ []) :
    (s.setNode loc n).node? l = if l = loc then some n else s.node? l := by
  by_cases hl : l = []
  · subst hl
    rw [if_neg (Ne.symm hloc), node?, node?]
    rfl
  · rw [node?, if_neg hl, node?, if_neg hl, setNode]
    split
    · next hany =>
      -- the node keeps its place in the list
      have hkey : (fun e : Location × Node => decide (e.1 = l)) ∘
          (fun e => if e.1 = loc then (loc, n) else e) = fun e => decide (e.1 = l) := by
        funext e
        simp only [Function.comp]
        split
        · next he => rw [he]
        · rfl
      rw [List.find?_map, hkey, Option.map_map]
      cases hf : s.nodes.find? fun e => decide (e.1 = l) with
      | none =>
        rw [if_neg]
        · rfl
        · intro heq
          subst heq
          rw [List.find?_eq_none] at hf
          obtain ⟨e, he, hel⟩ := List.any_eq_true.mp hany
          exact hf e he hel
      | some e =>
        have hel : e.1 = l := by simpa using List.find?_some hf
        simp only [Option.map_some, Function.comp, hel]
        split <;> rfl
    · next hany =>
      -- the node is a new one at the end
      have habsent : ∀ e ∈ s.nodes, e.1 ≠ loc := fun e he hel =>
        hany (List.any_eq_true.mpr ⟨e, he, by simpa using hel⟩)
      rw [List.find?_append]
      by_cases hll : l = loc
      · have hnone : s.nodes.find? (fun e => decide (e.1 = l)) = none := by
          rw [List.find?_eq_none]
          intro e he
          simpa [hll] using habsent e he
        rw [hnone]
        simp [hll]
      · simp [hll, Ne.symm hll]

theorem ne_nil_of_file {b : ByteArray} (h : s.node? loc = some (.file b)) : loc ≠ [] := by
  intro heq
  subst heq
  simp [node?] at h

theorem sameLayout_setNode {b c : ByteArray} (h : s.node? loc = some (.file b)) :
    SameLayout s (s.setNode loc (.file c)) := by
  refine ⟨?_, fun l => ?_⟩
  · rw [setNode]
    split <;> rfl
  · rw [node?_setNode (ne_nil_of_file h)]
    split
    · next hl => exact Or.inr ⟨b, c, by rw [hl, h], rfl⟩
    · exact Or.inl rfl

theorem write_of_file {b c : ByteArray} (hp : s.canonical? p = some loc)
    (hb : s.node? loc = some (.file b)) : s.write p c = .ok (s.setNode loc (.file c)) := by
  rw [write, canonical?_eq_some_iff.mp hp]
  simp only [bind, Except.bind, hb]

/-! ## Writing over several files -/

/-- The last file of a list that is written to a location. -/
def lastWritten (s : Store) (loc : Location) (files : List (Path × Text)) : Option (Path × Text) :=
  files.reverse.find? fun f => s.canonical? f.1 = some loc

theorem lastWritten_cons {f : Path × Text} {files : List (Path × Text)} :
    lastWritten s loc (f :: files) =
      (lastWritten s loc files).or (if s.canonical? f.1 = some loc then some f else none) := by
  rw [lastWritten, List.reverse_cons, List.find?_append, ← lastWritten, List.find?_singleton]
  simp

theorem mem_of_lastWritten {files : List (Path × Text)} {f : Path × Text}
    (h : lastWritten s loc files = some f) : f ∈ files ∧ s.canonical? f.1 = some loc :=
  ⟨List.mem_reverse.mp (List.mem_of_find?_eq_some h), by simpa using List.find?_some h⟩

theorem lastWritten_eq_none_iff {files : List (Path × Text)} :
    lastWritten s loc files = none ↔ ∀ f ∈ files, s.canonical? f.1 ≠ some loc := by
  simp [lastWritten]

/-- **Writing over files** succeeds, keeps the layout, and leaves at every location
what was last written to it. -/
theorem overwrite_spec {files : List (Path × Text)} (h : ∀ f ∈ files, s.isFile f.1 = true) :
    ∃ s', files.foldlM (fun (s : Store) f => s.write f.1 (Text.encode f.2)) s = .ok s' ∧
      SameLayout s s' ∧ ∀ loc, s'.node? loc =
        match lastWritten s loc files with
        | some f => some (.file (Text.encode f.2))
        | none => s.node? loc := by
  induction files generalizing s with
  | nil => exact ⟨s, rfl, SameLayout.refl s, fun _ => rfl⟩
  | cons f files ih =>
    obtain ⟨loc, b, hc, hb⟩ := isFile_iff.mp (h f (by simp))
    have hlay : SameLayout s (s.setNode loc (.file (Text.encode f.2))) := sameLayout_setNode hb
    have hfiles : ∀ g ∈ files, (s.setNode loc (.file (Text.encode f.2))).isFile g.1 = true := by
      intro g hg
      obtain ⟨l, bl, hcl, hbl⟩ := isFile_iff.mp (h g (by simp [hg]))
      obtain ⟨bl', hbl'⟩ := hlay.node_file hbl
      exact isFile_iff.mpr ⟨l, bl', by rw [canonical?_eq hlay, hcl], hbl'⟩
    -- the rest is written over the store that the first write leaves
    obtain ⟨s', hs', hlay', hnode⟩ := ih hfiles
    refine ⟨s', ?_, hlay.trans hlay', fun l => ?_⟩
    · rw [List.foldlM_cons, write_of_file hc hb]
      exact hs'
    · have hlast : lastWritten (s.setNode loc (.file (Text.encode f.2))) l files =
          lastWritten s l files := by
        simp only [lastWritten, canonical?_eq hlay]
      rw [hnode l, hlast, lastWritten_cons, hc]
      cases lastWritten s l files with
      | some g => rfl
      | none =>
        simp only [Option.none_or, Option.some.injEq]
        rw [node?_setNode (ne_nil_of_file hb)]
        by_cases hl : l = loc
        · simp [hl]
        · simp [hl, Ne.symm hl]

end Store

end ModuleDocs

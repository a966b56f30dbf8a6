import Mathlib.Data.List.Induction
import Mathlib.Data.List.Nodup
import ModuleDocs.Proofs.Path.Descent
import ModuleDocs.Proofs.Store.Overwrite
import ModuleDocs.Store.Walk

/-!
# Stores that are trees

A file system keeps its nodes in a tree: every location holds one node, under names that
can be spelled, in a directory (`IsTree`). In a part of it without links a path means
what it says: where `p` denotes a directory, `p.descend ns` denotes the location with the
names `ns` below it (`canonical?_descend`). Links elsewhere do no harm, so the way to `p`
may well pass some.
-/

namespace ModuleDocs

namespace Store

open ModuleDocs.Path

variable {s : Store} {loc l base : Location} {n : Text} {ns : List Text} {p q : Path} {node : Node}

/-! ## Nodes and their parents -/

/-- The nodes of a store form a tree. -/
structure IsTree (s : Store) : Prop where
  /-- A location holds one node. -/
  nodup : (s.nodes.map Prod.fst).Nodup
  named : ∀ e ∈ s.nodes, ∀ n ∈ e.1, IsEntryName n
  /-- The root is no node of its own, and what is not the root lies in a directory. -/
  parent : ∀ e ∈ s.nodes, e.1 ≠ [] ∧ s.node? e.1.dropLast = some .directory

instance (s : Store) : Decidable s.IsTree :=
  decidable_of_iff ((s.nodes.map Prod.fst).Nodup ∧ (∀ e ∈ s.nodes, ∀ n ∈ e.1, IsEntryName n) ∧
      ∀ e ∈ s.nodes, e.1 ≠ [] ∧ s.node? e.1.dropLast = some .directory)
    ⟨fun h => ⟨h.1, h.2.1, h.2.2⟩, fun h => ⟨h.nodup, h.named, h.parent⟩⟩

@[simp] theorem node?_nil : s.node? [] = some .directory := by rw [node?, if_pos rfl]

theorem mem_nodes_of_node? (hloc : loc ≠ []) (h : s.node? loc = some node) :
    (loc, node) ∈ s.nodes := by
  rw [node?, if_neg hloc] at h
  obtain ⟨e, he, hnode⟩ := Option.map_eq_some_iff.mp h
  have hkey : e.1 = loc := by simpa using List.find?_some he
  rw [← hkey, ← hnode]
  exact List.mem_of_find?_eq_some he

theorem exists_node?_of_mem {e : Location × Node} (he : e ∈ s.nodes) :
    ∃ node, s.node? e.1 = some node := by
  rw [node?]
  split
  · exact ⟨_, rfl⟩
  · cases hf : s.nodes.find? fun d => d.1 = e.1 with
    | some d => exact ⟨d.2, rfl⟩
    | none => exact absurd (by simp) (List.find?_eq_none.mp hf e he)

theorem node?_of_mem (hs : s.IsTree) {e : Location × Node} (he : e ∈ s.nodes) :
    s.node? e.1 = some e.2 := by
  obtain ⟨node, hnode⟩ := exists_node?_of_mem he
  have hmem := mem_nodes_of_node? (hs.parent e he).1 hnode
  have heq : (e.1, node) = e := List.inj_on_of_nodup_map hs.nodup hmem he rfl
  rw [hnode, ← heq]

theorem names_of_node? (hs : s.IsTree) (h : s.node? loc = some node) :
    ∀ n ∈ loc, IsEntryName n := by
  cases loc with
  | nil => simp
  | cons m ms => exact hs.named _ (mem_nodes_of_node? (by simp) h)

/-- What is below a node lies in directories. -/
theorem directory_of_append (hs : s.IsTree) (hne : ns ≠ []) (h : s.node? (loc ++ ns) = some node) :
    s.node? loc = some .directory := by
  induction ns using List.reverseRecOn generalizing node with
  | nil => exact absurd rfl hne
  | append_singleton ns n ih =>
    rw [← List.append_assoc] at h
    have hparent := (hs.parent _ (mem_nodes_of_node? (by simp) h)).2
    simp only [List.dropLast_concat] at hparent
    by_cases hns : ns = []
    · rwa [hns, List.append_nil] at hparent
    · exact ih hns hparent

theorem mem_directories_iff (hs : s.IsTree) :
    loc ∈ s.directories ↔ s.node? loc = some .directory := by
  rw [directories, List.mem_cons, List.mem_filterMap]
  constructor
  · rintro (rfl | ⟨e, he, hdir⟩)
    · exact node?_nil
    · split at hdir
      · next hnode =>
        cases hdir
        rw [node?_of_mem hs he, hnode]
      · cases hdir
  · intro h
    by_cases hloc : loc = []
    · exact Or.inl hloc
    · exact Or.inr ⟨_, mem_nodes_of_node? hloc h, by simp⟩

/-! ## The entries of a directory -/

theorem entryName?_eq_some_iff {dir : Location} : entryName? dir loc = some n ↔ loc = dir ++ [n] := by
  have hinitial (rest : List Text) : dir.isPrefixOf? loc = some rest ↔ loc = dir ++ rest := by
    induction dir generalizing loc with
    | nil => simp [List.isPrefixOf?, eq_comm]
    | cons d dir ih =>
      cases loc with
      | nil => simp [List.isPrefixOf?]
      | cons c loc =>
        rw [List.isPrefixOf?]
        by_cases hc : d = c
        · simp [hc, ih]
        · simp [hc, Ne.symm hc]
  rw [entryName?, ← hinitial]
  split
  · next m hm => simp [hm]
  · next hno => simpa using fun h => hno n h

theorem mem_entriesAt : n ∈ s.entriesAt loc ↔ ∃ node, s.node? (loc ++ [n]) = some node := by
  rw [entriesAt, List.mem_filterMap]
  constructor
  · rintro ⟨e, he, hn⟩
    rw [entryName?_eq_some_iff] at hn
    rw [← hn]
    exact exists_node?_of_mem he
  · rintro ⟨node, hnode⟩
    exact ⟨_, mem_nodes_of_node? (by simp) hnode, entryName?_eq_some_iff.mpr rfl⟩

theorem nodup_entriesAt (hs : s.IsTree) (loc : Location) : (s.entriesAt loc).Nodup := by
  have hmap : s.entriesAt loc = (s.nodes.map Prod.fst).filterMap (entryName? loc) := by
    rw [List.filterMap_map]
    rfl
  rw [hmap]
  refine hs.nodup.filterMap fun a b c hac hbc => ?_
  rw [Option.mem_def, entryName?_eq_some_iff] at hac hbc
  rw [hac, hbc]

theorem isDirectory_iff :
    s.isDirectory p = true ↔ ∃ loc, s.canonical? p = some loc ∧ s.node? loc = some .directory := by
  rw [isDirectory, lookup?]
  cases s.canonical? p <;> simp

theorem read_eq_ok_iff {b : ByteArray} :
    s.read p = .ok b ↔ ∃ loc, s.canonical? p = some loc ∧ s.node? loc = some (.file b) := by
  simp only [canonical?_eq_some_iff, read, bind, Except.bind]
  cases hr : s.resolve p with
  | error e => simp
  | ok place =>
    cases place with
    | missing dir name => simp
    | «at» loc =>
      simp only [Except.ok.injEq, Place.at.injEq, exists_eq_left']
      cases s.node? loc with
      | none => simp
      | some node => cases node <;> simp

/-- The children of a path are its entries, joined to it as it is spelled. -/
theorem mem_children : q ∈ s.children p ↔
    ∃ loc n, s.canonical? p = some loc ∧ s.node? loc = some .directory ∧ n ∈ s.entriesAt loc ∧
      q = p.join n := by
  rw [children, entries?]
  cases hp : s.canonical? p with
  | none => simp
  | some loc =>
    by_cases hdir : s.node? loc = some .directory
    · simp [hdir, eq_comm]
    · simp [hdir]

theorem exists_name_of_mem_children (hs : s.IsTree) (h : q ∈ s.children p) :
    ∃ n, IsEntryName n ∧ q = p.join n := by
  obtain ⟨loc, n, _, _, hn, hq⟩ := mem_children.mp h
  obtain ⟨node, hnode⟩ := mem_entriesAt.mp hn
  exact ⟨n, names_of_node? hs hnode n (by simp), hq⟩

theorem nodup_children (hs : s.IsTree) (p : Path) :
    ((s.children p).map Path.components).Nodup := by
  rw [children, entries?]
  cases hp : s.canonical? p with
  | none => simp
  | some loc =>
    by_cases hdir : s.node? loc = some .directory
    · simp only [hdir, if_true, Option.getD_some, List.map_map]
      refine List.Nodup.map_on (fun m hm n hn hmn => ?_) (nodup_entriesAt hs loc)
      have hentry {k : Text} (hk : k ∈ s.entriesAt loc) : IsEntryName k := by
        obtain ⟨node, hnode⟩ := mem_entriesAt.mp hk
        exact names_of_node? hs hnode k (by simp)
      simpa [components_join p (hentry hm), components_join p (hentry hn)] using hmn
    · simp [hdir]

/-! ## Resolving a joined name -/

/-- Segments are followed from directories only. -/
theorem directory_of_follow_cons {keepLast : Bool} {links : Nat} {seg : Text} {rest : List Text}
    {place : Place} (h : follow s keepLast links loc (seg :: rest) = .ok place) :
    s.node? loc = some .directory := by
  rw [follow] at h
  split at h
  · cases h
  · cases h
  · cases h
  · assumption

theorem follow_fill {links : Nat} {seg : Text} {rest : List Text}
    (hdir : s.node? loc = some .directory) (hseg : Component.ofSegment? seg = none) :
    follow s false links loc (seg :: rest) = follow s false links loc rest := by
  have hfill : seg = [] ∨ seg = ['.'] := by
    unfold Component.ofSegment? at hseg
    split at hseg
    · assumption
    · split at hseg <;> cases hseg
  rw [follow, hdir]
  simp only [hfill, if_true]

theorem follow_next {links links' : Nat} {seg : Text} {rest front : List Text} {c : Component}
    (hdir : s.node? loc = some .directory) (hseg : Component.ofSegment? seg = some c)
    (hnext : next? s links loc seg = some (links', l, front)) :
    follow s false links loc (seg :: rest) = follow s false links' l (front ++ rest) := by
  have hfill : ¬ (seg = [] ∨ seg = ['.']) := by
    intro hf
    simp [Component.ofSegment?, hf] at hseg
  rw [follow, hdir]
  simp only [hfill, if_false]
  rw [next?] at hnext
  by_cases hup : seg = ['.', '.']
  · rw [if_pos hup] at hnext ⊢
    cases hnext
    rfl
  · rw [if_neg hup] at hnext ⊢
    cases hnode : s.node? (loc ++ [seg]) with
    | none =>
      rw [hnode] at hnext
      cases hnext
    | some node =>
      rw [hnode] at hnext
      cases node with
      | link target =>
        cases links with
        | zero => cases hnext
        | succ left =>
          cases hnext
          simp
      | file b =>
        cases hnext
        rfl
      | directory =>
        cases hnext
        rfl

theorem follow_blank {links : Nat} {segs : List Text} (hsegs : ∀ t ∈ segs, t = [])
    (h : follow s false links loc segs = .ok (.at l)) : l = loc := by
  rcases follow_cases h with ⟨_, hl⟩ | ⟨c, rest, _, _, _, hc, _, _⟩
  · exact hl
  · have hcore : core segs = [] := List.filterMap_eq_nil_iff.mpr fun t ht => by
      rw [hsegs t ht]
      rfl
    rw [hcore] at hc
    cases hc

/-- Segments behind ones that lead to a location are followed from there. Empty segments
between them stand for nothing. The induction is on the links left, then on the
segments. -/
theorem follow_append (links : Nat) (loc : Location) (segs : List Text) {tail : List Text}
    (htail : ∀ t ∈ tail, t = []) (h : follow s false links loc (segs ++ tail) = .ok (.at l)) :
    ∃ links', ∀ rest, follow s false links loc (segs ++ rest) = follow s false links' l rest := by
  match segs with
  | [] =>
    rw [follow_blank htail h]
    exact ⟨links, fun rest => rfl⟩
  | seg :: segs =>
    rw [List.cons_append] at h
    have hdir := directory_of_follow_cons h
    cases hseg : Component.ofSegment? seg with
    | none =>
      rw [follow_fill hdir hseg] at h
      obtain ⟨links', hlinks⟩ := follow_append links loc segs htail h
      refine ⟨links', fun rest => ?_⟩
      rw [List.cons_append, follow_fill hdir hseg, hlinks]
    | some c =>
      obtain ⟨links₁, loc₁, front, hnext, hfront⟩ := follow_step hseg h
      rw [← List.append_assoc] at hfront
      have hdec : links₁ < links ∨
          (links₁ = links ∧ (front ++ segs).length < (seg :: segs).length) := by
        rcases next?_decreases hnext with hlt | ⟨hlinks, hnil⟩
        · exact Or.inl hlt
        · exact Or.inr ⟨hlinks, by simp [hnil]⟩
      obtain ⟨links', hlinks⟩ := follow_append links₁ loc₁ (front ++ segs) htail hfront
      refine ⟨links', fun rest => ?_⟩
      rw [List.cons_append, follow_next hdir hseg hnext, ← List.append_assoc, hlinks]
  termination_by (links, segs.length)
  decreasing_by
    · exact Prod.Lex.right _ (by simp)
    · rcases hdec with hlt | ⟨heq, hlt⟩
      · exact Prod.Lex.left _ _ hlt
      · rw [heq]
        exact Prod.Lex.right _ hlt

theorem text_ne_nil_of_canonical? (h : s.canonical? p = some loc) : p.text ≠ [] := by
  intro hp
  rw [canonical?_eq_some_iff, resolve, if_pos hp] at h
  cases h

/-- A joined name is followed from where the path leads. -/
theorem resolve_join (h : s.canonical? p = some loc) (hn : IsEntryName n) :
    ∃ links, s.resolve (p.join n) = follow s false links loc [n] := by
  have hp := text_ne_nil_of_canonical? h
  obtain ⟨segs, hj, hf⟩ := splitOn_join hp hn
  rw [canonical?_eq_some_iff, resolve, if_neg hp] at h
  rw [resolve, if_neg (text_join_ne_nil p hn), isAbsolute_join hp hn, hj]
  have htail : ∃ tail, (∀ t ∈ tail, t = []) ∧ p.text.splitOn '/' = segs ++ tail := by
    rcases hf with hf | hf
    · exact ⟨[], by simp, by rw [hf, List.append_nil]⟩
    · exact ⟨[[]], by simp, hf⟩
  obtain ⟨tail, htail, hsegs⟩ := htail
  rw [hsegs] at h
  obtain ⟨links, hlinks⟩ := follow_append _ _ segs htail h
  exact ⟨links, hlinks [n]⟩

/-- **A joined name denotes the entry of that name**, if it is no link. -/
theorem canonical?_join (h : s.canonical? p = some loc) (hdir : s.node? loc = some .directory)
    (hn : IsEntryName n) (hnode : s.node? (loc ++ [n]) = some node)
    (hlink : ∀ t, node ≠ .link t) : s.canonical? (p.join n) = some (loc ++ [n]) := by
  obtain ⟨links, hlinks⟩ := resolve_join h hn
  rw [canonical?_eq_some_iff, hlinks]
  have hnext : next? s links loc n = some (links, loc ++ [n], []) := by
    rw [next?, if_neg hn.ne_dots, hnode]
    cases node with
    | link t => exact absurd rfl (hlink t)
    | file b => rfl
    | directory => rfl
  rw [follow_next hdir hn.component hnext, List.nil_append, follow]

/-- A joined name that denotes anything is the name of an entry. -/
theorem exists_node?_of_canonical?_join (h : s.canonical? p = some loc) (hn : IsEntryName n)
    (hj : s.canonical? (p.join n) = some l) :
    s.node? loc = some .directory ∧ ∃ node, s.node? (loc ++ [n]) = some node := by
  obtain ⟨links, hlinks⟩ := resolve_join h hn
  rw [canonical?_eq_some_iff, hlinks] at hj
  refine ⟨directory_of_follow_cons hj, ?_⟩
  obtain ⟨links', loc', front, hnext, _⟩ := follow_step hn.component hj
  rw [next?, if_neg hn.ne_dots] at hnext
  cases hnode : s.node? (loc ++ [n]) with
  | some node => exact ⟨node, rfl⟩
  | none =>
    rw [hnode] at hnext
    cases hnext

/-- The path `.` denotes the location relative paths start from. -/
theorem canonical?_current (h : s.node? s.home = some .directory) :
    s.canonical? ⟨['.']⟩ = some s.home := by
  rw [canonical?_eq_some_iff, resolve, if_neg (by simp)]
  show follow s false linkLimit s.home [['.']] = _
  rw [follow_fill h (by decide), follow]

/-! ## Parts of a tree without links -/

/-- There is no link below a location. -/
def LinkFree (s : Store) (base : Location) : Prop :=
  ∀ ns t, s.node? (base ++ ns) ≠ some (.link t)

theorem linkFree_of_nodes (h : ∀ e ∈ s.nodes, ∀ t, e.2 ≠ .link t) : s.LinkFree base := by
  intro ns t hnode
  by_cases hloc : base ++ ns = []
  · rw [hloc, node?_nil] at hnode
    cases hnode
  · exact h _ (mem_nodes_of_node? hloc hnode) t rfl

theorem LinkFree.descend (h : s.LinkFree base) (ns : List Text) : s.LinkFree (base ++ ns) := by
  intro ms t
  rw [List.append_assoc]
  exact h _ t

/-- **Names below a path denote the location with these names below it**, where there are
no links. -/
theorem canonical?_descend (hs : s.IsTree) (hbase : s.LinkFree base)
    (hp : s.canonical? p = some base) (hnode : s.node? (base ++ ns) = some node) :
    s.canonical? (p.descend ns) = some (base ++ ns) := by
  induction ns using List.reverseRecOn generalizing node with
  | nil => simpa using hp
  | append_singleton ns n ih =>
    rw [← List.append_assoc] at hnode
    have hdir : s.node? (base ++ ns) = some .directory :=
      directory_of_append hs (by simp) hnode
    have hn : IsEntryName n := names_of_node? hs hnode n (by simp)
    rw [descend_append, ← List.append_assoc]
    refine canonical?_join (ih hdir) hdir hn hnode fun t ht => hbase (ns ++ [n]) t ?_
    rw [← List.append_assoc, hnode, ht]

theorem lookup?_descend (hs : s.IsTree) (hbase : s.LinkFree base)
    (hp : s.canonical? p = some base) (hnode : s.node? (base ++ ns) = some node) :
    s.lookup? (p.descend ns) = some node := by
  rw [lookup?, canonical?_descend hs hbase hp hnode, Option.bind_some, hnode]

end Store

end ModuleDocs

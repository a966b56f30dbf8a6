import Mathlib.Data.List.Dedup
import ModuleDocs.Proofs.Store.Walk

/-!
# The order in which directories are enumerated

A directory lists its entries in an order that nobody promised. `Reordered` stores hold
the same nodes and list them differently: whatever order each directory is given, some
permutation of the nodes gives it (`exists_reordered_of_order`). A path means the same in
all of them (`Reordered.canonical?_eq`), and a walk that puts what is below a directory in
order itself takes the same steps (`Reordered.walk_eq`). One that goes on in the order of
enumeration does not: it can be sent along any way it could take at all, by listing the
next entry of the way before the others (`exists_reordered_head`,
`mem_openedPaths_of_head`).
-/

namespace ModuleDocs

namespace Store

open ModuleDocs.Path

variable {s s' : Store} {loc : Location} {p : Path} {n : Text} {ns : List Text}

/-- The same nodes, enumerated in another order. -/
structure Reordered (s s' : Store) : Prop where
  home : s'.home = s.home
  perm : s.nodes.Perm s'.nodes

namespace Reordered

theorem symm (h : Reordered s s') : Reordered s' s := ⟨h.home.symm, h.perm.symm⟩

theorem node?_eq (h : Reordered s s') (hs : s.IsTree) (loc : Location) :
    s'.node? loc = s.node? loc := by
  by_cases hloc : loc = []
  · rw [hloc, node?_nil, node?_nil]
  · have hnode (t : Store) (ht : (t.nodes.map Prod.fst).Nodup) (node : Node) :
        t.node? loc = some node ↔ (loc, node) ∈ t.nodes := by
      refine ⟨mem_nodes_of_node? hloc, fun hmem => ?_⟩
      obtain ⟨node', hnode'⟩ := exists_node?_of_mem hmem
      rw [hnode']
      exact congrArg (some ·.2)
        (List.inj_on_of_nodup_map ht (mem_nodes_of_node? hloc hnode') hmem rfl)
    ext node
    rw [hnode s hs.nodup, hnode s' ((h.perm.map _).nodup_iff.mp hs.nodup), h.perm.mem_iff]

theorem isTree (h : Reordered s s') (hs : s.IsTree) : s'.IsTree where
  nodup := (h.perm.map _).nodup_iff.mp hs.nodup
  named e he := hs.named e (h.perm.mem_iff.mpr he)
  parent e he := by
    rw [h.node?_eq hs]
    exact hs.parent e (h.perm.mem_iff.mpr he)

theorem sameLayout (h : Reordered s s') (hs : s.IsTree) : SameLayout s s' :=
  ⟨h.home, fun loc => Or.inl (h.node?_eq hs loc)⟩

theorem canonical?_eq (h : Reordered s s') (hs : s.IsTree) (p : Path) :
    s'.canonical? p = s.canonical? p := Store.canonical?_eq (h.sameLayout hs) p

theorem lookup?_eq (h : Reordered s s') (hs : s.IsTree) (p : Path) :
    s'.lookup? p = s.lookup? p := by
  rw [lookup?, lookup?, h.canonical?_eq hs]
  exact congrArg _ (funext (h.node?_eq hs))

theorem isDirectory_eq (h : Reordered s s') (hs : s.IsTree) : s'.isDirectory = s.isDirectory := by
  funext p
  rw [isDirectory, isDirectory, h.lookup?_eq hs]

theorem isFile_eq (h : Reordered s s') (hs : s.IsTree) : s'.isFile = s.isFile := by
  funext p
  rw [isFile, isFile, h.lookup?_eq hs]

theorem read_eq (h : Reordered s s') (hs : s.IsTree) (p : Path) : s'.read p = s.read p := by
  simp only [read, resolve_eq (h.sameLayout hs), h.node?_eq hs]

theorem mem_directories_iff (h : Reordered s s') (hs : s.IsTree) :
    loc ∈ s'.directories ↔ loc ∈ s.directories := by
  rw [Store.mem_directories_iff hs, Store.mem_directories_iff (h.isTree hs), h.node?_eq hs]

/-- A directory lists the same entries, in another order. -/
theorem perm_children (h : Reordered s s') (hs : s.IsTree) (p : Path) :
    (s.children p).Perm (s'.children p) := by
  rw [children, children, entries?, entries?, h.canonical?_eq hs]
  cases s.canonical? p with
  | none => exact List.Perm.nil
  | some loc =>
    by_cases hdir : s.node? loc = some .directory
    · simp only [h.node?_eq hs, hdir, if_true, Option.getD_some, entriesAt]
      exact (h.perm.filterMap _).map _
    · simp only [h.node?_eq hs, hdir, if_false]
      exact List.Perm.nil

/-- Sorted, the entries of a directory are the same. -/
theorem sort_children_eq (h : Reordered s s') (hs : s.IsTree) (p : Path) (keep : Path → Bool) :
    Path.sort ((s'.children p).filter keep) = Path.sort ((s.children p).filter keep) := by
  have hdistinct {t : Store} (ht : t.IsTree) :
      (((t.children p).filter keep).map Path.components).Nodup :=
    (nodup_children ht p).sublist (List.filter_sublist.map _)
  refine Increasing.ext (increasing_sort (hdistinct (h.isTree hs)))
    (increasing_sort (hdistinct hs)) fun q => ?_
  rw [mem_sort, mem_sort, List.mem_filter, List.mem_filter, (h.perm_children hs p).mem_iff]

/-- **A walk takes the same steps** where what is below a directory comes in the same
order. -/
theorem walk_eq (h : Reordered s s') (hs : s.IsTree) (below : Path → List Path)
    (opened : List Location) (paths : List Path) :
    walk s' below opened paths = walk s below opened paths := by
  fun_induction walk s below opened paths with
  | case1 => rw [walk]
  | case2 opened p rest hp ih => rw [walk, h.canonical?_eq hs, hp, ih]
  | case3 opened p rest loc hp hloc ih =>
    rw [walk, h.canonical?_eq hs, hp]
    simp only [h.mem_directories_iff hs, hloc, not_false_eq_true, and_self, dite_true, ih]
  | case4 opened p rest loc hp hloc ih =>
    rw [walk, h.canonical?_eq hs, hp]
    simp only [h.mem_directories_iff hs, hloc, dite_false, ih]

end Reordered

/-! ## Any order of any directory -/

section Listing

variable {order : Location → List Text} {dir d : Location} {e : Location × Node}

/-- The entries of a directory with their nodes, in a given order. -/
def listing (s : Store) (order : Location → List Text) (dir : Location) : List (Location × Node) :=
  (order dir).filterMap fun n => (s.node? (dir ++ [n])).map fun node => (dir ++ [n], node)

/-- The store that enumerates each directory in a given order. -/
def inOrder (s : Store) (order : Location → List Text) : Store :=
  { s with nodes := (s.nodes.map fun e => e.1.dropLast).dedup.flatMap (listing s order) }

theorem mem_listing : e ∈ listing s order dir ↔
    ∃ n ∈ order dir, s.node? (dir ++ [n]) = some e.2 ∧ e.1 = dir ++ [n] := by
  obtain ⟨loc, node⟩ := e
  simp only [listing, List.mem_filterMap, Option.map_eq_some_iff, Prod.mk.injEq]
  constructor
  · rintro ⟨n, hn, _, hnode, rfl, rfl⟩
    exact ⟨n, hn, hnode, rfl⟩
  · rintro ⟨n, hn, hnode, rfl⟩
    exact ⟨n, hn, node, hnode, rfl, rfl⟩

/-- A listing of a directory has entries of this directory only. -/
theorem filterMap_listing (horder : ∀ n ∈ order d, n ∈ s.entriesAt d) :
    (listing s order d).filterMap (fun e => entryName? dir e.1) =
      if d = dir then order d else [] := by
  rw [listing, List.filterMap_filterMap]
  split
  · next heq =>
    subst heq
    have hsome : ∀ n ∈ order d, ((s.node? (d ++ [n])).map fun node => (d ++ [n], node)).bind
        (fun e => entryName? d e.1) = some n := by
      intro n hn
      obtain ⟨node, hnode⟩ := mem_entriesAt.mp (horder n hn)
      rw [hnode]
      exact entryName?_eq_some_iff.mpr rfl
    rw [List.filterMap_congr hsome, List.filterMap_some]
  · next hne =>
    refine List.filterMap_eq_nil_iff.mpr fun n _ => ?_
    cases s.node? (d ++ [n]) with
    | none => rfl
    | some node =>
      refine Option.eq_none_iff_forall_ne_some.mpr fun m hm => hne ?_
      exact (List.append_singleton_inj.mp (entryName?_eq_some_iff.mp hm)).1

variable (hs : s.IsTree) (horder : ∀ dir, (s.entriesAt dir).Perm (order dir))

include hs horder

theorem mem_inOrder : e ∈ (s.inOrder order).nodes ↔ e ∈ s.nodes := by
  rw [inOrder, List.mem_flatMap]
  constructor
  · rintro ⟨dir, -, he⟩
    obtain ⟨n, -, hnode, hloc⟩ := mem_listing.mp he
    have hmem := mem_nodes_of_node? (by simp) hnode
    rwa [← hloc] at hmem
  · intro he
    obtain ⟨front, n, hsplit⟩ := (List.eq_nil_or_concat e.1).resolve_left (hs.parent e he).1
    rw [List.concat_eq_append] at hsplit
    have hnode := node?_of_mem hs he
    rw [hsplit] at hnode
    refine ⟨front, List.mem_dedup.mpr (List.mem_map.mpr ⟨e, he, by simp [hsplit]⟩), ?_⟩
    exact mem_listing.mpr
      ⟨n, (horder front).mem_iff.mp (mem_entriesAt.mpr ⟨_, hnode⟩), hnode, hsplit⟩

theorem nodup_inOrder : (s.inOrder order).nodes.Nodup := by
  refine List.nodup_flatMap.mpr ⟨fun dir _ => ?_, (List.nodup_dedup _).imp fun {d d'} hne => ?_⟩
  · refine ((horder dir).nodup_iff.mp (nodup_entriesAt hs dir)).filterMap fun m n e hm hn => ?_
    simp only [Option.mem_def, Option.map_eq_some_iff] at hm hn
    obtain ⟨_, -, rfl⟩ := hm
    obtain ⟨_, -, heq⟩ := hn
    exact (List.append_singleton_inj.mp (Prod.mk.inj heq).1).2.symm
  · intro e he he'
    obtain ⟨_, -, -, hloc⟩ := mem_listing.mp he
    obtain ⟨_, -, -, hloc'⟩ := mem_listing.mp he'
    exact hne (List.append_singleton_inj.mp (hloc.symm.trans hloc')).1

omit hs in
theorem entriesAt_inOrder (dir : Location) : (s.inOrder order).entriesAt dir = order dir := by
  have hentry {d : Location} {n : Text} (hn : n ∈ order d) : n ∈ s.entriesAt d :=
    (horder d).mem_iff.mpr hn
  rw [entriesAt, inOrder, List.filterMap_flatMap]
  simp only [filterMap_listing fun n => hentry]
  -- of all the listings only that of the directory is left
  have hothers {ds : List Location} (hds : dir ∉ ds) :
      ds.flatMap (fun d => if d = dir then order d else []) = [] :=
    List.flatMap_eq_nil_iff.mpr fun d hd => if_neg fun (heq : d = dir) => hds (heq ▸ hd)
  by_cases hdir : dir ∈ (s.nodes.map fun e => e.1.dropLast).dedup
  · obtain ⟨front, back, hsplit⟩ := List.append_of_mem hdir
    have hapart := List.nodup_dedup (s.nodes.map fun e => e.1.dropLast)
    rw [hsplit, List.nodup_append, List.nodup_cons] at hapart
    obtain ⟨-, ⟨hback, -⟩, hfront⟩ := hapart
    rw [hsplit, List.flatMap_append, List.flatMap_cons, if_pos rfl, hothers hback,
      hothers fun h => hfront dir h dir List.mem_cons_self rfl, List.append_nil, List.nil_append]
  · rw [hothers hdir]
    refine (List.eq_nil_iff_forall_not_mem.mpr fun n hn => hdir ?_).symm
    obtain ⟨node, hnode⟩ := mem_entriesAt.mp (hentry hn)
    exact List.mem_dedup.mpr (List.mem_map.mpr
      ⟨_, mem_nodes_of_node? (by simp) hnode, List.dropLast_concat⟩)

/-- **Whatever order each directory is given**, some order of the nodes gives it. -/
theorem exists_reordered_of_order :
    ∃ s', Reordered s s' ∧ ∀ dir, s'.entriesAt dir = order dir := by
  refine ⟨s.inOrder order, ⟨rfl, ?_⟩, entriesAt_inOrder horder⟩
  exact (List.perm_ext_iff_of_nodup (List.Nodup.of_map _ hs.nodup)
    (nodup_inOrder hs horder)).mpr fun e => (mem_inOrder hs horder).symm

end Listing

/-! ## Choosing what comes first -/

/-- Chosen entries can be enumerated before the others: where one of a directory is
chosen, it comes first. -/
theorem exists_reordered_head (hs : s.IsTree) (chosen : Location → Bool) :
    ∃ s', Reordered s s' ∧ ∀ dir n, n ∈ s.entriesAt dir →
      (∀ m, chosen (dir ++ [m]) = true ↔ m = n) → (s'.entriesAt dir).head? = some n := by
  obtain ⟨s', hr, horder⟩ := exists_reordered_of_order hs
    fun dir => (List.filter_append_perm (fun n => chosen (dir ++ [n])) (s.entriesAt dir)).symm
  refine ⟨s', hr, fun dir n hn hchosen => ?_⟩
  have hmem (m : Text) : m ∈ (s.entriesAt dir).filter (fun m => chosen (dir ++ [m])) ↔ m = n := by
    rw [List.mem_filter, hchosen]
    exact ⟨fun h => h.2, fun h => ⟨h ▸ hn, h⟩⟩
  rw [horder, List.head?_append]
  cases hf : (s.entriesAt dir).filter (fun m => chosen (dir ++ [m])) with
  | nil => simpa [hf] using (hmem n).mpr rfl
  | cons m rest =>
    have hm := (hmem m).mp (by rw [hf]; exact List.mem_cons_self)
    rw [hm, List.head?_cons, Option.some_or]

/-- A walk opens a way whose names come first, if the way leads through different
directories and none of them has been opened. -/
theorem mem_openedPaths_of_head {below : Path → List Path} {opened : List Location}
    {rest : List Path}
    (hhead : ∀ ms n, ms ++ [n] <+: ns →
      (below (p.descend ms)).head? = some (p.descend (ms ++ [n])))
    (hnew : ∀ ms, ms <+: ns → ∃ loc ∈ s.directories,
      s.canonical? (p.descend ms) = some loc ∧ loc ∉ opened)
    (hsimple : ∀ ms ks, ms <+: ns → ks <+: ns →
      s.canonical? (p.descend ms) = s.canonical? (p.descend ks) → ms = ks) :
    p.descend ns ∈ openedPaths (walk s below opened (p :: rest)) := by
  induction ns generalizing p opened rest with
  | nil =>
    obtain ⟨loc, hdir, hloc, hopened⟩ := hnew [] List.nil_prefix
    rw [descend_nil] at hloc ⊢
    rw [mem_openedPaths, walk, hloc]
    simp only [hdir, hopened, not_false_eq_true, and_self, dite_true, List.mem_cons, true_or]
  | cons n ns ih =>
    obtain ⟨loc, hdir, hloc, hopened⟩ := hnew [] List.nil_prefix
    obtain ⟨others, hothers⟩ := List.head?_eq_some_iff.mp (hhead [] n (by simp))
    have hnext (ms : List Text) : p.descend (n :: ms) = (p.join n).descend ms := rfl
    rw [descend_nil] at hloc hothers
    rw [List.nil_append, hnext, descend_nil] at hothers
    rw [mem_openedPaths, walk, hloc]
    simp only [hdir, hopened, not_false_eq_true, and_self, dite_true]
    rw [hothers, List.cons_append, List.mem_cons, ← mem_openedPaths, hnext]
    refine Or.inr (ih ?_ ?_ ?_)
    · intro ms m hms
      simpa only [hnext, List.cons_append] using
        hhead (n :: ms) m (by simpa only [List.cons_append, List.prefix_cons_inj] using hms)
    · intro ms hms
      obtain ⟨loc', hdir', hloc', hopened'⟩ := hnew (n :: ms) (by simpa using hms)
      refine ⟨loc', hdir', hloc', ?_⟩
      -- the directory opened now is not met again
      rw [List.mem_cons, not_or]
      refine ⟨fun heq => ?_, hopened'⟩
      rw [heq, ← hloc] at hloc'
      exact absurd (hsimple (n :: ms) [] (by simpa using hms) List.nil_prefix hloc') (by simp)
    · intro ms ks hms hks heq
      have h := hsimple (n :: ms) (n :: ks) (by simpa using hms) (by simpa using hks) heq
      exact (List.cons.inj h).2

end Store

end ModuleDocs

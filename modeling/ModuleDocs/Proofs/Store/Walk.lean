import Mathlib.Data.List.Pairwise
import ModuleDocs.Proofs.Path.Order
import ModuleDocs.Proofs.Store.Tree

/-!
# What a walk visits, and when

A walk is settled by three facts. It visits what it starts from and what is below a
directory it opens, each as often as it stands there (`perm_walk`). A visit opens its
path exactly if that denotes a directory which no earlier visit opened
(`opened_iff_of_walk`). And a walk that takes the paths below one in their order visits
all paths in their order (`increasing_walk`), so *earlier* is the same as *smaller*:
which of several ways leads into a directory can be read off the paths.
-/

namespace ModuleDocs

namespace Path

/-! ## Branching off -/

/-- The first way turns off before the second one, at a smaller component. -/
def Precedes (as bs : List Component) : Prop :=
  ∃ front a b as' bs', as = front ++ a :: as' ∧ bs = front ++ b :: bs' ∧ Component.order a b = .lt

variable {as bs cs : List Component}

/-- Going on from either way changes nothing. -/
theorem Precedes.append (h : Precedes as bs) (cs ds : List Component) :
    Precedes (as ++ cs) (bs ++ ds) := by
  obtain ⟨front, a, b, as', bs', rfl, rfl, hab⟩ := h
  exact ⟨front, a, b, as' ++ cs, bs' ++ ds, by simp, by simp, hab⟩

theorem orderComponents_append_left (front as bs : List Component) :
    orderComponents (front ++ as) (front ++ bs) = orderComponents as bs := by
  induction front with
  | nil => rfl
  | cons c front ih =>
    have hc : Component.order c c = .eq := Std.ReflCmp.compare_self
    rw [List.cons_append, List.cons_append, orderComponents, hc, ih]
    rfl

@[simp] theorem orderComponents_self (as : List Component) : orderComponents as as = .eq := by
  have h := orderComponents_append_left as [] []
  rwa [List.append_nil] at h

theorem orderComponents_asymm (h : orderComponents as bs = .lt) :
    orderComponents bs as ≠ .lt := by
  intro h'
  rw [orderComponents_eq] at h h'
  have hself : orderComponents as as = .lt := by
    rw [orderComponents_eq]
    exact Std.TransCmp.lt_trans h h'
  simp at hself

theorem Precedes.lt (h : Precedes as bs) : orderComponents as bs = .lt := by
  obtain ⟨front, a, b, as', bs', rfl, rfl, hab⟩ := h
  rw [orderComponents_append_left, orderComponents, hab]
  rfl

/-- A way comes before its continuations. -/
theorem orderComponents_lt_append (as : List Component) (c : Component) (cs : List Component) :
    orderComponents as (as ++ c :: cs) = .lt := by
  have h := orderComponents_append_left as [] (c :: cs)
  rwa [List.append_nil] at h

end Path

namespace Store

open ModuleDocs.Path

variable {s : Store} {below : Path → List Path} {opened : List Location} {paths : List Path}
  {u v : Visit} {a b : List Visit} {loc : Location} {p q root : Path}

/-! ## Any walk -/

/-- The paths under which directories were opened. -/
def openedPaths (visits : List Visit) : List Path := (visits.filter Visit.opened).map Visit.path

theorem mem_openedPaths {visits : List Visit} :
    p ∈ openedPaths visits ↔ ⟨p, true⟩ ∈ visits := by
  rw [openedPaths, List.mem_map]
  constructor
  · rintro ⟨v, hv, rfl⟩
    obtain ⟨hmem, hopen⟩ := List.mem_filter.mp hv
    rwa [← hopen]
  · intro h
    exact ⟨_, List.mem_filter.mpr ⟨h, rfl⟩, rfl⟩

/-- **A walk visits what it starts from and what is below the directories it opens.** -/
theorem perm_walk (s : Store) (below : Path → List Path) (opened : List Location)
    (paths : List Path) :
    ((walk s below opened paths).map Visit.path).Perm
      (paths ++ (openedPaths (walk s below opened paths)).flatMap below) := by
  fun_induction walk s below opened paths with
  | case1 => exact List.Perm.nil
  | case2 opened p rest hp ih => exact ih.cons p
  | case3 opened p rest loc hp hloc ih =>
    -- what is below `p` came in front of the rest
    refine (ih.cons p).trans (List.Perm.cons p ?_)
    rw [List.append_assoc]
    exact List.perm_append_comm_assoc _ _ _
  | case4 opened p rest loc hp hloc ih => exact ih.cons p

/-- **A visit opens its path exactly if that denotes a directory not opened before.** -/
theorem opened_iff_of_walk (h : walk s below opened paths = a ++ v :: b) :
    v.opened = true ↔ ∃ loc, s.canonical? v.path = some loc ∧ loc ∈ s.directories ∧
      loc ∉ opened ∧ ∀ u ∈ a, u.opened = true → s.canonical? u.path ≠ some loc := by
  fun_induction walk s below opened paths generalizing a with
  | case1 => simp at h
  | case2 opened p rest hp ih =>
    cases a with
    | nil =>
      obtain ⟨rfl, -⟩ := List.cons.inj h
      simp [hp]
    | cons u a =>
      obtain ⟨rfl, hrest⟩ := List.cons.inj h
      simpa using ih hrest
  | case3 opened p rest loc hp hloc ih =>
    cases a with
    | nil =>
      obtain ⟨rfl, -⟩ := List.cons.inj h
      simpa [hp] using hloc
    | cons u a =>
      obtain ⟨rfl, hrest⟩ := List.cons.inj h
      rw [ih hrest]
      simp only [List.mem_cons, not_or, forall_eq_or_imp, true_implies, hp, ne_eq, Option.some.injEq]
      refine exists_congr fun l => ?_
      constructor
      · rintro ⟨hl, hd, ⟨hne, ho⟩, ha⟩
        exact ⟨hl, hd, ho, fun h => hne h.symm, ha⟩
      · rintro ⟨hl, hd, ho, hne, ha⟩
        exact ⟨hl, hd, ⟨fun h => hne h.symm, ho⟩, ha⟩
  | case4 opened p rest loc hp hloc ih =>
    cases a with
    | nil =>
      obtain ⟨rfl, -⟩ := List.cons.inj h
      simpa [hp] using hloc
    | cons u a =>
      obtain ⟨rfl, hrest⟩ := List.cons.inj h
      simpa using ih hrest

theorem pairwise_of_splits {α : Type} {R : α → α → Prop} {l : List α}
    (h : ∀ a x b, l = a ++ x :: b → ∀ y ∈ a, R y x) : l.Pairwise R := by
  induction l using List.reverseRecOn with
  | nil => exact List.Pairwise.nil
  | append_singleton l x ih =>
    refine List.pairwise_append.mpr ⟨ih fun a y b hl => h a y (b ++ [x]) (by simp [hl]),
      List.pairwise_singleton R x, fun y hy z hz => ?_⟩
    rw [List.mem_singleton.mp hz]
    exact h l x [] rfl y hy

/-- What visits open are different directories. -/
theorem pairwise_opened (s : Store) (below : Path → List Path) (opened : List Location)
    (paths : List Path) :
    (walk s below opened paths).Pairwise fun u v => u.opened = true → v.opened = true →
      s.canonical? u.path ≠ s.canonical? v.path := by
  refine pairwise_of_splits fun a v b hw u hu hou hov h => ?_
  obtain ⟨loc, hloc, -, -, hfirst⟩ := (opened_iff_of_walk hw).mp hov
  exact hfirst u hu hou (h.trans hloc)

/-- A directory is opened under one path. -/
theorem opened_unique (hp : p ∈ openedPaths (walk s below opened paths))
    (hq : q ∈ openedPaths (walk s below opened paths)) (h : s.canonical? p = s.canonical? q) :
    p = q := by
  by_contra hne
  have hsymm : Std.Symm fun u v : Visit => u.opened = true → v.opened = true →
      s.canonical? u.path ≠ s.canonical? v.path := ⟨fun u v huv hv hu => (huv hu hv).symm⟩
  exact (pairwise_opened s below opened paths).forall (mem_openedPaths.mp hp)
    (mem_openedPaths.mp hq) (fun h => hne (congrArg Visit.path h)) rfl rfl h

/-- Names that lead to one directory, opened, are the same. -/
theorem names_unique {ns ms : List Text} (hns : ∀ n ∈ ns, IsEntryName n)
    (hms : ∀ n ∈ ms, IsEntryName n)
    (hp : root.descend ns ∈ openedPaths (walk s below opened paths))
    (hq : root.descend ms ∈ openedPaths (walk s below opened paths))
    (h : s.canonical? (root.descend ns) = s.canonical? (root.descend ms)) : ns = ms :=
  descend_inj hns hms (congrArg Path.components (opened_unique hp hq h))

theorem nodup_openedPaths : (openedPaths (walk s below opened paths)).Nodup := by
  rw [openedPaths, List.Nodup, List.pairwise_map]
  refine ((pairwise_opened s below opened paths).filter _).imp_of_mem fun hu hv h heq => ?_
  exact h (List.mem_filter.mp hu).2 (List.mem_filter.mp hv).2 (congrArg s.canonical? heq)

/-- An opened path denotes a directory. -/
theorem canonical?_of_mem_openedPaths (hp : p ∈ openedPaths (walk s below opened paths)) :
    ∃ loc ∈ s.directories, s.canonical? p = some loc := by
  obtain ⟨a, b, hw⟩ := List.append_of_mem (mem_openedPaths.mp hp)
  obtain ⟨loc, hloc, hdir, -, -⟩ := (opened_iff_of_walk hw).mp rfl
  exact ⟨loc, hdir, hloc⟩

/-- Once a path to a directory is visited, the directory has been opened. -/
theorem exists_opened_of_walk (h : walk s below opened paths = a ++ v :: b)
    (hv : s.canonical? v.path = some loc) (hdir : loc ∈ s.directories) (hnew : loc ∉ opened) :
    ∃ u ∈ a ++ [v], u.opened = true ∧ s.canonical? u.path = some loc := by
  by_cases hfirst : ∀ u ∈ a, u.opened = true → s.canonical? u.path ≠ some loc
  · exact ⟨v, by simp, (opened_iff_of_walk h).mpr ⟨loc, hv, hdir, hnew, hfirst⟩, hv⟩
  · push Not at hfirst
    obtain ⟨u, hu, hou, hcu⟩ := hfirst
    exact ⟨u, by simp [hu], hou, hcu⟩

/-! ## Walks in order -/

/-- What is below a path are entries of it. -/
def Descends (below : Path → List Path) : Prop :=
  ∀ p, ∀ q ∈ below p, ∃ n, IsEntryName n ∧ q = p.join n

theorem Descends.components (h : Descends below) (hq : q ∈ below p) :
    ∃ n, q.components = p.components ++ [.name n] := by
  obtain ⟨n, hn, rfl⟩ := h p q hq
  exact ⟨n, components_join p hn⟩

/-- The entries below each path come in order. -/
structure Ordered (below : Path → List Path) : Prop where
  descends : Descends below
  increasing : ∀ p, Increasing Path.components (below p)

theorem Ordered.pairwise (h : Ordered below) (p : Path) :
    (below p).Pairwise fun q r => Precedes q.components r.components := by
  refine (h.increasing p).imp_of_mem fun {q r} hq hr hlt => ?_
  obtain ⟨m, hm⟩ := h.descends.components hq
  obtain ⟨n, hn⟩ := h.descends.components hr
  rw [hm, hn, orderComponents_append_left] at hlt
  refine ⟨p.components, .name m, .name n, [], [], hm, hn, ?_⟩
  cases hmn : Component.order (.name m) (.name n) with
  | lt => rfl
  | gt => simp [orderComponents, hmn] at hlt
  | eq => simp [orderComponents, hmn] at hlt

/-- What a walk visits continues what it starts from. -/
theorem prefix_of_walk (hbelow : Descends below) (hv : v ∈ walk s below opened paths) :
    ∃ p ∈ paths, p.components <+: v.path.components := by
  fun_induction walk s below opened paths with
  | case1 => cases hv
  | case2 opened p rest hp ih =>
    rcases List.mem_cons.mp hv with rfl | hv
    · exact ⟨p, by simp, List.prefix_rfl⟩
    · obtain ⟨q, hq, hpre⟩ := ih hv
      exact ⟨q, by simp [hq], hpre⟩
  | case3 opened p rest loc hp hloc ih =>
    rcases List.mem_cons.mp hv with rfl | hv
    · exact ⟨p, by simp, List.prefix_rfl⟩
    · obtain ⟨q, hq, hpre⟩ := ih hv
      rcases List.mem_append.mp hq with hq | hq
      · obtain ⟨n, hn⟩ := hbelow.components hq
        exact ⟨p, by simp, (hn ▸ List.prefix_append _ _).trans hpre⟩
      · exact ⟨q, by simp [hq], hpre⟩
  | case4 opened p rest loc hp hloc ih =>
    rcases List.mem_cons.mp hv with rfl | hv
    · exact ⟨p, by simp, List.prefix_rfl⟩
    · obtain ⟨q, hq, hpre⟩ := ih hv
      exact ⟨q, by simp [hq], hpre⟩

/-- **A walk in order visits its paths in order.** The paths still to visit branch off
one after the other, and what is visited continues one of them. -/
theorem increasing_walk (hbelow : Ordered below)
    (hpaths : paths.Pairwise fun p q => Precedes p.components q.components) :
    Increasing (fun v : Visit => v.path.components) (walk s below opened paths) := by
  have hfirst {p : Path} {rest : List Path} {opened : List Location}
      (hp : ∀ q ∈ rest, Precedes p.components q.components) :
      ∀ v ∈ walk s below opened rest, orderComponents p.components v.path.components = .lt := by
    intro v hv
    obtain ⟨q, hq, cs, hcs⟩ := prefix_of_walk hbelow.descends hv
    rw [← hcs]
    simpa using ((hp q hq).append [] cs).lt
  fun_induction walk s below opened paths with
  | case1 => exact List.Pairwise.nil
  | case2 opened p rest hp ih =>
    obtain ⟨hrest, hpaths⟩ := List.pairwise_cons.mp hpaths
    exact List.pairwise_cons.mpr ⟨hfirst hrest, ih hpaths⟩
  | case3 opened p rest loc hp hloc ih =>
    obtain ⟨hrest, hpaths⟩ := List.pairwise_cons.mp hpaths
    refine List.pairwise_cons.mpr ⟨fun v hv => ?_, ih (List.pairwise_append.mpr
      ⟨hbelow.pairwise p, hpaths, fun q hq r hr => ?_⟩)⟩
    · show orderComponents p.components v.path.components = .lt
      obtain ⟨q, hq, cs, hcs⟩ := prefix_of_walk hbelow.descends hv
      rw [← hcs]
      rcases List.mem_append.mp hq with hq | hq
      · obtain ⟨n, hn⟩ := hbelow.descends.components hq
        rw [hn, List.append_assoc]
        exact orderComponents_lt_append _ _ _
      · simpa using ((hrest q hq).append [] cs).lt
    · obtain ⟨n, hn⟩ := hbelow.descends.components hq
      rw [hn]
      simpa using (hrest r hr).append [.name n] []
  | case4 opened p rest loc hp hloc ih =>
    obtain ⟨hrest, hpaths⟩ := List.pairwise_cons.mp hpaths
    exact List.pairwise_cons.mpr ⟨hfirst hrest, ih hpaths⟩

/-! ## Ways from where a walk starts -/

/-- The walk from one path. -/
def tour (s : Store) (below : Path → List Path) (root : Path) : List Visit :=
  walk s below [] [root]

theorem mem_tour_iff : p ∈ (tour s below root).map Visit.path ↔
    p = root ∨ ∃ q ∈ openedPaths (tour s below root), p ∈ below q := by
  rw [tour, (perm_walk s below [] [root]).mem_iff, List.mem_append, List.mem_singleton,
    List.mem_flatMap]

theorem mem_tour_of_mem_openedPaths (h : p ∈ openedPaths (tour s below root)) :
    p ∈ (tour s below root).map Visit.path :=
  List.mem_map.mpr ⟨_, mem_openedPaths.mp h, rfl⟩

/-- A directory that is visited is opened, if only under another path. -/
theorem exists_opened_of_tour (hp : p ∈ (tour s below root).map Visit.path)
    (hloc : s.canonical? p = some loc) (hdir : loc ∈ s.directories) :
    ∃ q ∈ openedPaths (tour s below root), s.canonical? q = some loc := by
  obtain ⟨v, hv, rfl⟩ := List.mem_map.mp hp
  obtain ⟨a, b, hw⟩ := List.append_of_mem hv
  obtain ⟨u, hu, hou, hcu⟩ := exists_opened_of_walk hw hloc hdir (by simp)
  refine ⟨u.path, mem_openedPaths.mpr ?_, hcu⟩
  rw [← hou, hw, List.append_cons]
  exact List.mem_append_left _ hu

/-- Names lead from the root through opened directories. -/
structure IsWay (s : Store) (below : Path → List Path) (root : Path) (ns : List Text) : Prop where
  named : ∀ n ∈ ns, IsEntryName n
  opened : ∀ ms n, ms ++ [n] <+: ns → root.descend ms ∈ openedPaths (tour s below root) ∧
    root.descend (ms ++ [n]) ∈ below (root.descend ms)

theorem IsWay.nil : IsWay s below root [] :=
  ⟨by simp, fun ms n h => by simpa using List.prefix_nil.mp h⟩

theorem IsWay.concat {ns : List Text} {n : Text} (h : IsWay s below root ns) (hn : IsEntryName n)
    (hopen : root.descend ns ∈ openedPaths (tour s below root))
    (hmem : root.descend (ns ++ [n]) ∈ below (root.descend ns)) :
    IsWay s below root (ns ++ [n]) := by
  refine ⟨List.forall_mem_append.mpr ⟨h.named, List.forall_mem_singleton.mpr hn⟩,
    fun ms m hpre => ?_⟩
  · rcases List.prefix_concat_iff.mp hpre with heq | hpre
    · obtain ⟨rfl, rfl⟩ := List.append_singleton_inj.mp heq
      exact ⟨hopen, hmem⟩
    · exact h.opened ms m hpre

theorem IsWay.initial {ns ms : List Text} (h : IsWay s below root ns) (hpre : ms <+: ns) :
    IsWay s below root ms :=
  ⟨fun n hn => h.named n (hpre.subset hn), fun ks k hk => h.opened ks k (hk.trans hpre)⟩

/-- What an opened path passes has been opened. -/
theorem IsWay.opened_initial {ns ms : List Text} (h : IsWay s below root ns)
    (hend : root.descend ns ∈ openedPaths (tour s below root)) (hpre : ms <+: ns) :
    root.descend ms ∈ openedPaths (tour s below root) := by
  obtain ⟨rest, rfl⟩ := hpre
  cases rest with
  | nil => rwa [List.append_nil] at hend
  | cons n rest => exact (h.opened ms n ⟨rest, by simp⟩).1

/-- **Every visited path is reached by names through opened directories.** -/
theorem exists_way (hbelow : Descends below) (p : Path)
    (h : p ∈ (tour s below root).map Visit.path) :
    ∃ ns, p = root.descend ns ∧ IsWay s below root ns := by
  rcases mem_tour_iff.mp h with hroot | ⟨q, hq, hp⟩
  · exact ⟨[], hroot, IsWay.nil⟩
  · obtain ⟨n, hn, rfl⟩ := hbelow q p hp
    have hdec : q.components.length < (q.join n).components.length := by
      rw [components_join q hn]
      simp
    obtain ⟨ns, rfl, hns⟩ := exists_way hbelow q (mem_tour_of_mem_openedPaths hq)
    have hj : (root.descend ns).join n = root.descend (ns ++ [n]) := by simp
    rw [hj] at hp ⊢
    exact ⟨ns ++ [n], rfl, hns.concat hn hq hp⟩
  termination_by p.components.length

/-- Names that lead through opened directories lead to a visited path. -/
theorem IsWay.visited {ns : List Text} (h : IsWay s below root ns) :
    root.descend ns ∈ (tour s below root).map Visit.path := by
  rw [mem_tour_iff]
  rcases List.eq_nil_or_concat ns with rfl | ⟨ms, n, rfl⟩
  · exact Or.inl rfl
  · rw [List.concat_eq_append] at h ⊢
    exact Or.inr ⟨_, h.opened ms n List.prefix_rfl⟩

/-! ## Walks that choose among subdirectories -/

/-- Below a path are the directories in it that are kept. -/
def Selects (s : Store) (keep : Path → Bool) (below : Path → List Path) : Prop :=
  ∀ p q, q ∈ below p ↔ q ∈ s.children p ∧ s.isDirectory q = true ∧ keep q = true

variable {keep : Path → Bool} {base : Location} {ns ms : List Text} {n : Text}

theorem Selects.descends (h : Selects s keep below) (hs : s.IsTree) : Descends below :=
  fun p q hq => exists_name_of_mem_children hs ((h p q).mp hq).1

/-- The last name of a way is an entry of the directory before it. -/
theorem IsWay.entry (h : IsWay s below root (ns ++ [n])) (hs : s.IsTree)
    (hsel : Selects s keep below) (hloc : s.canonical? (root.descend ns) = some loc) :
    s.node? loc = some .directory ∧ (∃ node, s.node? (loc ++ [n]) = some node) ∧
      s.isDirectory (root.descend (ns ++ [n])) = true := by
  obtain ⟨hchild, hisdir, -⟩ := (hsel _ _).mp (h.opened ns n List.prefix_rfl).2
  obtain ⟨l, m, hl, hdir, hm, hq⟩ := mem_children.mp hchild
  rw [hloc, Option.some.injEq] at hl
  subst hl
  obtain ⟨node, hnode⟩ := mem_entriesAt.mp hm
  have hn := h.named n (by simp)
  have hnm : (root.descend ns).join n = (root.descend ns).join m := by simpa using hq
  have hcomp := congrArg Path.components hnm
  rw [components_join _ hn, components_join _ (names_of_node? hs hnode m (by simp)),
    List.append_cancel_left_eq] at hcomp
  obtain rfl := Component.name.inj (List.cons.inj hcomp).1
  exact ⟨hdir, ⟨node, hnode⟩, hisdir⟩

/-- Every step of the names leads to a path that is kept. -/
def KeptAlong (keep : Path → Bool) (root : Path) (ns : List Text) : Prop :=
  ∀ ms n, ms ++ [n] <+: ns → keep (root.descend (ms ++ [n])) = true

theorem keptAlong_concat :
    KeptAlong keep root (ns ++ [n]) ↔
      KeptAlong keep root ns ∧ keep (root.descend (ns ++ [n])) = true := by
  constructor
  · exact fun h => ⟨fun ms m hm => h ms m (hm.trans (List.prefix_append _ _)),
      h ns n List.prefix_rfl⟩
  · rintro ⟨h, hn⟩ ms m hm
    rcases List.prefix_concat_iff.mp hm with heq | hm
    · rwa [heq]
    · exact h ms m hm

/-- The steps of a list of names, counted. -/
theorem forall_step_iff {P : List Text → Text → Prop} :
    (∀ ms n, ms ++ [n] <+: ns → P ms n) ↔ ∀ k (hk : k < ns.length), P (ns.take k) ns[k] := by
  constructor
  · intro h k hk
    refine h _ _ ?_
    rw [← List.take_succ_eq_append_getElem hk]
    exact List.take_prefix _ _
  · rintro h ms n ⟨rest, rfl⟩
    simpa using h ms.length (by simp)

instance : Decidable (KeptAlong keep root ns) := decidable_of_iff' _ forall_step_iff

/-- A way is one through entries that are kept. -/
theorem IsWay.keptAlong (h : IsWay s below root ns) (hsel : Selects s keep below) :
    KeptAlong keep root ns := fun ms n hpre => ((hsel _ _).mp (h.opened ms n hpre).2).2.2

section LinkFree

variable (hs : s.IsTree) (hbase : s.LinkFree base) (hroot : s.canonical? root = some base)
  (hdir : s.node? base = some .directory) (hsel : Selects s keep below)

include hs hbase hroot hdir hsel

theorem IsWay.directory (h : IsWay s below root ns) : s.node? (base ++ ns) = some .directory := by
  induction ns using List.reverseRecOn with
  | nil => simpa using hdir
  | append_singleton ns n ih =>
    have hparent := ih (h.initial (List.prefix_append _ _))
    obtain ⟨-, ⟨node, hnode⟩, hisdir⟩ :=
      h.entry hs hsel (canonical?_descend hs hbase hroot hparent)
    rw [List.append_assoc] at hnode
    rw [isDirectory, lookup?_descend hs hbase hroot hnode] at hisdir
    simpa [hnode] using hisdir

/-- Where there are no links, every visit to a directory opens it. -/
theorem IsWay.mem_openedPaths (h : IsWay s below root ns) :
    root.descend ns ∈ openedPaths (tour s below root) := by
  have hnode := h.directory hs hbase hroot hdir hsel
  have hcanon := canonical?_descend hs hbase hroot hnode
  obtain ⟨q, hq, hqloc⟩ :=
    exists_opened_of_tour h.visited hcanon ((mem_directories_iff hs).mpr hnode)
  -- the directory was opened under its own names, as these are all that lead to it
  obtain ⟨ms, rfl, hway⟩ := exists_way (hsel.descends hs) q (mem_tour_of_mem_openedPaths hq)
  rw [canonical?_descend hs hbase hroot (hway.directory hs hbase hroot hdir hsel),
    Option.some.injEq, List.append_cancel_left_eq] at hqloc
  rwa [← hqloc]

/-- **A walk without links meets the directories that are kept, and so are those on the
way to them.** -/
theorem isWay_iff :
    IsWay s below root ns ↔ s.node? (base ++ ns) = some .directory ∧ KeptAlong keep root ns := by
  refine ⟨fun h => ⟨h.directory hs hbase hroot hdir hsel, h.keptAlong hsel⟩, ?_⟩
  induction ns using List.reverseRecOn with
  | nil => exact fun _ => IsWay.nil
  | append_singleton ns n ih =>
    rintro ⟨hnode, hkept⟩
    rw [keptAlong_concat] at hkept
    rw [← List.append_assoc] at hnode
    have hparent := directory_of_append hs (by simp) hnode
    have hn := names_of_node? hs hnode n (by simp)
    have hway := ih ⟨hparent, hkept.1⟩
    refine hway.concat hn (hway.mem_openedPaths hs hbase hroot hdir hsel) ((hsel _ _).mpr ?_)
    refine ⟨mem_children.mpr ⟨_, n, canonical?_descend hs hbase hroot hparent, hparent,
      mem_entriesAt.mpr ⟨_, hnode⟩, by simp⟩, ?_, hkept.2⟩
    rw [List.append_assoc] at hnode
    rw [isDirectory, lookup?_descend hs hbase hroot hnode]
    simp

theorem mem_openedPaths_iff (hns : ∀ n ∈ ns, IsEntryName n) :
    root.descend ns ∈ openedPaths (tour s below root) ↔
      s.node? (base ++ ns) = some .directory ∧ KeptAlong keep root ns := by
  rw [← isWay_iff hs hbase hroot hdir hsel]
  refine ⟨fun h => ?_, fun h => h.mem_openedPaths hs hbase hroot hdir hsel⟩
  obtain ⟨ms, hms, hway⟩ := exists_way (hsel.descends hs) _ (mem_tour_of_mem_openedPaths h)
  rwa [descend_inj hns hway.named (congrArg Path.components hms)]

end LinkFree

end Store

end ModuleDocs

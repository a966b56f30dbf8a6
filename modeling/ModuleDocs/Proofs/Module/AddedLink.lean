import ModuleDocs.Proofs.Module.Discovery

/-!
# A link put into a source tree

A walk opens a directory under the first path that leads to it. A link to a directory of
the tree adds such paths, so it can take directories away from their own names: what is
below them is then met under the link only, if at all. Which modules are lost is settled
by the order of the paths (`discover_added_link`):

> a module is lost exactly if the walk takes the link, the link leads to a directory
> above the module, and it comes before that directory in path order.

A link that leads out of the tree, back up to a directory around it or to a directory
that was passed already takes nothing away.
-/

namespace ModuleDocs

namespace Store

open ModuleDocs.Path

variable {s s' : Store} {root p : Path} {base dest link loc l : Location} {ln ns ms : List Text}
  {n : Text} {node : Node}

/-! ## More nodes -/

/-- Where there are more nodes, a segment leads where it led. -/
theorem next?_mono (hmore : ∀ l node, s.node? l = some node → s'.node? l = some node)
    {links : Nat} {seg : Text} {r : Nat × Location × List Text}
    (h : next? s links loc seg = some r) : next? s' links loc seg = some r := by
  rw [next?] at h ⊢
  split
  · next hup => rwa [if_pos hup] at h
  · next hup =>
    rw [if_neg hup] at h
    cases hnode : s.node? (loc ++ [seg]) with
    | none =>
      rw [hnode] at h
      cases h
    | some node =>
      rw [hnode] at h
      rwa [hmore _ _ hnode]

theorem follow_mono (hmore : ∀ l node, s.node? l = some node → s'.node? l = some node)
    (links : Nat) (loc : Location) (segs : List Text)
    (h : follow s false links loc segs = .ok (.at l)) :
    follow s' false links loc segs = .ok (.at l) := by
  match segs with
  | [] =>
    rw [follow] at h ⊢
    exact h
  | seg :: segs =>
    have hdir := directory_of_follow_cons h
    cases hseg : Component.ofSegment? seg with
    | none =>
      rw [follow_fill hdir hseg] at h
      rw [follow_fill (hmore _ _ hdir) hseg]
      exact follow_mono hmore links loc segs h
    | some c =>
      obtain ⟨links₁, loc₁, front, hnext, hfront⟩ := follow_step hseg h
      have hdec : links₁ < links ∨
          (links₁ = links ∧ (front ++ segs).length < (seg :: segs).length) := by
        rcases next?_decreases hnext with hlt | ⟨hlinks, hnil⟩
        · exact Or.inl hlt
        · exact Or.inr ⟨hlinks, by simp [hnil]⟩
      rw [follow_next (hmore _ _ hdir) hseg (next?_mono hmore hnext)]
      exact follow_mono hmore links₁ loc₁ (front ++ segs) hfront
  termination_by (links, segs.length)
  decreasing_by
    · exact Prod.Lex.right _ (by simp)
    · rcases hdec with hlt | ⟨heq, hlt⟩
      · exact Prod.Lex.left _ _ hlt
      · rw [heq]
        exact Prod.Lex.right _ hlt

/-- A path that denotes a location denotes it where there are more nodes. -/
theorem canonical?_mono (hhome : s'.home = s.home)
    (hmore : ∀ l node, s.node? l = some node → s'.node? l = some node)
    (h : s.canonical? p = some l) : s'.canonical? p = some l := by
  rw [canonical?_eq_some_iff, resolve] at h ⊢
  split
  · next hp =>
    rw [if_pos hp] at h
    cases h
  · next hp =>
    rw [if_neg hp] at h
    rw [hhome]
    exact follow_mono hmore _ _ _ h

/-! ## One link more -/

/-- A store with one node more: a link, at the names `ln` below the root, to a directory.
Without it there is no link below the root and none below that directory. -/
structure AddsLink (s s' : Store) (root : Path) (base : Location) (ln : List Text)
    (dest : Location) : Prop where
  tree : s.IsTree
  tree' : s'.IsTree
  rooted : s.canonical? root = some base
  directory : s.node? base = some .directory
  linkFree : s.LinkFree base
  home : s'.home = s.home
  free : s.node? (base ++ ln) = none
  link : ∃ target, s'.node? (base ++ ln) = some (.link target)
  elsewhere : ∀ l, l ≠ base ++ ln → s'.node? l = s.node? l
  leads : s'.canonical? (root.descend ln) = some dest
  leadsTo : s'.node? dest = some .directory
  beyond : s.LinkFree dest

namespace AddsLink

theorem more (h : AddsLink s s' root base ln dest) (hnode : s.node? l = some node) :
    s'.node? l = some node := by
  rw [h.elsewhere l, hnode]
  rintro rfl
  rw [h.free] at hnode
  cases hnode

theorem node_dest (h : AddsLink s s' root base ln dest) : s.node? dest = some .directory := by
  rw [← h.elsewhere dest, h.leadsTo]
  rintro rfl
  obtain ⟨target, htarget⟩ := h.link
  rw [h.leadsTo] at htarget
  cases htarget

theorem ln_ne_nil (h : AddsLink s s' root base ln dest) : ln ≠ [] := by
  intro hln
  have hfree := h.free
  rw [hln, List.append_nil, h.directory] at hfree
  cases hfree

theorem named (h : AddsLink s s' root base ln dest) : ∀ n ∈ ln, IsEntryName n := by
  obtain ⟨target, htarget⟩ := h.link
  exact fun n hn => names_of_node? h.tree' htarget n (by simp [hn])

/-- The link lies in a directory. -/
theorem node_dropLast (h : AddsLink s s' root base ln dest) :
    s.node? (base ++ ln.dropLast) = some .directory := by
  obtain ⟨target, htarget⟩ := h.link
  have hne := h.ln_ne_nil
  rw [← List.dropLast_append_getLast hne, ← List.append_assoc] at htarget
  have hdir := directory_of_append h.tree' (by simp) htarget
  rwa [h.elsewhere] at hdir
  intro heq
  have hlen := congrArg List.length (List.append_cancel_left heq)
  rw [List.length_dropLast] at hlen
  have := List.length_pos_iff.mpr hne
  omega

/-- Names that were there lead where they led. -/
theorem canonical?_own (h : AddsLink s s' root base ln dest)
    (hnode : s.node? (base ++ ns) = some node) :
    s'.canonical? (root.descend ns) = some (base ++ ns) :=
  canonical?_mono h.home (fun _ _ => h.more) (canonical?_descend h.tree h.linkFree h.rooted hnode)

/-! ### Where the ways of a walk lead -/

/-- What names below the root denote: what is behind the link, if they pass it. -/
def landing (base dest : Location) (ln ns : List Text) : Location :=
  if ln <+: ns then dest ++ ns.drop ln.length else base ++ ns

theorem landing_through (rest : List Text) : landing base dest ln (ln ++ rest) = dest ++ rest := by
  rw [landing, if_pos (List.prefix_append _ _), List.drop_left]

theorem landing_self : landing base dest ln ln = dest := by
  rw [landing, if_pos List.prefix_rfl, List.drop_length, List.append_nil]

theorem landing_beside (h : ¬ ln <+: ns) : landing base dest ln ns = base ++ ns := if_neg h

/-- A name more leads one further, except to the place of the link. -/
theorem landing_concat (hlink : landing base dest ln ns ++ [n] ≠ base ++ ln) :
    landing base dest ln (ns ++ [n]) = landing base dest ln ns ++ [n] := by
  by_cases hpre : ln <+: ns
  · obtain ⟨rest, rfl⟩ := hpre
    rw [List.append_assoc, landing_through, landing_through, List.append_assoc]
  · rw [landing_beside hpre] at hlink ⊢
    rw [landing_beside, List.append_assoc]
    intro hpre'
    rcases List.prefix_concat_iff.mp hpre' with heq | hpre'
    · exact hlink (by rw [heq, List.append_assoc])
    · exact hpre hpre'

/-- Neither behind the link nor beside it is another one. -/
theorem node_landing_ne (h : AddsLink s s' root base ln dest) (t : Path) :
    s.node? (landing base dest ln ns) ≠ some (.link t) := by
  by_cases hpre : ln <+: ns
  · rw [landing, if_pos hpre]
    exact h.beyond _ t
  · rw [landing_beside hpre]
    exact h.linkFree _ t

variable {skip : Path → Bool}

/-- A way to the place of the link is the link's own: on another one, the directory that
holds the link would be opened twice. -/
theorem eq_ln_of_landing (h : AddsLink s s' root base ln dest)
    (hway : IsWay s' (Module.subdirectories s' skip) root (ns ++ [n]))
    (hloc : s'.canonical? (root.descend ns) = some (landing base dest ln ns))
    (hlink : landing base dest ln ns ++ [n] = base ++ ln) : ns ++ [n] = ln := by
  by_cases hpre : ln <+: ns
  · exfalso
    have hlast : landing base dest ln ns = base ++ ln.dropLast := by
      have hdrop := congrArg List.dropLast hlink
      rwa [List.dropLast_concat, List.dropLast_append_of_ne_nil h.ln_ne_nil] at hdrop
    have hln : ln.dropLast ++ [ln.getLast h.ln_ne_nil] = ln :=
      List.dropLast_append_getLast h.ln_ne_nil
    have hopened := (hway.opened ln.dropLast (ln.getLast h.ln_ne_nil)
      (hln.symm ▸ hpre.trans (List.prefix_append _ _))).1
    have hns := names_unique (fun k hk => hway.named k (by simp [hk]))
      (fun k hk => h.named k ((List.dropLast_sublist ln).subset hk))
      (hway.opened ns n List.prefix_rfl).1 hopened
      (hloc.trans (hlast ▸ (h.canonical?_own h.node_dropLast).symm))
    have hlen := hpre.length_le
    rw [hns, List.length_dropLast] at hlen
    have := List.length_pos_iff.mpr h.ln_ne_nil
    omega
  · rwa [landing_beside hpre, List.append_assoc, List.append_cancel_left_eq] at hlink

/-- **Every way of a walk leads to a directory that was there**: through the link or by
its own names. -/
theorem canonical?_way (h : AddsLink s s' root base ln dest)
    (hway : IsWay s' (Module.subdirectories s' skip) root ns) :
    s'.canonical? (root.descend ns) = some (landing base dest ln ns) ∧
      s.node? (landing base dest ln ns) = some .directory := by
  have hsel := Module.selects_subdirectories s' skip
  induction ns using List.reverseRecOn with
  | nil =>
    rw [landing_beside fun hpre => h.ln_ne_nil (List.prefix_nil.mp hpre)]
    have hnode : s.node? (base ++ []) = some .directory := by simpa using h.directory
    exact ⟨h.canonical?_own hnode, hnode⟩
  | append_singleton ns n ih =>
    obtain ⟨hloc, hdir⟩ := ih (hway.initial (List.prefix_append _ _))
    obtain ⟨-, ⟨node, hnode⟩, hisdir⟩ := hway.entry h.tree' hsel hloc
    by_cases hlink : landing base dest ln ns ++ [n] = base ++ ln
    · rw [h.eq_ln_of_landing hway hloc hlink, landing_self]
      exact ⟨h.leads, h.node_dest⟩
    · have hown := hnode
      rw [h.elsewhere _ hlink] at hown
      have hnolink (t : Path) : node ≠ .link t := by
        intro ht
        rw [ht, ← landing_concat hlink] at hown
        exact h.node_landing_ne t hown
      have hcanon := canonical?_join hloc (h.more hdir) (hway.named n (by simp)) hnode hnolink
      rw [descend_append, descend_cons, descend_nil, isDirectory, lookup?, hcanon,
        Option.bind_some, hnode] at hisdir
      rw [descend_append, descend_cons, descend_nil, landing_concat hlink]
      exact ⟨hcanon, by rw [hown]; simpa using hisdir⟩

/-- The order of ways is the order of their paths. -/
theorem order_descend (hns : ∀ n ∈ ns, IsEntryName n) (hms : ∀ n ∈ ms, IsEntryName n) :
    orderComponents (root.descend ns).components (root.descend ms).components =
      orderComponents (ns.map .name) (ms.map .name) := by
  rw [components_descend root hns, components_descend root hms, orderComponents_append_left]

/-- From an opened directory a walk goes on to what was in it and is kept. -/
theorem isWay_concat (h : AddsLink s s' root base ln dest)
    (hway : IsWay s' (Module.subdirectories s' skip) root ms)
    (hopened : root.descend ms ∈ openedPaths (tour s' (Module.subdirectories s' skip) root))
    (hnode : s.node? (base ++ (ms ++ [n])) = some .directory)
    (hkept : Module.isEntered skip (root.descend (ms ++ [n])) = true) :
    IsWay s' (Module.subdirectories s' skip) root (ms ++ [n]) := by
  have hnode' := hnode
  rw [← List.append_assoc] at hnode'
  have hparent := directory_of_append h.tree (by simp) hnode'
  refine hway.concat (names_of_node? h.tree hnode n (by simp)) hopened
    ((Module.selects_subdirectories s' skip _ _).mpr ⟨mem_children.mpr ⟨_, n,
      h.canonical?_own hparent, h.more hparent, mem_entriesAt.mpr ⟨_, h.more hnode'⟩, by simp⟩,
      ?_, hkept⟩)
  exact isDirectory_iff.mpr ⟨_, h.canonical?_own hnode, h.more hnode⟩

/-- The link and the directory it leads to are not both opened. -/
theorem not_both_opened (h : AddsLink s s' root base ln (base ++ ms))
    (hln : root.descend ln ∈ openedPaths (tour s' (Module.subdirectories s' skip) root)) :
    root.descend ms ∉ openedPaths (tour s' (Module.subdirectories s' skip) root) := by
  intro hms
  have hnames : ∀ n ∈ ms, IsEntryName n :=
    fun n hn => names_of_node? h.tree h.node_dest n (by simp [hn])
  have heq := names_unique h.named hnames hln hms
    (h.leads.trans (h.canonical?_own h.node_dest).symm)
  have hfree := h.free
  rw [heq, h.node_dest] at hfree
  cases hfree

/-- Behind the link the root is not opened, as it was opened before. -/
theorem landing_ne_root (h : AddsLink s s' root base ln dest)
    (hway : IsWay s' (Module.subdirectories s' skip) root (ln ++ ms))
    (hopened : root.descend (ln ++ ms) ∈
      openedPaths (tour s' (Module.subdirectories s' skip) root)) : dest ++ ms ≠ base := by
  intro hbase
  have hroot : root.descend [] ∈ openedPaths (tour s' (Module.subdirectories s' skip) root) :=
    hway.opened_initial hopened List.nil_prefix
  have hloc := (h.canonical?_way hway).1
  have hnode : s.node? (base ++ []) = some .directory := by simpa using h.directory
  rw [landing_through, hbase, ← List.append_nil base, ← h.canonical?_own hnode] at hloc
  have hnil := names_unique hway.named (by simp) hopened hroot hloc
  exact h.ln_ne_nil (List.append_eq_nil_iff.mp hnil).1

/-- A visited directory has been opened under its own names, unless the link leads to it,
or to one it lies in, from before. -/
theorem mem_openedPaths_of_clear (h : AddsLink s s' root base ln dest)
    (hway : IsWay s' (Module.subdirectories s' skip) root ms)
    (hnode : s.node? (base ++ ms) = some .directory)
    (hclear : IsWay s' (Module.subdirectories s' skip) root ln → ∀ t, dest = base ++ t → t <+: ms →
      orderComponents (ln.map .name) (t.map .name) ≠ .lt) :
    root.descend ms ∈ openedPaths (tour s' (Module.subdirectories s' skip) root) := by
  obtain ⟨v, hv, hvp⟩ := List.mem_map.mp hway.visited
  obtain ⟨a, b, hw⟩ := List.append_of_mem hv
  obtain ⟨u, hu, hou, hcu⟩ := exists_opened_of_walk hw (hvp ▸ h.canonical?_own hnode)
    ((mem_directories_iff h.tree').mpr (h.more hnode)) (by simp)
  have hmem : u ∈ tour s' (Module.subdirectories s' skip) root := by
    rw [hw, List.append_cons]
    exact List.mem_append_left _ hu
  have hopened : u.path ∈ openedPaths (tour s' (Module.subdirectories s' skip) root) :=
    mem_openedPaths.mpr (hou ▸ hmem)
  obtain ⟨ks, hks, hwayk⟩ := exists_way
    ((Module.selects_subdirectories s' skip).descends h.tree') u.path
    (mem_tour_of_mem_openedPaths hopened)
  rw [hks] at hcu hopened
  have hlanding := (h.canonical?_way hwayk).1
  rw [hcu, Option.some.injEq] at hlanding
  by_cases hpre : ln <+: ks
  · exfalso
    obtain ⟨rest, rfl⟩ := hpre
    rw [landing_through] at hlanding
    have hln := hwayk.initial (List.prefix_append ln rest)
    have hlnopened := hwayk.opened_initial hopened (List.prefix_append ln rest)
    rcases List.append_eq_append_iff.mp hlanding with ⟨t, rfl, rfl⟩ | ⟨x, hbase, rfl⟩
    · cases rest with
      | nil =>
        simp only [List.append_nil] at hks hvp hclear hway hopened
        rcases List.mem_append.mp hu with hua | huv
        · -- the link came first, as what is visited comes in order
          have hlt := Module.lt_of_tour h.tree' hw hua
          rw [hks, hvp, order_descend h.named hway.named] at hlt
          exact hclear hln t rfl List.prefix_rfl hlt
        · rw [List.mem_singleton.mp huv, hvp] at hks
          exact h.not_both_opened hopened (hks ▸ hopened)
      | cons n rest =>
        exact h.not_both_opened hlnopened (hway.opened t n ⟨rest, by simp⟩).1
    · have hpre : ln ++ x <+: ln ++ (x ++ ms) := ⟨ms, by simp⟩
      exact h.landing_ne_root (hwayk.initial hpre) (hwayk.opened_initial hopened hpre) hbase.symm
  · rw [landing_beside hpre, List.append_cancel_left_eq] at hlanding
    rwa [hlanding]

/-- A directory that is kept, and so are those on the way to it, is met and opened under
its own names, unless the link leads to one of them first. -/
theorem opened_of_clear (h : AddsLink s s' root base ln dest)
    (hnode : s.node? (base ++ ms) = some .directory)
    (hkept : KeptAlong (Module.isEntered skip) root ms)
    (hclear : IsWay s' (Module.subdirectories s' skip) root ln → ∀ t, dest = base ++ t → t <+: ms →
      orderComponents (ln.map .name) (t.map .name) ≠ .lt) :
    IsWay s' (Module.subdirectories s' skip) root ms ∧
      root.descend ms ∈ openedPaths (tour s' (Module.subdirectories s' skip) root) := by
  induction ms using List.reverseRecOn with
  | nil => exact ⟨IsWay.nil, h.mem_openedPaths_of_clear IsWay.nil hnode hclear⟩
  | append_singleton ms n ih =>
    rw [keptAlong_concat] at hkept
    have hnode' := hnode
    rw [← List.append_assoc] at hnode'
    have hparent := directory_of_append h.tree (by simp) hnode'
    obtain ⟨hway, hopened⟩ := ih hparent hkept.1 fun hln t ht hpre =>
      hclear hln t ht (hpre.trans (List.prefix_append _ _))
    have hway' := h.isWay_concat hway hopened hnode hkept.2
    exact ⟨hway', h.mem_openedPaths_of_clear hway' hnode hclear⟩

/-! ### What is lost -/

/-- The walk takes the link, and the link leads to a directory above `ns` from before it. -/
structure Hides (skip : Path → Bool) (root : Path) (base dest : Location) (ln ns : List Text) :
    Prop where
  /-- Neither the link nor a directory on the way to it is passed over. -/
  taken : ∀ ms n, ms ++ [n] <+: ln →
    Module.isSkippedName n = false ∧ skip (root.descend (ms ++ [n])) = false
  earlier : ∃ t, dest = base ++ t ∧ t <+: ns ∧ t ≠ ns ∧
    orderComponents (ln.map .name) (t.map .name) = .lt

theorem isWay_link (h : AddsLink s s' root base ln dest)
    (hkept : KeptAlong (Module.isEntered skip) root ln) :
    IsWay s' (Module.subdirectories s' skip) root ln := by
  have hne := h.ln_ne_nil
  have hln : ln.dropLast ++ [ln.getLast hne] = ln := List.dropLast_append_getLast hne
  have hkept' := hkept
  rw [← hln, keptAlong_concat] at hkept'
  -- the link leads to no directory that comes after it and that it lies in
  obtain ⟨hway, hopened⟩ := h.opened_of_clear h.node_dropLast hkept'.1 fun _ t ht hpre hlt => by
    obtain ⟨rest, hrest⟩ := hpre.trans (List.dropLast_prefix ln)
    rw [← hrest, List.map_append] at hlt
    have hle := orderComponents_append_left (t.map .name) (rest.map .name) []
    rw [List.append_nil, hlt] at hle
    cases rest <;> cases hle
  obtain ⟨target, htarget⟩ := h.link
  have hentry : ln.getLast hne ∈ s'.entriesAt (base ++ ln.dropLast) := by
    refine mem_entriesAt.mpr ⟨.link target, ?_⟩
    rw [List.append_assoc, hln, htarget]
  have hnamed := h.named _ (List.getLast_mem hne)
  have hmem : root.descend (ln.dropLast ++ [ln.getLast hne]) ∈
      Module.subdirectories s' skip (root.descend ln.dropLast) := by
    refine (Module.selects_subdirectories s' skip _ _).mpr ⟨mem_children.mpr ⟨_, _,
      h.canonical?_own h.node_dropLast, h.more h.node_dropLast, hentry, by simp⟩, ?_, hkept'.2⟩
    rw [hln]
    exact isDirectory_iff.mpr ⟨_, h.leads, h.leadsTo⟩
  exact hln ▸ hway.concat hnamed hopened hmem

/-- **A directory is still met under its own names exactly if the link does not hide it.** -/
theorem isWay_iff_not_hides (h : AddsLink s s' root base ln dest)
    (hmet : Module.IsMet s root base skip ns) :
    IsWay s' (Module.subdirectories s' skip) root ns ↔ ¬ Hides skip root base dest ln ns := by
  have hsel := Module.selects_subdirectories s' skip
  constructor
  · rintro hway ⟨htaken, t, rfl, ⟨rest, rfl⟩, hne, hlt⟩
    have hln := h.isWay_link ((Module.keptAlong_isEntered h.named).mpr htaken)
    obtain ⟨n, rest, rfl⟩ := List.exists_cons_of_ne_nil (l := rest) (by
      rintro rfl
      exact hne (by simp))
    have hnames : ∀ k ∈ t, IsEntryName k := fun k hk => hway.named k (by simp [hk])
    -- by the time the link was visited its directory had been opened, and not by its own names
    obtain ⟨v, hv, hvp⟩ := List.mem_map.mp hln.visited
    obtain ⟨a, b, hw⟩ := List.append_of_mem hv
    obtain ⟨u, hu, hou, hcu⟩ := exists_opened_of_walk hw (hvp ▸ h.leads)
      ((mem_directories_iff h.tree').mpr h.leadsTo) (by simp)
    have hmem : u ∈ tour s' (Module.subdirectories s' skip) root := by
      rw [hw]
      rcases List.mem_append.mp hu with hu | hu
      · simp [hu]
      · simp [List.mem_singleton.mp hu]
    have heq := opened_unique (mem_openedPaths.mpr (hou ▸ hmem) :
        u.path ∈ openedPaths (tour s' (Module.subdirectories s' skip) root))
      (hway.opened t n ⟨rest, by simp⟩).1 (hcu.trans (h.canonical?_own h.node_dest).symm)
    rcases List.mem_append.mp hu with hua | huv
    · have hlt' := Module.lt_of_tour h.tree' hw hua
      rw [heq, hvp, order_descend hnames h.named] at hlt'
      exact orderComponents_asymm hlt hlt'
    · rw [List.mem_singleton.mp huv, hvp] at heq
      have hfree := h.free
      rw [descend_inj h.named hnames (congrArg Path.components heq), h.node_dest] at hfree
      cases hfree
  · intro hhides
    have hne := hmet.proper
    have hns : ns.dropLast ++ [ns.getLast hne] = ns := List.dropLast_append_getLast hne
    have hkept := (Module.keptAlong_isEntered (hmet.named h.tree)).mpr hmet.entered
    have hnode := hmet.directory
    rw [← hns] at hkept hnode ⊢
    rw [keptAlong_concat] at hkept
    have hparent : s.node? (base ++ ns.dropLast) = some .directory := by
      rw [← List.append_assoc] at hnode
      exact directory_of_append h.tree (by simp) hnode
    obtain ⟨hway, hopened⟩ := h.opened_of_clear hparent hkept.1 fun hln t ht hpre hlt =>
      hhides ⟨(Module.keptAlong_isEntered h.named).mp (hln.keptAlong hsel), t, ht,
        hpre.trans (List.dropLast_prefix ns), fun heq => by
          have hlen := hpre.length_le
          rw [heq, List.length_dropLast] at hlen
          have := List.length_pos_iff.mpr hne
          omega, hlt⟩
    exact h.isWay_concat hway hopened hnode hkept.2

/-! ### Discovery with the link -/

/-- The ignore file reads the same: a link in its place leads to a directory. -/
theorem ignoreFile_eq (h : AddsLink s s' root base ln dest) :
    Module.ignoreFile s' root = Module.ignoreFile s root := by
  have hname : IsEntryName ".gitignore".toList := by decide
  have hrooted := canonical?_mono h.home (fun _ _ => h.more) h.rooted
  have hread (b : ByteArray) : s'.read (root.join ".gitignore".toList) = .ok b ↔
      s.read (root.join ".gitignore".toList) = .ok b := by
    rw [read_eq_ok_iff, read_eq_ok_iff]
    constructor
    · rintro ⟨loc, hloc, hb⟩
      obtain ⟨hdir, node, hnode⟩ := exists_node?_of_canonical?_join hrooted hname hloc
      by_cases hlink : base ++ [".gitignore".toList] = base ++ ln
      · have hleads := h.leads
        rw [← List.append_cancel_left hlink, descend_cons, descend_nil, hloc,
          Option.some.injEq] at hleads
        rw [hleads, h.leadsTo] at hb
        cases hb
      · have hown := hnode
        rw [h.elsewhere _ hlink] at hown
        have hnolink : ∀ t, node ≠ .link t := fun t ht => h.linkFree _ t (ht ▸ hown)
        rw [canonical?_join hrooted hdir hname hnode hnolink, Option.some.injEq] at hloc
        subst hloc
        rw [hnode] at hb
        exact ⟨_, canonical?_join h.rooted h.directory hname hown hnolink, hown.trans hb⟩
    · rintro ⟨loc, hloc, hb⟩
      exact ⟨loc, canonical?_mono h.home (fun _ _ => h.more) hloc, h.more hb⟩
  rw [Module.ignoreFile, Module.ignoreFile]
  cases hr : s.read (root.join ".gitignore".toList) with
  | ok b => rw [(hread b).mpr hr]
  | error e =>
    cases hr' : s'.read (root.join ".gitignore".toList) with
    | ok b =>
      rw [(hread b).mp hr'] at hr
      cases hr
    | error e' => rfl

theorem canonical?_root (h : AddsLink s s' root base ln dest) :
    s'.canonical? root = s.canonical? root := by
  rw [h.rooted, canonical?_mono h.home (fun _ _ => h.more) h.rooted]

end AddsLink

end Store

namespace Module

open ModuleDocs.Store

variable {s s' : Store} {root : Path} {base dest : Location} {ln : List Text}

/-- **Modules are lost behind a link** exactly if the walk takes it and it leads, from
before, to a directory above them. The others are still discovered. -/
theorem discover_added_link (h : AddsLink s s' root base ln dest) {settings : ScanSettings}
    {rules : IgnoreRules} (hrules : excludeRules root settings.exclude = .ok rules) :
    ∃ modules modules', discover s root settings = .ok modules ∧
      discover s' root settings = .ok modules' ∧
      ∀ m ∈ modules, m ∈ modules' ↔
        ¬ AddsLink.Hides (isPassedOver s root settings rules) root base dest ln
          (segments m.relative) := by
  have hisdir : s.isDirectory root = true := isDirectory_iff.mpr ⟨base, h.rooted, h.directory⟩
  have hisdir' : s'.isDirectory root = true := isDirectory_iff.mpr
    ⟨base, canonical?_mono h.home (fun _ _ => h.more) h.rooted, h.more h.directory⟩
  have hskip : isPassedOver s' root settings rules = isPassedOver s root settings rules := by
    funext p
    rw [isPassedOver, isPassedOver, h.ignoreFile_eq]
  refine ⟨_, _, discover_eq hisdir hrules, discover_eq hisdir' hrules, fun m hm => ?_⟩
  obtain ⟨ns, hmet, hread⟩ :=
    (mem_discoverWhere_iff h.tree h.linkFree h.rooted h.directory).mp hm
  have hnames := hmet.named h.tree
  have hrel := relative_of_classifyPath hmet.proper hnames hread
  rw [hskip, hrel, segments_intercalate hmet.proper hnames, ← h.isWay_iff_not_hides hmet,
    mem_discoverWhere_iff_way h.tree']
  constructor
  · rintro ⟨ks, hks, hway, hread'⟩
    rw [relative_of_classifyPath hks hway.named hread'] at hrel
    rwa [← Text.intercalate_inj hks hmet.proper (fun n hn => (hway.named n hn).solid)
      (fun n hn => (hnames n hn).solid) hrel]
  · exact fun hway => ⟨ns, hmet.proper, hway, (classifyPath_congr h.canonical?_root).trans hread⟩

namespace Sample

/-- A module beside which a link to its parent is put, under a name that no module has. -/
def plain : Store where
  home := []
  nodes := ["c", "c/b", "c/b/library"].map folder

def linkNames : List Text := ["c".toList, "a-common".toList]

def linked : Store := plain.setNode linkNames (.link ⟨['b']⟩)

theorem addsLink_linked :
    AddsLink plain linked ⟨['.']⟩ [] linkNames ["c".toList, "b".toList] where
  tree := by decide
  tree' := by decide
  rooted := canonical?_current node?_nil
  directory := node?_nil
  linkFree := linkFree_folders
  home := by decide
  free := by decide
  link := ⟨_, node?_setNode (l := linkNames) (by decide)⟩
  elsewhere l hl := (node?_setNode (by decide)).trans (if_neg hl)
  leads := by
    simp [linked, linkNames, plain, folder, canonical?, resolve, Path.isAbsolute, follow, node?,
      setNode, Path.join, List.splitOn_cons_eq_if_modifyHead, linkLimit]
  leadsTo := by decide
  beyond := linkFree_folders

end Sample

open Module.Sample in
/-- In the sample the only module is lost. -/
theorem discover_added_link_sample :
    let settings : ScanSettings := { container := ['c'], disableGitignore := true }
    ∃ modules modules', discover plain ⟨['.']⟩ settings = .ok modules ∧
      discover linked ⟨['.']⟩ settings = .ok modules' ∧
      ∃ m ∈ modules, m.relative = "c/b/library".toList ∧ m ∉ modules' := by
  intro settings
  have hrules : excludeRules ⟨['.']⟩ settings.exclude = .ok ⟨⟨['.']⟩, []⟩ := rfl
  have hskip : isPassedOver plain ⟨['.']⟩ settings ⟨⟨['.']⟩, []⟩ = fun _ => false := rfl
  obtain ⟨modules, modules', hfound, hfound', hlost⟩ := discover_added_link addsLink_linked hrules
  refine ⟨modules, modules', hfound, hfound', ?_⟩
  have hall := discover_eq (isDirectory_iff.mpr ⟨[], canonical?_current node?_nil, node?_nil⟩) hrules
    (s := plain)
  rw [hfound, Except.ok.injEq] at hall
  let m : ModuleDir := ⟨⟨"./c/b/library".toList⟩, "c/b/library".toList, ['b'], ['b'], ['b'], .library⟩
  have hmet : IsMet plain ⟨['.']⟩ [] (fun _ => false)
      ["c".toList, "b".toList, "library".toList] := by
    decide +kernel
  have hm : m ∈ modules := by
    rw [hall, hskip, mem_discoverWhere_iff addsLink_linked.tree addsLink_linked.linkFree
      addsLink_linked.rooted addsLink_linked.directory]
    exact ⟨_, hmet, by decide +kernel⟩
  refine ⟨m, hm, rfl, fun hm' => (hlost m hm).mp hm' ?_⟩
  rw [hskip]
  exact ⟨forall_step_iff.mpr (by decide +kernel),
    ["c".toList, "b".toList], rfl, by decide +kernel, by decide +kernel, by decide +kernel⟩

end Module

end ModuleDocs

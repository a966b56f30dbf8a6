import ModuleDocs.Proofs.Module.Discovery
import ModuleDocs.Proofs.Text.Joined

/-!
# A root that is the container

A path is a module directory if the container stands above the name, or if the container
occurs nowhere in the path and is the root (`classifyPath_eq_some_iff`). So the same
directory can be read from the container, as `rel`, and from the directory above it, as
`c/rel`. In the second reading the container stands in front of everything. In the first
one it is looked for in `rel` before the root is asked, and a later occurrence of its name
counts against the root: the readings agree unless the container is missing above the
module and is the name or the kind of it (`classifyPath_at_container`).
-/

namespace ModuleDocs

namespace Module

open ModuleDocs.Path ModuleDocs.Store

variable {s : Store} {root : Path} {container c relative : Text} {front rest : List Text}
  {m : ModuleDir}

/-! ## The shape of a module directory -/

/-- The container stands above a name, or it is the root and occurs nowhere. -/
theorem underContainer_iff :
    underContainer s root container (front ++ rest) front.length = true ↔
      container ∈ front ∨ container ∉ front ++ rest ∧ rootIsContainer s root container = true := by
  rw [underContainer, List.findIdx?_append]
  cases hfront : front.findIdx? fun n => decide (n = container) with
  | some i =>
    obtain ⟨hlt, hi, -⟩ := List.findIdx?_eq_some_iff_getElem.mp hfront
    have hmem : container ∈ front := of_decide_eq_true hi ▸ List.getElem_mem hlt
    simp [hlt, hmem]
  | none =>
    have hnot : container ∉ front := fun hmem => by
      simpa using List.findIdx?_eq_none_iff.mp hfront container hmem
    cases hrest : rest.findIdx? fun n => decide (n = container) with
    | some i =>
      obtain ⟨hlt, hi, -⟩ := List.findIdx?_eq_some_iff_getElem.mp hrest
      have hmem : container ∈ rest := of_decide_eq_true hi ▸ List.getElem_mem hlt
      simp [hnot, hmem]
    | none =>
      have hnot' : container ∉ rest := fun hmem => by
        simpa using List.findIdx?_eq_none_iff.mp hrest container hmem
      simp [hnot, hnot']

theorem segment_of_ofSegment? {n : Text} {kind : ModuleKind}
    (h : ModuleKind.ofSegment? n = some kind) : kind.segment = n := by
  simpa using List.find?_some h

/-- The module directory that a path names below a root. -/
def moduleDir (root : Path) (front : List Text) (name : Text) (kind : ModuleKind) : ModuleDir where
  path := root.join (List.intercalate ['/'] (front ++ [name, kind.segment]))
  relative := List.intercalate ['/'] (front ++ [name, kind.segment])
  name
  nameSpace := family name
  group := family name
  kind

/-- **What is read as a module directory**: a name and a kind below a container, with one
segment for agents at most and no denied one. -/
theorem classifyPath_eq_some_iff : classifyPath s root relative container = some m ↔
    ∃ front name kind, segments relative = front ++ [name, kind.segment] ∧
      (container ∈ front ∨
        container ∉ segments relative ∧ rootIsContainer s root container = true) ∧
      (segments relative).count ModuleKind.agent.segment ≤ 1 ∧
      hasDeniedSegment (segments relative) = false ∧ m = moduleDir root front name kind := by
  simp only [classifyPath, bind, Option.bind_eq_some_iff, Option.guard_eq_some', pure,
    Option.some.injEq, Bool.not_eq_true', exists_const]
  constructor
  · rintro ⟨kind, ⟨last, hlast, hkind⟩, name, hname, hunder, ⟨hcount, hdenied⟩, rfl⟩
    obtain ⟨init, hinit⟩ := List.getLast?_eq_some_iff.mp hlast
    rw [hinit, List.dropLast_concat] at hname
    obtain ⟨front, rfl⟩ := List.getLast?_eq_some_iff.mp hname
    have hsegs : segments relative = front ++ [name, kind.segment] := by
      rw [hinit, segment_of_ofSegment? hkind, List.append_assoc]
      rfl
    have hlength : (segments relative).length - 2 = front.length := by simp [hsegs]
    rw [hlength, hsegs, underContainer_iff] at hunder
    refine ⟨front, name, kind, hsegs, hsegs ▸ hunder, hcount, hdenied, ?_⟩
    rw [moduleDir, hsegs]
  · rintro ⟨front, name, kind, hsegs, hunder, hcount, hdenied, rfl⟩
    have hlength : (segments relative).length - 2 = front.length := by simp [hsegs]
    rw [hsegs] at hunder
    refine ⟨kind, ⟨kind.segment, by simp [hsegs], ModuleKind.ofSegment?_segment kind⟩, name, ?_,
      ?_, ⟨hcount, hdenied⟩, ?_⟩
    · rw [hsegs, List.append_cons, List.dropLast_concat, List.getLast?_concat]
    · rw [hlength, hsegs]
      exact underContainer_iff.mpr hunder
    · rw [moduleDir, hsegs]

/-! ## Below the container and above it -/

/-- A name for a container that denies nothing by itself. -/
structure IsContainerName (c : Text) : Prop where
  entry : IsEntryName c
  ne_agent : c ≠ ModuleKind.agent.segment
  allowed : hasDeniedSegment [c] = false
  ne_bootstrap : c ≠ "bootstrap".toList

instance (c : Text) : Decidable (IsContainerName c) :=
  decidable_of_iff (IsEntryName c ∧ c ≠ ModuleKind.agent.segment ∧ hasDeniedSegment [c] = false ∧
      c ≠ "bootstrap".toList)
    ⟨fun h => ⟨h.1, h.2.1, h.2.2.1, h.2.2.2⟩,
      fun h => ⟨h.entry, h.ne_agent, h.allowed, h.ne_bootstrap⟩⟩

theorem rootIsContainer_join (root : Path) (hc : IsEntryName c) :
    rootIsContainer s (root.join c) c = true := by
  rw [rootIsContainer, name?_join root hc]
  exact beq_self_eq_true c

theorem segments_cons (hc : IsEntryName c) : segments (c ++ '/' :: relative) =
    c :: segments relative := by
  rw [segments, List.splitOn_append_cons_self, List.splitOn_eq_singleton hc.solid,
    List.singleton_append, List.filter_cons_of_pos (by simpa using hc.ne_nil), segments]

theorem hasDeniedSegment_cons (hc : IsContainerName c) (ns : List Text) :
    hasDeniedSegment (c :: ns) = hasDeniedSegment ns := by
  have hallowed := hc.allowed
  simp only [hasDeniedSegment, Bool.or_eq_false_iff] at hallowed
  obtain ⟨⟨⟨⟨htest, htesting⟩, hcommon⟩, -⟩, -⟩ := hallowed
  have hbootstrap : (c == "bootstrap".toList) = false := beq_eq_false_iff_ne.mpr hc.ne_bootstrap
  rw [hasDeniedSegment, htest, htesting, hcommon, hbootstrap]
  rfl

/-- From the container, a module is found where the container is named nowhere, or above it. -/
theorem classifyPath_join_iff (hc : IsContainerName c) :
    classifyPath s (root.join c) relative c = some m ↔
      ∃ front name kind, segments relative = front ++ [name, kind.segment] ∧
        (c ∈ segments relative → c ∈ front) ∧
        (segments relative).count ModuleKind.agent.segment ≤ 1 ∧
        hasDeniedSegment (segments relative) = false ∧
        m = moduleDir (root.join c) front name kind := by
  rw [classifyPath_eq_some_iff]
  refine exists_congr fun front => exists_congr fun name => exists_congr fun kind =>
    and_congr_right fun _ => and_congr_left fun _ => ?_
  rw [rootIsContainer_join root hc.entry]
  tauto

/-- From above the container, a module is found wherever it is. -/
theorem classifyPath_cons_iff (hc : IsContainerName c) :
    classifyPath s root (c ++ '/' :: relative) c = some m ↔
      ∃ front name kind, segments relative = front ++ [name, kind.segment] ∧
        (segments relative).count ModuleKind.agent.segment ≤ 1 ∧
        hasDeniedSegment (segments relative) = false ∧
        m = moduleDir root (c :: front) name kind := by
  rw [classifyPath_eq_some_iff, segments_cons hc.entry, hasDeniedSegment_cons hc,
    List.count_cons_of_ne hc.ne_agent]
  constructor
  · rintro ⟨front, name, kind, hsegs, hunder, hcount, hdenied, rfl⟩
    cases front with
    | nil =>
      -- the container would be the name of the module
      simp at hunder
    | cons n front =>
      obtain ⟨rfl, htail⟩ := List.cons.inj hsegs
      exact ⟨front, name, kind, htail, hcount, hdenied, rfl⟩
  · rintro ⟨front, name, kind, hsegs, hcount, hdenied, rfl⟩
    exact ⟨c :: front, name, kind, by rw [hsegs]; rfl, Or.inl List.mem_cons_self, hcount,
      hdenied, rfl⟩

theorem head?_intercalate_segments (relative : Text) :
    (List.intercalate ['/'] (segments relative)).head? ≠ some '/' := by
  cases hsegs : segments relative with
  | nil => simp
  | cons n ns =>
    have hn : n ∈ segments relative := by simp [hsegs]
    obtain ⟨hfield, hne⟩ := List.mem_filter.mp hn
    rw [Text.head?_intercalate (by simpa using hne)]
    exact fun h => Text.not_mem_of_mem_splitOn hfield (List.mem_of_head? h)

/-- The same directory, named from above the container and from the container. -/
theorem moduleDir_cons {name : Text} {kind : ModuleKind} (hc : IsContainerName c)
    (hsegs : segments relative = front ++ [name, kind.segment]) :
    moduleDir root (c :: front) name kind =
      { moduleDir (root.join c) front name kind with
        relative := c ++ '/' :: (moduleDir (root.join c) front name kind).relative } := by
  have hhead := head?_intercalate_segments relative
  rw [hsegs] at hhead
  have hjoin : List.intercalate ['/'] (c :: front ++ [name, kind.segment]) =
      c ++ '/' :: List.intercalate ['/'] (front ++ [name, kind.segment]) := by
    rw [List.cons_append, List.intercalate_cons_of_ne_nil (by simp), List.append_assoc,
      List.singleton_append]
  simp only [moduleDir, hjoin, join_join hc.entry hhead]

/-- **The container as the root.** What is read as a module directory from the container
is read as the same one from above it. Of those read from above it, lost at the container
are those whose name or kind is the name of the container, unless the container stands
above them once more. -/
theorem classifyPath_at_container (hc : IsContainerName c) (s : Store) (root : Path)
    (relative : Text) :
    (∀ m, classifyPath s (root.join c) relative c = some m →
      classifyPath s root (c ++ '/' :: relative) c =
        some { m with relative := c ++ '/' :: m.relative }) ∧
    ∀ m, classifyPath s root (c ++ '/' :: relative) c = some m →
      (classifyPath s (root.join c) relative c = none ↔
        c ∉ (segments relative).dropLast.dropLast ∧ (c = m.name ∨ c = m.kind.segment)) := by
  constructor
  · intro m h
    obtain ⟨front, name, kind, hsegs, -, hcount, hdenied, rfl⟩ := (classifyPath_join_iff hc).mp h
    exact (classifyPath_cons_iff hc).mpr
      ⟨front, name, kind, hsegs, hcount, hdenied, (moduleDir_cons hc hsegs).symm⟩
  · intro m h
    obtain ⟨front, name, kind, hsegs, hcount, hdenied, rfl⟩ := (classifyPath_cons_iff hc).mp h
    have hfront : (segments relative).dropLast.dropLast = front := by
      rw [hsegs, List.append_cons, List.dropLast_concat, List.dropLast_concat]
    have hmem : c ∈ segments relative ↔ c ∈ front ∨ c = name ∨ c = kind.segment := by
      simp [hsegs]
    have hread : classifyPath s (root.join c) relative c ≠ none ↔
        (c ∈ segments relative → c ∈ front) := by
      rw [Option.ne_none_iff_exists']
      constructor
      · rintro ⟨m, hm⟩
        obtain ⟨front', name', kind', hsegs', habove, -⟩ := (classifyPath_join_iff hc).mp hm
        have hsame : front = front' := List.append_inj_left' (hsegs.symm.trans hsegs') rfl
        rwa [hsame]
      · intro habove
        exact ⟨_, (classifyPath_join_iff hc).mpr
          ⟨front, name, kind, hsegs, habove, hcount, hdenied, rfl⟩⟩
    rw [hfront, ← not_iff_not, ← ne_eq, hread, hmem]
    show _ ↔ ¬ (c ∉ front ∧ (c = name ∨ c = kind.segment))
    tauto

/-- A module of the name of its container is read from above the container and not from
the container. -/
theorem classifyPath_at_container_sample :
    let s := Store.empty []
    let c := "instrumentation".toList
    ∃ m, classifyPath s ⟨"/r".toList⟩ "instrumentation/foo/instrumentation/library".toList c =
        some m ∧ m.name = c ∧
      classifyPath s ⟨"/r/instrumentation".toList⟩ "foo/instrumentation/library".toList c =
        none := by
  intro s c
  have hc : IsContainerName c := by decide
  have hread : ∃ m, classifyPath s ⟨"/r".toList⟩
      "instrumentation/foo/instrumentation/library".toList c = some m ∧ m.name = c :=
    ⟨_, by rfl, by decide⟩
  obtain ⟨m, hm, hname⟩ := hread
  refine ⟨m, hm, hname, ?_⟩
  exact ((classifyPath_at_container hc s ⟨"/r".toList⟩ "foo/instrumentation/library".toList).2 m
    hm).mpr ⟨by decide, Or.inl hname.symm⟩

end Module

end ModuleDocs

import ModuleDocs.Fragment.Render
import ModuleDocs.Proofs.Module.Container

/-!
# The shape of a module path

What is read as a module directory is settled by the segments of its path: how many there
are, what the last one is, which ones are denied, and where the container stands
(`HasModuleShape`). The rest of a module directory is read off the same segments, and
joining them again gives a path that is read alike (`classifyPath_shape`).

The name space is cut off the name at its first dash when a path is read, and the family of
a name is found by the place of that dash when the libraries are listed. Both leave a name
that begins with a dash as it is, so they are one (`family_eq`).
-/

namespace ModuleDocs

namespace Module

open ModuleDocs.Store

variable {s : Store} {root : Path} {container relative name : Text} {ns front : List Text}
  {kind : ModuleKind} {m : ModuleDir}

/-! ## The family of a name -/

/-- **The family that libraries are listed under** is the name space of the module. -/
theorem family_eq (name : Text) : Fragment.family name = family name := by
  rw [Fragment.family, family, Text.splitFirst?_eq_map_findIdx?]
  cases hdash : name.findIdx? fun c => decide (c = '-') with
  | none => rfl
  | some i =>
    cases i with
    | zero => rfl
    | succ i =>
      -- something stands before the dash
      obtain ⟨hlt, -, -⟩ := List.findIdx?_eq_some_iff_getElem.mp hdash
      cases name with
      | nil => cases hlt
      | cons c r => rfl

/-! ## The conditions on the segments -/

/-- Segments that lie in no test tree and hold no shared code. -/
theorem hasDeniedSegment_eq_false_iff : hasDeniedSegment ns = false ↔
    (∀ n ∈ ns, n ≠ "test".toList ∧ ¬ "testing".toList <+: n ∧ ¬ "-common".toList <:+ n) ∧
      ¬ ["bootstrap".toList, "src".toList] <:+: ns := by
  induction ns with
  | nil => simp [hasDeniedSegment]
  | cons n ns ih =>
    have hhead : ["bootstrap".toList, "src".toList] <+: n :: ns ↔
        n = "bootstrap".toList ∧ ns.head? = some "src".toList := by
      cases ns <;> simp [eq_comm]
    rw [hasDeniedSegment, List.infix_cons_iff, hhead, List.forall_mem_cons]
    simp only [Bool.or_eq_false_iff, ih, ← Bool.not_eq_true (_ && _), ← Bool.not_eq_true (_ == _),
      ← Bool.not_eq_true (List.isPrefixOf _ _), ← Bool.not_eq_true (List.isSuffixOf _ _),
      Bool.and_eq_true, beq_iff_eq, List.isPrefixOf_iff_prefix, List.isSuffixOf_iff_suffix]
    tauto

/-- The name of a root: the one it is spelled with, or else the one it resolves to. -/
def rootName? (s : Store) (root : Path) : Option Text :=
  match root.name? with
  | some n => some n
  | none => (s.canonical? root).bind List.getLast?

theorem rootIsContainer_iff :
    rootIsContainer s root container = true ↔ rootName? s root = some container := by
  rw [rootIsContainer, rootName?]
  cases root.name? with
  | some n => simp
  | none => cases s.canonical? root <;> simp

/-- The segments of a path that is read as a module directory. -/
structure HasModuleShape (s : Store) (root : Path) (container : Text) (segs : List Text) :
    Prop where
  length : 2 ≤ segs.length
  kind : ∃ k : ModuleKind, segs.getLast? = some k.segment
  agents : segs.count "javaagent".toList ≤ 1
  allowed : ∀ n ∈ segs, n ≠ "test".toList ∧ ¬ "testing".toList <+: n ∧ ¬ "-common".toList <:+ n
  bootstrap : ¬ ["bootstrap".toList, "src".toList] <:+: segs
  /-- The container stands above the name, or it is the root and occurs nowhere. -/
  contained : container ∈ segs.take (segs.length - 2) ∨
    container ∉ segs ∧ rootName? s root = some container

theorem hasModuleShape_iff : HasModuleShape s root container ns ↔
    ∃ front name kind, ns = front ++ [name, ModuleKind.segment kind] ∧
      (container ∈ front ∨ container ∉ ns ∧ rootIsContainer s root container = true) ∧
      ns.count ModuleKind.agent.segment ≤ 1 ∧ hasDeniedSegment ns = false := by
  simp only [rootIsContainer_iff, hasDeniedSegment_eq_false_iff]
  constructor
  · intro h
    obtain ⟨kind, hkind⟩ := h.kind
    obtain ⟨init, rfl⟩ := List.getLast?_eq_some_iff.mp hkind
    obtain ⟨front, name, rfl⟩ : ∃ front name, init = front ++ [name] := by
      refine (List.eq_nil_or_concat' init).resolve_left fun hnil => ?_
      have hlength := h.length
      simp [hnil] at hlength
    have hcontained := h.contained
    have hfront : (front ++ [name] ++ [kind.segment]).length - 2 = front.length := by simp
    rw [hfront, List.append_assoc, List.take_left] at hcontained
    refine ⟨front, name, kind, List.append_assoc .., ?_, h.agents, h.allowed, h.bootstrap⟩
    rwa [List.append_assoc]
  · rintro ⟨front, name, kind, rfl, hcontained, hagents, hallowed, hbootstrap⟩
    have hfront : (front ++ [name, kind.segment]).length - 2 = front.length := by simp
    exact {
      length := by simp
      kind := ⟨kind, by simp⟩
      agents := hagents
      allowed := hallowed
      bootstrap := hbootstrap
      contained := by rwa [hfront, List.take_left] }

/-- A path is read as a module directory exactly if its segments have the shape. -/
theorem isSome_classifyPath_iff : (classifyPath s root relative container).isSome ↔
    HasModuleShape s root container (segments relative) := by
  rw [hasModuleShape_iff, Option.isSome_iff_exists]
  simp only [classifyPath_eq_some_iff]
  constructor
  · rintro ⟨_, front, name, kind, hsegs, hunder, hcount, hdenied, -⟩
    exact ⟨front, name, kind, hsegs, hunder, hcount, hdenied⟩
  · rintro ⟨front, name, kind, hsegs, hunder, hcount, hdenied⟩
    exact ⟨_, front, name, kind, hsegs, hunder, hcount, hdenied, rfl⟩

/-! ## What a module directory is read as -/

theorem classifyPath_of_segments_eq {relative' : Text}
    (h : segments relative' = segments relative) :
    classifyPath s root relative' container = classifyPath s root relative container := by
  rw [classifyPath, classifyPath, h]

/-- Tidying a path does not change its segments. -/
theorem segments_intercalate_segments (hne : segments relative ≠ []) :
    segments (List.intercalate ['/'] (segments relative)) = segments relative := by
  refine segments_intercalate_of_solid hne fun n hn => ?_
  obtain ⟨hfield, hn⟩ := List.mem_filter.mp hn
  exact ⟨by simpa using hn, Text.not_mem_of_mem_splitOn hfield⟩

theorem relative_moduleDir : (moduleDir root front name kind).relative =
    List.intercalate ['/'] (front ++ [name]) ++ ['/'] ++ kind.segment := by
  rw [moduleDir, List.append_cons, Text.intercalate_concat (by simp)]

/-- The directory that the kinds of a module share. -/
theorem canonicalPath_moduleDir : (moduleDir root front name kind).canonicalPath =
    List.intercalate ['/'] (front ++ [name]) := by
  have hkind : Text.before? (moduleDir root front name kind).kind.segment
      (moduleDir root front name kind).relative =
        some (List.intercalate ['/'] (front ++ [name]) ++ ['/']) := by
    rw [relative_moduleDir]
    exact Text.before?_append
  rw [ModuleDir.canonicalPath, hkind]
  dsimp only
  rw [Text.before?_append, Option.getD_some]

/-- **The grammar of module paths.** A path is read as a module directory exactly if its
segments have the shape of one. The directory is then named by the segment above its kind,
lies in the family of that name, and is found under the joined segments, of which its kind
is the last. How the path separates its segments makes no difference, and the kinds in one
directory belong to the same module. -/
theorem classifyPath_shape (s : Store) (root : Path) (relative container : Text) :
    ((classifyPath s root relative container).isSome ↔
      HasModuleShape s root container (segments relative)) ∧
    (∀ relative', segments relative' = segments relative →
      classifyPath s root relative' container = classifyPath s root relative container) ∧
    ∀ m, classifyPath s root relative container = some m →
      (segments relative)[(segments relative).length - 2]? = some m.name ∧
      (segments relative).getLast? = some m.kind.segment ∧
      m.nameSpace = Fragment.family m.name ∧ m.group = Fragment.family m.name ∧
      m.relative = List.intercalate ['/'] (segments relative) ∧ m.path = root.join m.relative ∧
      m.canonicalPath ++ '/' :: m.kind.segment = m.relative ∧
      classifyPath s root m.relative container = some m ∧
      ∀ relative' m', classifyPath s root relative' container = some m' →
        (segments relative').dropLast = (segments relative).dropLast →
          m'.group = m.group ∧ m'.nameSpace = m.nameSpace ∧ m'.name = m.name ∧
            m'.canonicalPath = m.canonicalPath := by
  refine ⟨isSome_classifyPath_iff, fun _ => classifyPath_of_segments_eq, fun m hm => ?_⟩
  obtain ⟨front, name, kind, hsegs, -, -, -, rfl⟩ := classifyPath_eq_some_iff.mp hm
  have hne : segments relative ≠ [] := by simp [hsegs]
  have hrelative : (moduleDir root front name kind).relative =
      List.intercalate ['/'] (segments relative) := by rw [hsegs]; rfl
  refine ⟨by simp [hsegs, moduleDir], by simp [hsegs, moduleDir], (family_eq name).symm,
    (family_eq name).symm, hrelative, rfl, ?_, ?_, ?_⟩
  · rw [canonicalPath_moduleDir, relative_moduleDir, List.append_assoc]
    rfl
  · rw [hrelative, classifyPath_of_segments_eq (segments_intercalate_segments hne), hm]
  · intro relative' m' hm' hparent
    obtain ⟨front', name', kind', hsegs', -, -, -, rfl⟩ := classifyPath_eq_some_iff.mp hm'
    have hparents : front' ++ [name'] = front ++ [name] := by
      rwa [hsegs, hsegs', List.append_cons, List.dropLast_concat, List.append_cons front,
        List.dropLast_concat] at hparent
    obtain ⟨rfl, hname⟩ := List.append_inj' hparents rfl
    cases hname
    exact ⟨rfl, rfl, rfl, by rw [canonicalPath_moduleDir, canonicalPath_moduleDir]⟩

/-- A name that begins with a dash, in a path with more slashes than it needs, and the
library beside it. -/
theorem classifyPath_shape_sample :
    let s := Store.empty []
    let root : Path := ⟨"/r".toList⟩
    let c := "instrumentation".toList
    ∃ m m', classifyPath s root "/instrumentation//-odd/javaagent/".toList c = some m ∧
      classifyPath s root "instrumentation/-odd/library".toList c = some m' ∧
      m.relative = "instrumentation/-odd/javaagent".toList ∧
      m.group = Fragment.family "-odd".toList ∧ m.group = "-odd".toList ∧
      classifyPath s root m.relative c = some m ∧ m'.canonicalPath = m.canonicalPath := by
  intro s root c
  have hread : ∃ m, classifyPath s root "/instrumentation//-odd/javaagent/".toList c = some m ∧
      m.name = "-odd".toList := ⟨_, by rfl, by decide⟩
  have hread' : ∃ m, classifyPath s root "instrumentation/-odd/library".toList c = some m :=
    ⟨_, by rfl⟩
  obtain ⟨m, hm, hname⟩ := hread
  obtain ⟨m', hm'⟩ := hread'
  obtain ⟨-, -, hshape⟩ := classifyPath_shape s root "/instrumentation//-odd/javaagent/".toList c
  obtain ⟨-, -, -, hgroup, hrelative, -, -, hagain, hbeside⟩ := hshape m hm
  obtain ⟨-, -, -, hcanonical⟩ := hbeside _ m' hm' (by decide)
  rw [hname] at hgroup
  exact ⟨m, m', hm, hm', hrelative.trans (by decide), hgroup, hgroup.trans (by decide), hagain,
    hcanonical⟩

end Module

end ModuleDocs

import ModuleDocs.Proofs.Document.Segments
import ModuleDocs.Proofs.Document.Updates

/-!
# Hand-written text survives

A written document differs from the stored one inside its regions only: cut out of
both, the regions leave the same texts in the same order. And a region is not left
with just anything: it holds the fragment of the last target that names its
component.

There is one exception to that. A path can be spelled so that it cannot be opened
(`a.md/`), although another target spells the same document so that it can. Such a
target is reported before the document is there, and its region stays as it was
even if no other target fills it.
-/

namespace ModuleDocs

open Reconciliation

variable {store : Store} {c : DocsContext} {f : Path × Text}

/-- **Hand-written text survives an update.** A document is written only for a target
and only if it changes, and the texts around its regions stay. A region holds the
trimmed fragment of the last target that names its component, unless that target
could not open the document and was reported; then the region is the stored one. -/
theorem computeUpdates_frame (htidy : c.TidyIn store) (hf : f ∈ (computeUpdates store c).files) :
    (∃ t ∈ c.settings.targets, c.targetPath t = f.1) ∧
    ∃ stored, store.readText f.1 = .ok stored ∧ f.2 ≠ stored ∧
      segments ((c.targetsOf c.settings.targets f.1).map c.markers) stored =
        segments ((c.targetsOf c.settings.targets f.1).map c.markers) f.2 ∧
      ∀ component u r,
        DocsContext.lastNaming (c.targetsOf c.settings.targets f.1) component = some u →
        Region.find? (c.markers u) f.2 = some r →
        if u ∈ c.appliedTo store c.settings.targets f.1 then
          r.text (c.markers u) = (c.markers u).opening ++ '\n' :: (c.fragment u).trim ++
            '\n' :: (c.markers u).closing
        else
          (c.markers u).text? stored = some (r.text (c.markers u)) ∧
          ∃ e, openDraft store (c.targetPath u) = .error e ∧
            ⟨c.targetPath u, u.component, e⟩ ∈ (computeUpdates store c).failures := by
  refine ⟨exists_target_of_mem_files hf, ?_⟩
  obtain ⟨v, rest, stored, happ, hpath, hread, hfilled, hne⟩ := mem_files_iff.mp hf
  have hv : v ∈ c.appliedTo store c.settings.targets f.1 := by rw [happ]; simp
  have htidy' := htidy v (DocsContext.mem_of_appliedTo hv).1 stored (by rwa [hpath])
  rw [hpath] at htidy'
  have hsub : c.appliedTo store c.settings.targets f.1 ⊆ c.targetsOf c.settings.targets f.1 :=
    DocsContext.appliedTo_subset
  refine ⟨stored, hread, hne, ?_, fun component u r hlast hr => ?_⟩
  · rw [segments, segments, hfilled, DocsContext.filled,
      cutOut_putAll htidy'.proper htidy'.settled (htidy'.harmless hsub)]
  · obtain ⟨hu, rfl⟩ := DocsContext.mem_of_lastNaming hlast
    have hbody := DocsContext.body_filled htidy' hsub hu
    rw [← hfilled, DocsContext.lastNaming_of_suffix DocsContext.appliedTo_suffix hlast,
      MarkerPair.body?, hr, Option.map_some] at hbody
    obtain ⟨b, hb, hrb⟩ := Option.map_eq_some_iff.mp hbody.symm
    split
    · next hin =>
      simp only [if_pos hin] at hrb
      rw [Region.text, ← hrb]
      simp [lined]
    · next hout =>
      simp only [if_neg hout] at hrb
      have hmem := DocsContext.mem_targetsOf.mp hu
      refine ⟨?_, reported_of_not_applied hmem.1 fun h => hout ?_⟩
      · obtain ⟨q, hq, hqb⟩ := Option.map_eq_some_iff.mp hb
        rw [MarkerPair.text?, hq, Option.map_some, Region.text, Region.text, hqb, hrb]
      · rwa [← DocsContext.appliedTo_congr (sameDocument_iff.mp hmem.2)]

/-! ## A path that cannot be opened -/

namespace Sample

/-- The region of `a` by a path that cannot be opened, and that of `b` by one that can. -/
def spellings : List Target :=
  [target "a/".toList "a".toList, target "a".toList "b".toList]

theorem tidyIn_spellings : (context spellings).TidyIn checkout := by
  refine tidyIn fun t ht => ?_
  simp only [spellings, List.mem_cons, List.not_mem_nil, or_false] at ht
  rcases ht with rfl | rfl
  · exact ⟨_, Or.inl rfl⟩
  · exact ⟨_, Or.inr rfl⟩

/-- Only the second target is applied. -/
theorem filled_spellings : (context spellings).filled checkout ⟨"d/a".toList⟩ document =
    (markers "b".toList).put Fragment.noServers document := by
  obtain ⟨e, hclosed⟩ : ∃ e, openDraft checkout
      ((context spellings).targetPath (target "a/".toList "a".toList)) = .error e :=
    exists_openDraft_error
  have hopen : (context spellings).opens checkout (target "a".toList "b".toList) = true :=
    opens_iff.mpr ⟨document, readText_document⟩
  have happ : (context spellings).appliedTo checkout (context spellings).settings.targets
      ⟨"d/a".toList⟩ = [target "a".toList "b".toList] := by
    show (context spellings).appliedTo checkout (_ :: [target "a".toList "b".toList]) _ = _
    rw [DocsContext.appliedTo_cons_of_error hclosed]
    exact List.dropWhile_cons_of_neg (by rw [hopen]; decide)
  rw [DocsContext.filled, happ, DocsContext.jobs, List.map_singleton, putAll_cons, putAll_nil,
    markers_target, fragment_target]

/-- The document is written. -/
theorem exists_mem_files_spellings : ∃ f ∈ (computeUpdates checkout (context spellings)).files,
    f.1.components = Path.components ⟨"d/a".toList⟩ ∧
      f.2 = (markers "b".toList).put Fragment.noServers document := by
  have hne : (context spellings).filled checkout ⟨"d/a".toList⟩ document ≠ document := by
    rw [filled_spellings]
    decide +kernel
  have hmem : target "a".toList "b".toList ∈ (context spellings).settings.targets := by
    simp [context, spellings]
  obtain ⟨f, hf, hcomp, _, htext⟩ := exists_mem_files hmem readText_document hne
  exact ⟨f, hf, hcomp, htext.trans filled_spellings⟩

end Sample

open Sample in
/-- **A region that stays as it was**, although the last target that names its component
spells a document that is written. -/
theorem exists_region_not_filled :
    (context spellings).TidyIn checkout ∧
    ∃ f ∈ (computeUpdates checkout (context spellings)).files, ∃ u r,
      DocsContext.lastNaming ((context spellings).targetsOf spellings f.1) "a".toList = some u ∧
      Region.find? ((context spellings).markers u) f.2 = some r ∧
      r.text ((context spellings).markers u) ≠ (markers "a".toList).opening ++
        '\n' :: ((context spellings).fragment u).trim ++ '\n' :: (markers "a".toList).closing := by
  obtain ⟨f, hf, hcomp, htext⟩ := exists_mem_files_spellings
  refine ⟨tidyIn_spellings, f, hf, target "a/".toList "a".toList, ?_⟩
  have hbody : (markers "a".toList).body? f.2 = some "\nold\n".toList := by
    rw [htext]
    decide +kernel
  obtain ⟨r, hr, hrb⟩ := Option.map_eq_some_iff.mp hbody
  refine ⟨r, ?_, hr, ?_⟩
  · rw [DocsContext.targetsOf_congr hcomp]
    rfl
  · show r.text (markers "a".toList) ≠ _
    rw [Region.text, hrb]
    decide +kernel

open Sample in
/-- The prose of that document. -/
theorem computeUpdates_frame_sample :
    ∃ f ∈ (computeUpdates checkout (context spellings)).files, ∃ stored,
      checkout.readText f.1 = .ok stored ∧ f.2 ≠ stored ∧
      segments (((context spellings).targetsOf spellings f.1).map (context spellings).markers)
        stored =
      segments (((context spellings).targetsOf spellings f.1).map (context spellings).markers)
        f.2 := by
  obtain ⟨f, hf, _⟩ := exists_mem_files_spellings
  obtain ⟨_, stored, hread, hne, hsegments, _⟩ := computeUpdates_frame tidyIn_spellings hf
  exact ⟨f, hf, stored, hread, hne, hsegments⟩

end ModuleDocs

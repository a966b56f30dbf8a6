import ModuleDocs.Listing
import ModuleDocs.Proofs.Text.Grouped

/-!
# The listing and the order of instrumentations

The listing collects the instrumentations in a map under their groups and sorts each
group; elsewhere they are sorted in one go by group, name and name space. Both come to
the same (`toList_ofList`), also where keys occur more than once, because neither moves
instrumentations of one key past one another. So the listing is the sorted list cut at
the groups (`entries_ofList`), and what order the instrumentations come in shows in it
only between those that share a key.
-/

namespace ModuleDocs

variable {es es' : List Instrumentation} {a b : Instrumentation}

namespace Instrumentation

instance : Std.TransCmp Listing.orderInGroup :=
  inferInstanceAs (Std.TransCmp (compareLex (compareOn name) (compareOn nameSpace)))

theorem order_eq : order = compareLex (compareOn group) Listing.orderInGroup := rfl

instance : Std.TransCmp order :=
  inferInstanceAs (Std.TransCmp (compareLex (compareOn group) Listing.orderInGroup))

/-- Only instrumentations of one key tie. -/
theorem key_eq_of_order (h : order a b = .eq) : a.key = b.key := by
  obtain ⟨hgroup, hrest⟩ := Ordering.then_eq_eq.mp h
  obtain ⟨hname, hspace⟩ := Ordering.then_eq_eq.mp hrest
  rw [key, key, Std.LawfulEqCmp.eq_of_compare hgroup, Std.LawfulEqCmp.eq_of_compare hname,
    Std.LawfulEqCmp.eq_of_compare hspace]

theorem sort_eq_of_perm (h : es.Perm es') (hkeys : (es.map key).Nodup) : sort es = sort es' :=
  sortBy_eq_of_perm (fun _ _ => key_eq_of_order) h hkeys

end Instrumentation

namespace Listing

open Instrumentation

theorem entries_ofList_eq : (ofList es).groups.entries =
    (TextMap.groupBy group es).entries.map fun g => (g.1, sortBy orderInGroup g.2) := rfl

/-- **The groups of the listing, put behind one another, are the sorted list.** -/
theorem toList_ofList : (ofList es).toList = sort es := by
  rw [toList, entries_ofList_eq, List.flatMap_map]
  exact TextMap.flatMap_groupBy

/-- The listing is the sorted list, cut at the groups. -/
theorem entries_ofList : (ofList es).groups.entries =
    (TextSet.ofList (es.map group)).toList.map fun g => (g, (sort es).filter (·.group = g)) := by
  rw [entries_ofList_eq, TextMap.entries_groupBy, List.map_map]
  refine List.map_congr_left fun g _ => Prod.ext rfl ?_
  exact TextMap.filter_sortBy.symm

theorem size_eq_length_toList (l : Listing) : l.size = l.toList.length := by
  rw [size, toList, List.length_flatMap, List.sum_eq_foldl, List.foldl_map]

/-- Which instrumentation comes first does not show where no two share a key. -/
theorem ofList_eq_of_perm (h : es.Perm es') (hkeys : (es.map key).Nodup) :
    ofList es = ofList es' := by
  have hgroups : TextSet.ofList (es.map group) = TextSet.ofList (es'.map group) :=
    TextSet.ext fun g => by simp only [TextSet.mem_ofList, (h.map group).mem_iff]
  have hentries : (ofList es).groups.entries = (ofList es').groups.entries := by
    rw [entries_ofList, entries_ofList, hgroups, sort_eq_of_perm h hkeys]
  exact congrArg mk (TextMap.eq_of_entries_eq hentries)

/-- **The listing is a lossless reordering.** Its groups are the sorted instrumentations,
cut where the group changes, one for each group there is; and instrumentations of different
keys are listed alike in whatever order they come. -/
theorem groups_eq_sort (es : List Instrumentation) :
    (ofList es).toList = sort es ∧
      ((ofList es).groups.entries.flatMap fun g => g.2.map value) = (sort es).map value ∧
      (ofList es).groups.entries = (TextSet.ofList (es.map group)).toList.map (fun g =>
        (g, (sort es).filter (·.group = g))) ∧
      (sort es).Perm es ∧ (ofList es).size = es.length ∧
      ∀ es', es.Perm es' → (es.map key).Nodup → ofList es = ofList es' ∧
        (ofList es).yaml = (ofList es').yaml ∧ (ofList es).json = (ofList es').json := by
  refine ⟨toList_ofList, ?_, entries_ofList, sortBy_perm, ?_, ?_⟩
  · rw [← toList_ofList, toList, List.map_flatMap]
  · rw [size_eq_length_toList, toList_ofList]
    exact sortBy_perm.length_eq
  · intro es' h hkeys
    have heq := ofList_eq_of_perm h hkeys
    exact ⟨heq, congrArg yaml heq, congrArg json heq⟩

namespace Sample

/-- An instrumentation of which only the names are known. -/
def named (group nameSpace name : String) : Instrumentation where
  path := ⟨(group ++ "/" ++ name).toList⟩
  sourcePath := []
  name := name.toList
  nameSpace := nameSpace.toList
  group := group.toList

/-- Two groups, one of them with a name that stands in two name spaces. -/
def instrumentations : List Instrumentation :=
  [named "ktor" "ktor" "ktor-2.0", named "akka" "akka-http" "common", named "akka" "akka" "common"]

end Sample

open Listing.Sample in
/-- The sample is listed alike from either end. -/
theorem ofList_reverse_sample :
    instrumentations.Perm instrumentations.reverse ∧ (instrumentations.map key).Nodup ∧
      ofList instrumentations = ofList instrumentations.reverse ∧
      (ofList instrumentations).groups.keys = ["akka".toList, "ktor".toList] := by
  have hperm : instrumentations.Perm instrumentations.reverse := (List.reverse_perm _).symm
  have hkeys : (instrumentations.map key).Nodup := by decide
  obtain ⟨-, -, -, -, -, hlisted⟩ := groups_eq_sort instrumentations
  exact ⟨hperm, hkeys, (hlisted _ hperm hkeys).1, by decide +kernel⟩

end Listing

end ModuleDocs

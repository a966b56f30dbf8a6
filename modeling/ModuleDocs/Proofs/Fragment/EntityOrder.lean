import ModuleDocs.Fragment.Render
import ModuleDocs.Proofs.Text.Grouped

/-!
# The order of instrumentations in the tables

The tables do not show in what order the instrumentations were found. The tables of
libraries and of servers are sorted, one by family and name (`byFamily_eq_sortBy`), the
other by name, and both leave instrumentations of one name in the order they came: so
names have to be distinct. The names of the disable list go through a set, and there
they need not be.
-/

namespace ModuleDocs

namespace Fragment

variable {es es' : List Instrumentation} {version : Text}

/-! ## Libraries -/

theorem sortByName_eq_sortBy : sortByName es = sortBy (compareOn Instrumentation.name) es := rfl

/-- Sorting each family, and the families by name, is sorting by both. -/
theorem byFamily_eq_sortBy : byFamily es =
    sortBy (compareLex (compareOn fun e => family e.name) (compareOn Instrumentation.name)) es := by
  rw [← TextMap.flatMap_groupBy]
  rfl

theorem byFamily_eq_of_perm (h : es.Perm es') (hnames : (es.map Instrumentation.name).Nodup) :
    byFamily es = byFamily es' := by
  rw [byFamily_eq_sortBy, byFamily_eq_sortBy]
  refine sortBy_eq_of_perm (fun a b hab => ?_) h hnames
  -- The second comparison alone tells names apart.
  have hname : compare a.name b.name = .eq := (compareLex_eq_eq.mp hab).2
  exact Std.LawfulEqCmp.eq_of_compare hname

/-! ## Application servers -/

theorem sortByName_eq_of_perm (h : es.Perm es') (hnames : (es.map Instrumentation.name).Nodup) :
    sortByName es = sortByName es' := by
  rw [sortByName_eq_sortBy, sortByName_eq_sortBy]
  refine sortBy_eq_of_perm (fun a b hab => ?_) h hnames
  have hname : compare a.name b.name = .eq := hab
  exact Std.LawfulEqCmp.eq_of_compare hname

/-- The instrumentations of application servers. -/
def servers (es : List Instrumentation) : List Instrumentation := es.filter fun e => isServer e.name

theorem serversTable_eq : serversTable es version =
    if servers es = [] then noServers
    else serversHeader ++ (sortByName (servers es)).flatMap serverRow ++ footer version := by
  rw [serversTable, servers]
  split
  · next hnone => rw [if_pos hnone]
  · next hsome => rw [if_neg hsome]

theorem serversTable_eq_of_perm (h : es.Perm es') (hnames : (es.map Instrumentation.name).Nodup) :
    serversTable es version = serversTable es' version := by
  have hservers : (servers es).Perm (servers es') := h.filter _
  have hsorted : sortByName (servers es) = sortByName (servers es') :=
    sortByName_eq_of_perm hservers (hnames.sublist (List.filter_sublist.map _))
  have hnone : servers es = [] ↔ servers es' = [] :=
    ⟨fun hnil => (hnil ▸ hservers).nil_eq.symm, fun hnil => (hnil ▸ hservers).eq_nil⟩
  rw [serversTable_eq, serversTable_eq, hsorted]
  simp only [hnone]

/-! ## All tables -/

/-- A set does not tell in what order its members came. -/
theorem disableTable_eq_of_perm {ns ns' : List Text} (h : ns.Perm ns') :
    disableTable ns version = disableTable ns' version := by
  have hset : TextSet.ofList (ns.filterMap disableName?) =
      TextSet.ofList (ns'.filterMap disableName?) :=
    TextSet.ext fun n => by simp only [TextSet.mem_ofList, (h.filterMap disableName?).mem_iff]
  rw [disableTable, disableTable, hset]

/-- **A table does not depend on the order of the instrumentations**: none does if their
names are distinct, and the disable list does not in any case. -/
theorem render_eq_of_perm (h : es.Perm es') (version : Text) :
    ((es.map Instrumentation.name).Nodup →
        ∀ f : Fragment, f.render es version = f.render es' version) ∧
      disableList.render es version = disableList.render es' version := by
  have hdisable : disableList.render es version = disableList.render es' version :=
    disableTable_eq_of_perm (h.map Instrumentation.name)
  refine ⟨fun hnames f => ?_, hdisable⟩
  cases f with
  | supportedLibraries =>
    rw [render, render, librariesTable, librariesTable, byFamily_eq_of_perm h hnames]
  | appServers => exact serversTable_eq_of_perm h hnames
  | disableList => exact hdisable

namespace Sample

/-- An instrumentation of which only the name is known. -/
def named (name : String) : Instrumentation where
  path := ⟨name.toList⟩
  sourcePath := []
  name := name.toList
  nameSpace := []
  group := []

/-- Two servers and two libraries of one family. -/
def instrumentations : List Instrumentation :=
  [named "tomcat-7.0", named "ktor-2.0", named "jetty-8.0", named "ktor-1.0"]

end Sample

open Fragment.Sample in
/-- The tables of the sample are the same from either end. -/
theorem render_reverse_sample :
    instrumentations.Perm instrumentations.reverse ∧
      (instrumentations.map Instrumentation.name).Nodup ∧
      ∀ f : Fragment,
        f.render instrumentations ['1'] = f.render instrumentations.reverse ['1'] := by
  have hperm : instrumentations.Perm instrumentations.reverse := (List.reverse_perm _).symm
  have hnames : (instrumentations.map Instrumentation.name).Nodup := by decide
  exact ⟨hperm, hnames, (render_eq_of_perm hperm ['1']).1 hnames⟩

end Fragment

end ModuleDocs

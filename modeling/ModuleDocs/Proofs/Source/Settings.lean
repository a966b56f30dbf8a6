import ModuleDocs.Proofs.Source.Scan
import ModuleDocs.Source.Scan

/-!
# The settings of a list of files

The scan of the files is a fold in a fold: each file that can be read adds its settings one by
one, and a setting is added unless one of its name is there. All of this is one pass over one
list: the settings that the readable files declare or use, file by file (`scanProperties_eq`).
What the pass leaves of a list is what is left without the settings whose name an earlier one
has, `List.eraseDupsBy` (`foldl_addProperty`). It makes no difference where a name has been
seen before: in the same file or another one, in a constant field or as another getter of the
experimental settings.
-/

namespace ModuleDocs

namespace Source

variable {open_ : Reader} {experimental : TextMap ConfigurationProperty} {files more : List Path}
  {ps found : List ConfigurationProperty} {p q : ConfigurationProperty} {content : Text}

/-! ## The first setting of each name -/

/-- The settings without those whose name an earlier one has. -/
def firstOfEach (ps : List ConfigurationProperty) : List ConfigurationProperty :=
  ps.eraseDupsBy fun p q => p.name == q.name

/-- Adding settings one by one keeps what is there and adds the first of each new name. -/
theorem foldl_addProperty_append : ps.foldl addProperty found =
    found ++ firstOfEach (ps.filter fun p => !found.any fun q => q.name = p.name) := by
  induction ps generalizing found with
  | nil => simp [firstOfEach]
  | cons p ps ih =>
    rw [List.foldl_cons, addProperty, List.filter_cons]
    cases hp : found.any fun q => q.name = p.name with
    | true => simpa using ih
    | false =>
      simp only [Bool.false_eq_true, if_false, Bool.not_false, if_true]
      have hfilter : (ps.filter fun r => !(found ++ [p]).any fun q => q.name = r.name) =
          (ps.filter fun r => !found.any fun q => q.name = r.name).filter fun r =>
            decide ((r.name == p.name) = false) := by
        rw [List.filter_filter]
        refine List.filter_congr fun r _ => ?_
        rw [List.any_append, Bool.not_or, Bool.and_comm]
        congr 1
        simp [eq_comm, Bool.beq_eq_decide_eq]
      rw [ih, hfilter, List.append_assoc, firstOfEach, firstOfEach, List.eraseDupsBy_cons]
      rfl

theorem foldl_addProperty : ps.foldl addProperty [] = firstOfEach ps := by
  rw [foldl_addProperty_append, List.nil_append]
  congr 1
  exact List.filter_eq_self.mpr fun _ _ => rfl

theorem firstOfEach_concat : firstOfEach (ps ++ [p]) = addProperty (firstOfEach ps) p := by
  rw [← foldl_addProperty, List.foldl_append, foldl_addProperty]
  rfl

/-- No name is lost. -/
theorem mem_names_firstOfEach_iff {name : Text} :
    name ∈ (firstOfEach ps).map ConfigurationProperty.name ↔
      name ∈ ps.map ConfigurationProperty.name := by
  induction ps using List.reverseRecOn with
  | nil => rfl
  | append_singleton ps p ih =>
    rw [firstOfEach_concat, addProperty, List.map_append, List.mem_append, ← ih]
    split
    · next hseen =>
      obtain ⟨q, hq, hname⟩ := List.any_eq_true.mp hseen
      refine (or_iff_left_of_imp fun hp => ?_).symm
      rw [List.mem_singleton.mp hp]
      exact List.mem_map.mpr ⟨q, hq, of_decide_eq_true hname⟩
    · rw [List.map_append, List.mem_append]

theorem any_firstOfEach : ((firstOfEach ps).any fun q => q.name = p.name) =
    ps.any fun q => q.name = p.name := by
  have hany (l : List ConfigurationProperty) : (l.any fun q => q.name = p.name) = true ↔
      p.name ∈ l.map ConfigurationProperty.name := by
    simp [List.any_eq_true, List.mem_map]
  rw [Bool.eq_iff_iff, hany, hany, mem_names_firstOfEach_iff]

/-- The names are distinct. -/
theorem nodup_names_firstOfEach : ((firstOfEach ps).map ConfigurationProperty.name).Nodup := by
  induction ps using List.reverseRecOn with
  | nil => exact List.nodup_nil
  | append_singleton ps p ih =>
    rw [firstOfEach_concat, addProperty]
    split
    · exact ih
    · next hnew =>
      rw [List.map_append, List.map_singleton]
      refine List.nodup_append.mpr ⟨ih, List.pairwise_singleton _ _, ?_⟩
      intro name hmem other hother
      rw [List.mem_singleton.mp hother]
      rintro rfl
      obtain ⟨q, hq, hname⟩ := List.mem_map.mp hmem
      exact hnew (List.any_eq_true.mpr ⟨q, hq, decide_eq_true hname⟩)

/-- A setting is left exactly if it is the first of its name. -/
theorem mem_firstOfEach : p ∈ firstOfEach ps ↔ (ps.find? fun q => q.name = p.name) = some p := by
  induction ps using List.reverseRecOn with
  | nil => simp [firstOfEach]
  | append_singleton ps r ih =>
    rw [firstOfEach_concat, addProperty, any_firstOfEach, List.find?_append]
    by_cases hname : r.name = p.name
    · cases hseen : ps.any fun q => q.name = p.name with
      | true =>
        have hfound : (ps.find? fun q => q.name = p.name).isSome := by
          rw [List.find?_isSome]
          exact List.any_eq_true.mp hseen
        rw [hname, hseen, if_pos rfl, ih, Option.or_of_isSome hfound]
      | false =>
        have hnone : (ps.find? fun q => q.name = p.name) = none :=
          List.find?_eq_none.mpr (List.any_eq_false.mp hseen)
        rw [hnone] at ih
        rw [hname, hseen, if_neg Bool.false_ne_true, hnone, Option.none_or, List.mem_append, ih]
        simp [hname, eq_comm]
    · have hlast : ([r].find? fun q => q.name = p.name) = none := by simp [hname]
      rw [hlast, Option.or_none, ← ih]
      split
      · rfl
      · rw [List.mem_append, List.mem_singleton]
        exact or_iff_left_of_imp fun heq => absurd (congrArg _ heq.symm) hname

theorem mem_firstOfEach_iff : p ∈ firstOfEach ps ↔
    ∃ earlier later, ps = earlier ++ p :: later ∧ ∀ q ∈ earlier, q.name ≠ p.name := by
  rw [mem_firstOfEach, List.find?_eq_some_iff_append]
  simp

/-- What is added behind is left behind. -/
theorem firstOfEach_prefix (qs : List ConfigurationProperty) :
    firstOfEach ps <+: firstOfEach (ps ++ qs) := by
  have hall : firstOfEach (ps ++ qs) = (ps ++ qs).foldl addProperty [] := foldl_addProperty.symm
  rw [hall, List.foldl_append, foldl_addProperty, foldl_addProperty_append]
  exact List.prefix_append _ _

/-! ## The files -/

/-- What a file says, if it can be opened and is text. -/
def readText? (open_ : Reader) (file : Path) : Option Text := (open_ file).bind Text.decode?

/-- The settings of a text: those of its constant fields, then those of the experimental
settings whose getter it calls. -/
def declared (experimental : TextMap ConfigurationProperty) (content : Text) :
    List ConfigurationProperty :=
  configFields content ++
    (experimental.entries.filter fun e => experimentalAccessor ++ e.1 <:+: content).map Prod.snd

/-- The settings of the files that can be read, file by file. -/
def allDeclared (open_ : Reader) (files : List Path)
    (experimental : TextMap ConfigurationProperty) : List ConfigurationProperty :=
  (files.filterMap (readText? open_)).flatMap (declared experimental)

theorem propertiesOf_eq : propertiesOf experimental content = declared experimental content := by
  have hcalled (e : Text × ConfigurationProperty) :
      content.includes (experimentalAccessor ++ e.1) =
        decide (experimentalAccessor ++ e.1 <:+: content) := by
    rw [Bool.eq_iff_iff, decide_eq_true_iff, Text.includes_iff]
  rw [propertiesOf, declared, ← List.filterMap_eq_map, List.filterMap_filter]
  simp only [hcalled, decide_eq_true_iff, Function.comp_apply]

/-- **The scan is one pass** over the settings of all files that can be read. -/
theorem scanProperties_eq :
    scanProperties open_ files experimental =
      firstOfEach (allDeclared open_ files experimental) := by
  rw [scanProperties, allDeclared, ← foldl_addProperty, List.foldl_flatMap, List.foldl_filterMap]
  congr 1
  funext found file
  rw [readText?]
  split
  · next h => rw [h]
  · next content h => rw [h, propertiesOf_eq]

theorem allDeclared_append : allDeclared open_ (files ++ more) experimental =
    allDeclared open_ files experimental ++ allDeclared open_ more experimental := by
  rw [allDeclared, List.filterMap_append, List.flatMap_append]
  rfl

/-- Files that cannot be read declare nothing. -/
theorem allDeclared_readable :
    allDeclared open_ (files.filter fun f => (readText? open_ f).isSome) experimental =
      allDeclared open_ files experimental := by
  have hread (f : Path) : (if (readText? open_ f).isSome then readText? open_ f else none) =
      readText? open_ f := by
    cases readText? open_ f <;> rfl
  rw [allDeclared, List.filterMap_filter]
  simp only [hread]
  rfl

theorem allDeclared_perm (h : files.Perm more) :
    (allDeclared open_ files experimental).Perm (allDeclared open_ more experimental) :=
  (h.filterMap _).flatMap_right _

/-- **The settings of a list of files** are those that its readable files declare or use, file
by file, without those whose name an earlier one has. -/
theorem scanProperties_firstOfEach (open_ : Reader) (files : List Path)
    (experimental : TextMap ConfigurationProperty) :
    scanProperties open_ files experimental = firstOfEach (allDeclared open_ files experimental) ∧
    (∀ p, p ∈ scanProperties open_ files experimental ↔
      ∃ earlier later, allDeclared open_ files experimental = earlier ++ p :: later ∧
        ∀ q ∈ earlier, q.name ≠ p.name) ∧
    ((scanProperties open_ files experimental).map ConfigurationProperty.name).Nodup ∧
    scanProperties open_ (files.filter fun f => (readText? open_ f).isSome) experimental =
      scanProperties open_ files experimental ∧
    (∀ more, scanProperties open_ files experimental <+:
      scanProperties open_ (files ++ more) experimental) ∧
    ∀ files', files'.Perm files → ∀ name,
      name ∈ (scanProperties open_ files' experimental).map ConfigurationProperty.name ↔
        name ∈ (scanProperties open_ files experimental).map ConfigurationProperty.name := by
  simp only [scanProperties_eq, allDeclared_readable, allDeclared_append]
  refine ⟨trivial, fun p => mem_firstOfEach_iff, nodup_names_firstOfEach, trivial,
    fun more => firstOfEach_prefix _, fun files' h name => ?_⟩
  rw [mem_names_firstOfEach_iff, mem_names_firstOfEach_iff]
  exact ((allDeclared_perm h).map _).mem_iff

namespace Sample

/-- Two files that each call a getter, and one that is not text. -/
def settingsSources : Reader := fun p =>
  if p.text = ['b'] then some (Text.encode "ExperimentalConfig.get().b()".toList)
  else if p.text = ['a'] then some (Text.encode "ExperimentalConfig.get().a()".toList)
  else if p.text = ['c'] then some ⟨#[0xFF]⟩
  else none

/-- Two getters of one setting. -/
def settingsTable : TextMap ConfigurationProperty := TextMap.ofList
  [("b()".toList, ⟨['x'], "Boolean".toList, some "false".toList⟩),
    ("a()".toList, ⟨['x'], "String".toList, none⟩)]

end Sample

open Source.Sample in
/-- The getter of the file that comes first counts, and from the other end it is another one,
but of the same name. -/
theorem scanProperties_firstOfEach_sample :
    let files : List Path := [⟨['d']⟩, ⟨['b']⟩, ⟨['c']⟩, ⟨['a']⟩]
    scanProperties settingsSources files settingsTable =
        [⟨['x'], "Boolean".toList, some "false".toList⟩] ∧
      scanProperties settingsSources files.reverse settingsTable =
        [⟨['x'], "String".toList, none⟩] ∧
      files.reverse.Perm files ∧
      (['x'] ∈ (scanProperties settingsSources files.reverse settingsTable).map
          ConfigurationProperty.name ↔
        ['x'] ∈ (scanProperties settingsSources files settingsTable).map
          ConfigurationProperty.name) := by
  intro files
  obtain ⟨hfound, -, -, -, -, hnames⟩ :=
    scanProperties_firstOfEach settingsSources files settingsTable
  refine ⟨?_, ?_, files.reverse_perm, hnames _ files.reverse_perm _⟩
  · exact hfound.trans (by decide)
  · decide

end Source

end ModuleDocs

import Mathlib.Data.Option.Basic
import ModuleDocs.Proofs.Document.Region
import ModuleDocs.Proofs.Fragment.EntityOrder
import ModuleDocs.Proofs.Text.Joined

/-!
# Markers in generated tables

The tables put texts of others between fixed frames, and no frame holds a marker or part
of one that could be made whole (`Needle`). What remains are the texts. Some are changed
before they are shown: of a version constraint at most one colon is left, and of words
that are set in lower case at most the first letter becomes a capital, so none of these
can hold a marker. The others are copied as they are (`copied`): a table holds a marker
exactly if one of them does (`Needle.render_iff`).

A component or source may itself hold what ends a cell or a line, and then a marker could
be made of several cells. But its lead, the text up to the component, cannot.
-/

namespace ModuleDocs

namespace Fragment

open Text

/-- The texts that the row of a library copies as they are. -/
def libraryTexts (e : Instrumentation) : List Text :=
  e.displayName :: ((e.metadata.bind ModuleMetadata.libraryLink).toList ++
    if ModuleKind.library ∈ e.kinds then [e.name] else [])

/-- The texts that a table copies as they are. -/
def copied (f : Fragment) (es : List Instrumentation) (version : Text) : List Text :=
  match f with
  | supportedLibraries => version :: es.flatMap libraryTexts
  | appServers =>
    if servers es = [] then [] else version :: (servers es).map Instrumentation.displayName
  | disableList => version :: (es.map Instrumentation.name).filterMap disableName?

/-- What markers have in common, up to the component. -/
def lead : Text := "GENERATED: COMPONENT:".toList

theorem head?_lead : lead.head? = some 'G' := by decide

theorem getLast?_lead : lead.getLast? = some ':' := by decide

/-- A text that a table can only have copied: no frame of it holds its beginning or its
end, it does not go over the end of a cell, and no changed text holds it. -/
structure Needle (o : Text) : Prop where
  begins : o.head? = some '<'
  ends : o.getLast? = some '>' ∨ o.getLast? = some ':'
  uncut : '\n' ∉ o ∧ '|' ∉ o ∧ ']' ∉ o
  leads : lead <:+: o

variable {o a b s version : Text} {e : Instrumentation} {es : List Instrumentation}
  {cells : List Text} {x : Char}

theorem exists_libraryTexts_iff {p : Text → Prop} : (∃ t ∈ libraryTexts e, p t) ↔ p e.displayName ∨
    (∃ link ∈ e.metadata.bind ModuleMetadata.libraryLink, p link) ∨
      ModuleKind.library ∈ e.kinds ∧ p e.name := by
  have hname : (∃ t ∈ (if ModuleKind.library ∈ e.kinds then [e.name] else []), p t) ↔
      ModuleKind.library ∈ e.kinds ∧ p e.name := by
    split
    · next hlibrary => simp [hlibrary]
    · next hlibrary => simp [hlibrary]
  simp only [libraryTexts, List.exists_mem_cons_iff, List.mem_append, or_and_right, exists_or,
    hname, Option.mem_toList, Option.mem_def]

/-! ## Changed texts -/

/-- The lead of a marker takes more than one colon. -/
theorem not_lead_of_count (h : s.count ':' ≤ 1) : ¬ lead <:+: s := by
  intro hi
  have hlead : lead.count ':' = 2 := by decide
  have hcount : lead.count ':' ≤ s.count ':' := count_le_of_infix hi
  omega

theorem count_versionPart (spec : Text) : (versionPart spec).count ':' ≤ 1 := by
  have hlength : (spec.splitOn ':').length = spec.count ':' + 1 := length_splitOn
  rw [versionPart]
  split
  · next hparts =>
    -- the last part lies behind the last colon
    obtain ⟨part, hlast⟩ := Option.isSome_iff_exists.mp
      (List.getLast?_isSome.mpr (List.splitOn_ne_nil ':' spec))
    rw [hlast, Option.getD_some,
      List.count_eq_zero.mpr (not_mem_of_mem_splitOn (List.mem_of_getLast? hlast))]
    omega
  · omega

/-- The bounds of a range are what stands around its first comma, if the lower one is not blank
and there is no other comma. -/
theorem rangeBounds?_eq_some_iff {lower upper : Text} : rangeBounds? s = some (lower, upper) ↔
    ∃ a b : Text, s = '[' :: (a ++ ',' :: b) ++ [')'] ∧ ',' ∉ a ∧ ',' ∉ b ∧ isBlank a = false ∧
      lower = a.trim ∧ upper = b.trim := by
  constructor
  · intro h
    obtain ⟨rest, hrest, h⟩ := Option.bind_eq_some_iff.mp h
    obtain ⟨inner, hinner, h⟩ := Option.bind_eq_some_iff.mp h
    obtain ⟨⟨a, b⟩, hsplit, h⟩ := Option.bind_eq_some_iff.mp h
    obtain ⟨_, hguard, hbounds⟩ := Option.bind_eq_some_iff.mp h
    cases hbounds
    obtain ⟨hblank, hcomma⟩ := (Option.guard_eq_some' _).mp hguard
    refine ⟨a, b, ?_, not_mem_of_splitFirst? hsplit, by simpa using hcomma, by simpa using hblank,
      rfl, rfl⟩
    rw [after?_eq_some.mp hrest, before?_eq_some hinner, splitFirst?_eq_some hsplit]
    rfl
  · rintro ⟨a, b, rfl, ha, hb, hblank, rfl, rfl⟩
    have hinner : after? ['['] ('[' :: (a ++ ',' :: b) ++ [')']) = some (a ++ ',' :: b ++ [')']) :=
      after?_eq_some.mpr rfl
    have hcomma : b.contains ',' = false := by simpa using hb
    simp only [rangeBounds?, bind, hinner, before?_append, splitFirst?_append ha, hblank, hcomma,
      Option.bind_some]
    rfl

theorem rangeBounds?_eq_some {lower upper : Text} (h : rangeBounds? s = some (lower, upper)) :
    ∃ a b : Text, s = '[' :: (a ++ ',' :: b) ++ [')'] ∧ lower = a.trim ∧ upper = b.trim := by
  obtain ⟨a, b, hs, -, -, -, hlower, hupper⟩ := rangeBounds?_eq_some_iff.mp h
  exact ⟨a, b, hs, hlower, hupper⟩

/-- Showing a range adds no colon. -/
theorem count_shownRange (v : Text) : (shownRange v).count ':' ≤ v.count ':' := by
  have htrim (t : Text) : t.trim.count ':' ≤ t.count ':' := count_le_of_infix <| trim_infix t
  rw [shownRange]
  split
  · exact Nat.le_refl _
  · next lower h =>
    obtain ⟨a, b, rfl, rfl, _⟩ := rangeBounds?_eq_some h
    calc
      (a.trim ++ ['+']).count ':' = a.trim.count ':' := by simp
      _ ≤ a.count ':' := htrim a
      _ ≤ ('[' :: (a ++ ',' :: b) ++ [')']).count ':' := by simp
  · next lower upper _ h =>
    obtain ⟨a, b, rfl, rfl, rfl⟩ := rangeBounds?_eq_some h
    calc
      (a.trim ++ " - ".toList ++ b.trim).count ':' = a.trim.count ':' + b.trim.count ':' := by simp
      _ ≤ a.count ':' + b.count ':' := Nat.add_le_add (htrim a) (htrim b)
      _ = ('[' :: (a ++ ',' :: b) ++ [')']).count ':' := by simp

/-- A shown version holds no lead: what is ahead of its second colon is cut off. -/
theorem not_lead_shownVersion (spec : Text) : ¬ lead <:+: shownVersion spec :=
  not_lead_of_count ((count_shownRange _).trans (count_versionPart spec))

theorem not_lead_agentVersionsCell : ¬ lead <:+: agentVersionsCell e := by
  rw [agentVersionsCell]
  split
  · next v r _ =>
    intro hi
    have hsep : "<br>".toList = [] ++ '<' :: "br>".toList := rfl
    rw [hsep, infix_intercalate_iff head?_lead getLast?_lead (by decide) (by decide)
      (by decide)] at hi
    obtain ⟨t, ht, hi⟩ := hi
    obtain ⟨spec, _, rfl⟩ := List.mem_map.mp ht
    exact not_lead_shownVersion spec hi
  · decide

/-- The word of the lead that is all capitals. -/
def shout : Text := "GENERATED".toList

theorem head?_shout : shout.head? = some 'G' := by decide

theorem getLast?_shout : shout.getLast? = some 'D' := by decide

theorem shout_of_lead (h : lead <:+: s) : shout <:+: s :=
  (List.prefix_append shout _).isInfix.trans h

theorem not_shout_capitalize (s : Text) : ¬ shout <:+: s.toLower.capitalize := by
  intro h
  have hlength := length_le_of_infix_capitalize getLast?_shout (by decide) h
  exact absurd hlength (by decide)

theorem not_shout_conventionWord (s : Text) : ¬ shout <:+: conventionWord s := by
  have hacronyms : ∀ a ∈ conventionAcronyms, ¬ shout <:+: a.toList := by decide
  rw [conventionWord]
  split
  · next hany =>
    obtain ⟨a, ha, heq⟩ := List.any_eq_true.mp hany
    rw [← of_decide_eq_true heq]
    exact hacronyms a ha
  · exact not_shout_capitalize s

theorem not_shout_shownWord (s : Text) : ¬ shout <:+: shownWord s := by
  have hacronyms : ∀ a ∈ nameAcronyms, ¬ shout <:+: Text.toUpper a.toList := by decide
  rw [shownWord]
  split
  · next hany =>
    obtain ⟨a, ha, heq⟩ := List.any_eq_true.mp hany
    rw [← of_decide_eq_true heq]
    exact hacronyms a ha
  · exact not_shout_capitalize s

/-- Words that do not shout do not when they are put together. -/
theorem not_shout_intercalate {words : List Text} (h : ∀ w ∈ words, ¬ shout <:+: w) :
    ¬ shout <:+: List.intercalate [' '] words := by
  have hsep : [' '] = [] ++ ' ' :: ([] : Text) := rfl
  rw [hsep, infix_intercalate_iff head?_shout getLast?_shout (by decide) (by decide) (by decide)]
  intro hi
  obtain ⟨w, hw, hi⟩ := hi
  exact h w hw hi

theorem not_shout_conventionReference (c : Text) : ¬ shout <:+: conventionReference c := by
  have hbracket (words : Text) : '[' :: words ++ [']'] = "[".toList ++ (words ++ "]".toList) := rfl
  rw [conventionReference, hbracket, infix_append_right_iff head?_shout (by decide),
    infix_append_left_iff getLast?_shout (by decide)]
  refine not_shout_intercalate fun w hw => ?_
  obtain ⟨s, _, rfl⟩ := List.mem_map.mp hw
  exact not_shout_conventionWord s

theorem not_shout_knownNames : ∀ e ∈ knownNames, ¬ shout <:+: e.2.toList := by
  unfold knownNames
  -- entry by entry, so that each literal is looked through as a list of characters
  repeat'
    refine forall_mem_cons_ofList (P := fun _ known => ¬ shout <:+: known) (by decide) ?_
  exact List.forall_mem_nil _

theorem not_shout_shownName (name : Text) : ¬ shout <:+: shownName name := by
  rw [shownName]
  split
  · next e he => exact not_shout_knownNames e (List.mem_of_find?_eq_some he)
  · refine not_shout_intercalate fun w hw => ?_
    obtain ⟨s, _, rfl⟩ := List.mem_map.mp hw
    exact not_shout_shownWord s

theorem not_shout_conventionsCell (cs : List Text) : ¬ shout <:+: conventionsCell cs := by
  rw [conventionsCell]
  split
  · decide
  · have hsep : ", ".toList = [] ++ ',' :: [' '] := rfl
    rw [hsep, infix_intercalate_iff head?_shout getLast?_shout (by decide) (by decide) (by decide)]
    intro hi
    obtain ⟨t, ht, hi⟩ := hi
    obtain ⟨c, _, rfl⟩ := List.mem_map.mp ht
    exact not_shout_conventionReference c hi

/-! ## Frames -/

theorem not_mem_librariesHeader : '<' ∉ librariesHeader := by
  unfold librariesHeader
  exact not_mem_append_string
    (not_mem_append_string
      (not_mem_append_string (not_mem_ofList (by decide)) (not_mem_ofList (by decide)))
      (not_mem_ofList (by decide)))
    (not_mem_ofList (by decide))

theorem not_mem_standaloneFootnote : '<' ∉ standaloneFootnote :=
  not_mem_append_string (not_mem_ofList (by decide)) (not_mem_ofList (by decide))

theorem not_mem_artifactSite : '<' ∉ artifactSite := not_mem_ofList (by decide)

theorem not_mem_serversHeader : '<' ∉ serversHeader :=
  not_mem_append_string (not_mem_ofList (by decide)) (not_mem_ofList (by decide))

theorem not_mem_noServers : '<' ∉ noServers := not_mem_ofList (by decide)

theorem not_mem_disableHeader : '<' ∉ disableHeader :=
  not_mem_append_string (not_mem_ofList (by decide)) (not_mem_ofList (by decide))

namespace Needle

variable (h : Needle o)

include h

theorem mem : '<' ∈ o := List.mem_of_head? h.begins

/-- A frame ahead takes no part in an occurrence. -/
theorem ahead (ha : '<' ∉ a) : o <:+: a ++ b ↔ o <:+: b := infix_append_right_iff h.begins ha

/-- A frame behind takes no part in an occurrence. -/
theorem behind (hb : '>' ∉ b) (hb' : ':' ∉ b) : o <:+: a ++ b ↔ o <:+: a := by
  rcases h.ends with hends | hends
  · exact infix_append_left_iff hends hb
  · exact infix_append_left_iff hends hb'

/-- A text between frames. -/
theorem between {a' b' : Text} (ha : '<' ∉ a') (hb : '>' ∉ b') (hb' : ':' ∉ b') :
    o <:+: a' ++ s ++ b' ↔ o <:+: s := by
  rw [h.behind hb hb', h.ahead ha]

theorem not_infix_of_frame (hs : '<' ∉ s) : ¬ o <:+: s := fun hi => hs (hi.subset h.mem)

/-- A row holds what its cells hold. -/
theorem row_append_iff : o <:+: row cells ++ b ↔ (∃ c ∈ cells, o <:+: c) ∨ o <:+: b := by
  have hparts : row cells ++ b =
      ("| ".toList ++ List.intercalate ([' '] ++ '|' :: [' ']) cells ++ " |".toList) ++
        '\n' :: b := by
    simp [row]
  have hcells : o <:+: List.intercalate ([' '] ++ '|' :: [' ']) cells ↔ ∃ c ∈ cells, o <:+: c := by
    rcases h.ends with hends | hends
    · exact infix_intercalate_iff h.begins hends h.uncut.2.1 (by decide) (by decide)
    · exact infix_intercalate_iff h.begins hends h.uncut.2.1 (by decide) (by decide)
  rw [hparts, infix_append_cons_iff h.uncut.1, h.between (by decide) (by decide) (by decide),
    hcells]

/-- Rows hold what their cells hold. -/
theorem rows_append_iff {α : Type} {cellsOf : α → List Text} {l : List α} :
    o <:+: (l.flatMap fun x => row (cellsOf x)) ++ b ↔
      (∃ x ∈ l, ∃ c ∈ cellsOf x, o <:+: c) ∨ o <:+: b := by
  induction l with
  | nil => simp
  | cons x l ih =>
    rw [List.flatMap_cons, List.append_assoc, h.row_append_iff, ih]
    simp only [List.exists_mem_cons_iff, or_assoc]

/-- A table's last line holds what the version label holds. -/
theorem footer_iff : o <:+: footer version ↔ o <:+: version :=
  h.between (by decide) (by decide) (by decide)

/-- A link holds what its text and its address hold. -/
theorem link_iff : o <:+: '[' :: a ++ "](".toList ++ b ++ [')'] ↔ o <:+: a ∨ o <:+: b := by
  have hparts : '[' :: a ++ "](".toList ++ b ++ [')'] =
      "[".toList ++ (a ++ ']' :: ("(".toList ++ b)) ++ ")".toList := by simp
  rw [hparts, h.between (by decide) (by decide) (by decide), infix_append_cons_iff h.uncut.2.2,
    h.ahead (by decide)]

/-! ## Cells -/

theorem not_infix_agentVersionsCell : ¬ o <:+: agentVersionsCell e :=
  fun hi => not_lead_agentVersionsCell (h.leads.trans hi)

theorem not_infix_conventionsCell {cs : List Text} : ¬ o <:+: conventionsCell cs :=
  fun hi => not_shout_conventionsCell cs (shout_of_lead (h.leads.trans hi))

theorem not_infix_shownName {name : Text} : ¬ o <:+: shownName name :=
  fun hi => not_shout_shownName name (shout_of_lead (h.leads.trans hi))

theorem libraryCell_iff : o <:+: libraryCell e ↔ o <:+: e.displayName ∨
    ∃ link ∈ e.metadata.bind ModuleMetadata.libraryLink, o <:+: link := by
  rw [libraryCell]
  split
  · next link hlink =>
    rw [h.link_iff, hlink]
    simp
  · next hnone => simp [hnone]

theorem standaloneCell_iff :
    o <:+: standaloneCell e ↔ ModuleKind.library ∈ e.kinds ∧ o <:+: e.name := by
  rw [standaloneCell]
  split
  · next hlibrary =>
    rw [h.link_iff, artifactLink, h.ahead (by decide), h.ahead not_mem_artifactSite,
      h.ahead (by decide)]
    simp [hlibrary]
  · next hlibrary => simp [hlibrary, h.not_infix_of_frame]

theorem libraryRow_iff : (∃ c ∈ [libraryCell e, agentVersionsCell e, standaloneCell e,
      conventionsCell (conventions e)], o <:+: c) ↔ ∃ t ∈ libraryTexts e, o <:+: t := by
  simp only [exists_libraryTexts_iff, List.exists_mem_cons_iff, h.libraryCell_iff,
    h.not_infix_agentVersionsCell, h.standaloneCell_iff, h.not_infix_conventionsCell,
    List.not_mem_nil, false_and, exists_false, or_false, false_or, or_assoc]

end Needle

/-! ## Tables -/

theorem not_mem_conventionPages : ∀ e ∈ conventionPages,
    '<' ∉ conventionReference e.1.toList ++ ": ".toList ++ siteLink e.2.toList := by
  unfold conventionPages
  repeat'
    refine forall_mem_cons_ofList
      (P := fun c page => '<' ∉ conventionReference c ++ ": ".toList ++ siteLink page)
      (by decide) ?_
  exact List.forall_mem_nil _

theorem not_mem_linkDefinition {c d : Text} (h : linkDefinition? c = some d) : '<' ∉ d := by
  obtain ⟨e, he, rfl⟩ := Option.map_eq_some_iff.mp h
  have hconvention : e.1.toList = c := by simpa using List.find?_some he
  rw [← hconvention]
  exact not_mem_conventionPages e (List.mem_of_find?_eq_some he)

theorem not_mem_libraryLinks : '<' ∉ libraryLinks es := by
  rw [libraryLinks]
  split
  · exact List.not_mem_nil
  · intro hmem
    rcases List.mem_cons.mp hmem with heq | hmem
    · cases heq
    · obtain ⟨d, hd, hmem⟩ := List.mem_flatMap.mp hmem
      obtain ⟨c, _, hc⟩ := List.mem_filterMap.mp hd
      rcases List.mem_append.mp hmem with hmem | heq
      · exact not_mem_linkDefinition hc hmem
      · cases List.mem_singleton.mp heq

theorem mem_byFamily : e ∈ byFamily es ↔ e ∈ es := by
  rw [byFamily_eq_sortBy, sortBy_perm.mem_iff]

theorem mem_sortByName : e ∈ sortByName es ↔ e ∈ es := by
  rw [sortByName_eq_sortBy, sortBy_perm.mem_iff]

theorem exists_mem_flatMap_iff {f : Instrumentation → List Text} :
    (∃ t ∈ es.flatMap f, o <:+: t) ↔ ∃ e ∈ es, ∃ t ∈ f e, o <:+: t := by
  constructor
  · intro h
    obtain ⟨t, ht, ho⟩ := h
    obtain ⟨e, he, ht⟩ := List.mem_flatMap.mp ht
    exact ⟨e, he, t, ht, ho⟩
  · intro h
    obtain ⟨e, he, t, ht, ho⟩ := h
    exact ⟨t, List.mem_flatMap.mpr ⟨e, he, ht⟩, ho⟩

namespace Needle

variable (h : Needle o)

include h

theorem librariesTable_iff : o <:+: librariesTable es version ↔
    ∃ t ∈ supportedLibraries.copied es version, o <:+: t := by
  have hparts : librariesTable es version = librariesHeader ++ ((byFamily es).flatMap libraryRow ++
      ('\n' :: standaloneFootnote ++ libraryLinks (byFamily es) ++ footer version)) := by
    simp [librariesTable]
  have hrest : '<' ∉ '\n' :: standaloneFootnote ++ libraryLinks (byFamily es) := by
    rw [List.mem_append, List.mem_cons, not_or, not_or]
    exact ⟨⟨by decide, not_mem_standaloneFootnote⟩, not_mem_libraryLinks⟩
  rw [hparts, h.ahead not_mem_librariesHeader]
  refine h.rows_append_iff.trans ?_
  rw [h.ahead hrest, h.footer_iff, copied, List.exists_mem_cons_iff, or_comm,
    exists_mem_flatMap_iff]
  simp only [mem_byFamily, h.libraryRow_iff]

theorem serversTable_iff : o <:+: serversTable es version ↔
    ∃ t ∈ appServers.copied es version, o <:+: t := by
  rw [serversTable_eq, copied]
  split
  · simp [h.not_infix_of_frame not_mem_noServers]
  · rw [List.append_assoc, h.ahead not_mem_serversHeader]
    refine h.rows_append_iff.trans ?_
    rw [h.footer_iff, List.exists_mem_cons_iff, or_comm]
    refine or_congr_right ?_
    simp [mem_sortByName, h.not_infix_agentVersionsCell]

theorem disableTable_iff {names : List Text} : o <:+: disableTable names version ↔
    ∃ t ∈ version :: names.filterMap disableName?, o <:+: t := by
  rw [disableTable, List.append_assoc, h.ahead not_mem_disableHeader]
  refine h.rows_append_iff.trans ?_
  rw [h.footer_iff, List.exists_mem_cons_iff, or_comm]
  refine or_congr_right ?_
  have hquoted (name : Text) : o <:+: '`' :: name ++ ['`'] ↔ o <:+: name :=
    h.between (show '<' ∉ ['`'] by decide) (by decide) (by decide)
  simp only [← TextSet.mem_def, TextSet.mem_ofList, List.exists_mem_cons_iff, hquoted,
    h.not_infix_shownName, List.not_mem_nil, false_and, exists_false, or_false, false_or]

/-- **A table holds what the texts hold that it copies**, and nothing else that could stand
at a marker. -/
theorem render_iff (f : Fragment) : o <:+: f.render es version ↔
    ∃ t ∈ f.copied es version, o <:+: t := by
  cases f with
  | supportedLibraries => exact h.librariesTable_iff
  | appServers => exact h.serversTable_iff
  | disableList => exact h.disableTable_iff

end Needle

/-! ## Markers -/

variable {component source : Text}

/-- What a begin marker says before it names the component. -/
def beginLead : Text := "<!-- BEGIN-GENERATED: COMPONENT:".toList

/-- What an end marker says before it names the component. -/
def endLead : Text := "<!-- END-GENERATED: COMPONENT:".toList

/-- Whether the lead of a marker occurs in a text. -/
def HoldsLead (s : Text) : Prop := beginLead <:+: s ∨ endLead <:+: s

theorem needle_beginLead : Needle beginLead := by
  refine ⟨by decide, by decide, by decide, ?_⟩
  exact ⟨"<!-- BEGIN-".toList, [], by decide⟩

theorem needle_endLead : Needle endLead := by
  refine ⟨by decide, by decide, by decide, ?_⟩
  exact ⟨"<!-- END-".toList, [], by decide⟩

/-- A component or source that does not go over the end of a cell. -/
def InCell (s : Text) : Prop := '\n' ∉ s ∧ '|' ∉ s ∧ ']' ∉ s

/-- A marker is its lead, then the names, then the end of the comment. -/
theorem needle_of_lead {l : Text} (hl : Needle l) (hc : InCell component) (hs : InCell source) :
    Needle (l ++ (component ++ " SOURCE:".toList ++ source) ++ " -->".toList) := by
  obtain ⟨hl₁, hl₂, hl₃⟩ := hl.uncut
  obtain ⟨hc₁, hc₂, hc₃⟩ := hc
  obtain ⟨hs₁, hs₂, hs₃⟩ := hs
  refine ⟨?_, Or.inl ?_, ?_, ?_⟩
  · rw [List.append_assoc, List.head?_append, hl.begins]
    rfl
  · rw [List.getLast?_append]
    rfl
  · simp [*]
  · rw [List.append_assoc]
    exact hl.leads.trans (List.prefix_append _ _).isInfix

theorem opening_eq : (({} : MarkerStyle).markers component source).opening =
    beginLead ++ (component ++ " SOURCE:".toList ++ source) ++ " -->".toList := by
  have hlead : beginLead = "<!-- BEGIN-GENERATED: ".toList ++ "COMPONENT:".toList := by
    decide
  rw [hlead]
  show "<!-- BEGIN-GENERATED: ".toList ++ ("COMPONENT:".toList ++ component ++
    ' ' :: "SOURCE:".toList ++ source) ++ " -->".toList = _
  simp

theorem closing_eq : (({} : MarkerStyle).markers component source).closing =
    endLead ++ (component ++ " SOURCE:".toList ++ source) ++ " -->".toList := by
  have hlead : endLead = "<!-- END-GENERATED: ".toList ++ "COMPONENT:".toList := by
    decide
  rw [hlead]
  show "<!-- END-GENERATED: ".toList ++ ("COMPONENT:".toList ++ component ++
    ' ' :: "SOURCE:".toList ++ source) ++ " -->".toList = _
  simp

theorem beginLead_infix_opening :
    beginLead <:+: (({} : MarkerStyle).markers component source).opening := by
  rw [opening_eq, List.append_assoc]
  exact (List.prefix_append _ _).isInfix

theorem endLead_infix_closing :
    endLead <:+: (({} : MarkerStyle).markers component source).closing := by
  rw [closing_eq, List.append_assoc]
  exact (List.prefix_append _ _).isInfix

/-- **Where markers in a table come from.** A table holds a marker, whatever the component
and the source, only if one of the texts that it copies holds the lead of one; and for a
component and a source that do not go over the end of a cell, it holds their markers
exactly if one of these texts does. -/
theorem occursIn_render_iff (f : Fragment) (es : List Instrumentation)
    (version component source : Text) :
    ((({} : MarkerStyle).markers component source).OccursIn (f.render es version) →
      ∃ t ∈ f.copied es version, HoldsLead t) ∧
    (InCell component → InCell source →
      ((({} : MarkerStyle).markers component source).OccursIn (f.render es version) ↔
        ∃ t ∈ f.copied es version, (({} : MarkerStyle).markers component source).OccursIn t)) := by
  constructor
  · intro h
    rcases h with h | h
    · obtain ⟨t, ht, hlead⟩ :=
        (needle_beginLead.render_iff f).mp (beginLead_infix_opening.trans h)
      exact ⟨t, ht, Or.inl hlead⟩
    · obtain ⟨t, ht, hlead⟩ := (needle_endLead.render_iff f).mp (endLead_infix_closing.trans h)
      exact ⟨t, ht, Or.inr hlead⟩
  · intro hc hs
    have hopening := needle_of_lead needle_beginLead hc hs
    have hclosing := needle_of_lead needle_endLead hc hs
    rw [← opening_eq] at hopening
    rw [← closing_eq] at hclosing
    simp only [MarkerPair.OccursIn, hopening.render_iff, hclosing.render_iff, and_or_left,
      exists_or]

namespace Sample

/-- The markers of a region that the sample gets into. -/
def region : MarkerPair := ({} : MarkerStyle).markers "a".toList "s".toList

/-- A server with an end marker for its name. -/
def hostile : Instrumentation :=
  { named "tomcat" with metadata := some { displayName := some region.closing } }

theorem isServer_tomcat : isServer (named "tomcat").name = true := by decide

theorem servers_hostile : servers [hostile] = [hostile] := List.filter_cons_of_pos isServer_tomcat

end Sample

open Fragment.Sample in
/-- **A marker in a table**: the name of the sample closes the region it is put into. -/
theorem occursIn_render_sample :
    InCell "a".toList ∧ InCell "s".toList ∧
      region.OccursIn (appServers.render [hostile] "v1".toList) := by
  have hcomponent : InCell "a".toList := by
    unfold InCell
    decide
  have hsource : InCell "s".toList := by
    unfold InCell
    decide
  refine ⟨hcomponent, hsource, ?_⟩
  refine ((occursIn_render_iff appServers [hostile] "v1".toList _ _).2 hcomponent hsource).mpr ?_
  refine ⟨region.closing, ?_, Or.inr List.infix_rfl⟩
  rw [copied, servers_hostile, if_neg (List.cons_ne_nil _ _)]
  exact List.mem_cons_of_mem _ List.mem_cons_self

end Fragment

end ModuleDocs

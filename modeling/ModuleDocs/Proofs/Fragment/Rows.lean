import ModuleDocs.Proofs.Fragment.Markers
import ModuleDocs.Proofs.Text.Delimiter

/-!
# The rows of the tables

A table has its shape if each of its rows is one line with all its cells (`HasRows`). The cells
are put between their delimiters as they are, so this is a matter of counting: rows have the
delimiters of their frames and those in their cells (`count_rows`), and the frames alone have as
many as the shape takes. So the rows have their shape exactly if no cell holds a delimiter
(`hasRows_iff`).

What the cells hold goes back to what they show. Of the frames around a text, the changes of
letter case and the cutting of a convention into words, none adds a delimiter or takes one away.
So a `|` or a line break in a name, a link, a convention or a shown version tears the row it is
in, and nothing else does (`hasRows_tables_iff`).
-/

namespace ModuleDocs

namespace Fragment

open Text

variable {e : Instrumentation} {es : List Instrumentation} {cells : List Text} {x : Char}
  {s t body version : Text} {n k : Nat}

/-! ## Rows -/

/-- A text in which no cell and no line ends. -/
def Plain (s : Text) : Prop := ∀ x ∈ delimiters, x ∉ s

/-- A line of `n` cells, with a delimiter ahead of each and one behind the last. -/
@[mk_iff]
structure IsRow (n : Nat) (line : Text) : Prop where
  begins : line.head? = some '|'
  ends : line.getLast? = some '|'
  count : line.count '|' = n + 1
  oneLine : '\n' ∉ line

instance (n : Nat) (line : Text) : Decidable (IsRow n line) :=
  decidable_of_iff' _ (isRow_iff n line)

/-- `k` lines of `n` cells each. -/
def HasRows (n k : Nat) (body : Text) : Prop :=
  ∃ lines : List Text, lines.length = k ∧ body = lines.flatMap (fun l => l ++ ['\n']) ∧
    ∀ l ∈ lines, IsRow n l

theorem HasRows.count (h : HasRows n k body) :
    body.count '|' = k * (n + 1) ∧ body.count '\n' = k := by
  obtain ⟨lines, rfl, rfl, hlines⟩ := h
  induction lines with
  | nil => simp
  | cons l lines ih =>
    obtain ⟨hl, hlines⟩ := List.forall_mem_cons.mp hlines
    obtain ⟨hbars, hbreaks⟩ := ih hlines
    have hbar : (l ++ ['\n']).count '|' = n + 1 := by simp [List.count_append, hl.count]
    have hbreak : (l ++ ['\n']).count '\n' = 1 := by
      simp [List.count_append, List.count_eq_zero.mpr hl.oneLine]
    have hparts (x : Char) : ((l :: lines).flatMap fun l => l ++ ['\n']).count x =
        (l ++ ['\n']).count x + (lines.flatMap fun l => l ++ ['\n']).count x :=
      List.count_append
    rw [hparts, hparts, hbars, hbreaks, hbar, hbreak, List.length_cons, Nat.succ_mul]
    omega

/-- The line of a row. -/
def rowLine (cells : List Text) : Text :=
  "| ".toList ++ List.intercalate " | ".toList cells ++ " |".toList

theorem row_eq (cells : List Text) : row cells = rowLine cells ++ ['\n'] := by
  have hend : " |\n".toList = " |".toList ++ ['\n'] := by decide
  rw [row, rowLine, hend, ← List.append_assoc]

/-- A row has the delimiters of its frame and those in its cells. -/
theorem count_row (t : Text) (cells : List Text) (x : Char) : (row (t :: cells)).count x =
    "| ".toList.count x + cells.length * " | ".toList.count x + " |\n".toList.count x +
      (t :: cells).flatten.count x := by
  rw [row, List.count_append, List.count_append, count_intercalate]
  omega

theorem count_row_bar (hne : cells ≠ []) : (row cells).count '|' =
    cells.length + 1 + cells.flatten.count '|' := by
  obtain ⟨t, cells, rfl⟩ := List.exists_cons_of_ne_nil hne
  have hahead : "| ".toList.count '|' = 1 := by decide
  have hbetween : " | ".toList.count '|' = 1 := by decide
  have hbehind : " |\n".toList.count '|' = 1 := by decide
  rw [count_row, hahead, hbetween, hbehind, List.length_cons]
  omega

theorem count_row_break (hne : cells ≠ []) : (row cells).count '\n' =
    1 + cells.flatten.count '\n' := by
  obtain ⟨t, cells, rfl⟩ := List.exists_cons_of_ne_nil hne
  have hahead : "| ".toList.count '\n' = 0 := by decide
  have hbetween : " | ".toList.count '\n' = 0 := by decide
  have hbehind : " |\n".toList.count '\n' = 1 := by decide
  rw [count_row, hahead, hbetween, hbehind]
  omega

theorem count_flatten_eq_zero_iff : cells.flatten.count x = 0 ↔ ∀ c ∈ cells, x ∉ c := by
  simp only [List.count_eq_zero, List.mem_flatten, not_exists, not_and]

/-- Cells without delimiters make a row. -/
theorem isRow_rowLine (hne : cells ≠ []) (hplain : ∀ c ∈ cells, Plain c) :
    IsRow cells.length (rowLine cells) := by
  have hbar := count_row_bar hne
  have hbreak := count_row_break hne
  rw [count_flatten_eq_zero_iff.mpr fun c hc => hplain c hc _ (by decide), row_eq,
    List.count_append] at hbar hbreak
  exact
    { begins := rfl
      ends := by
        rw [rowLine, List.getLast?_append]
        rfl
      count := by simpa using hbar
      oneLine := by simpa [List.count_eq_zero] using hbreak }

/-! ## Tables -/

section

variable {α : Type} {l : List α} {cellsOf : α → List Text}

/-- Rows have the delimiters of their frames, as many for each, and those in their cells. -/
theorem count_rows
    (h : ∀ a ∈ l, (row (cellsOf a)).count x = k + (cellsOf a).flatten.count x) :
    (l.flatMap fun a => row (cellsOf a)).count x =
      l.length * k + (l.flatMap cellsOf).flatten.count x := by
  induction l with
  | nil => simp
  | cons a l ih =>
    obtain ⟨ha, hl⟩ := List.forall_mem_cons.mp h
    rw [List.flatMap_cons, List.count_append, ha, ih hl, List.flatMap_cons, List.flatten_append,
      List.count_append, List.length_cons, Nat.succ_mul]
    omega

/-- **A table of rows** has a line for each of them, with all its cells, exactly if no
delimiter is in a cell. -/
theorem hasRows_iff (hn : 0 < n) (hcells : ∀ a ∈ l, (cellsOf a).length = n) :
    HasRows n l.length (l.flatMap fun a => row (cellsOf a)) ↔
      ∀ a ∈ l, ∀ c ∈ cellsOf a, Plain c := by
  have hne (a : α) (ha : a ∈ l) : cellsOf a ≠ [] :=
    List.ne_nil_of_length_pos (by rw [hcells a ha]; exact hn)
  constructor
  · intro h
    obtain ⟨hbars, hbreaks⟩ := h.count
    -- the frames make up for all delimiters, so none is left for the cells
    rw [count_rows (k := n + 1) fun a ha => by rw [count_row_bar (hne a ha), hcells a ha],
      Nat.add_eq_left, count_flatten_eq_zero_iff] at hbars
    rw [count_rows fun a ha => count_row_break (hne a ha), Nat.mul_one, Nat.add_eq_left,
      count_flatten_eq_zero_iff] at hbreaks
    intro a ha c hc
    have hcell : c ∈ l.flatMap cellsOf := List.mem_flatMap.mpr ⟨a, ha, hc⟩
    exact forall_mem_delimiters (hbars c hcell) (hbreaks c hcell)
  · intro h
    refine ⟨l.map fun a => rowLine (cellsOf a), by simp, ?_, ?_⟩
    · rw [List.flatMap_map]
      simp only [row_eq]
    · intro line hline
      obtain ⟨a, ha, rfl⟩ := List.mem_map.mp hline
      rw [← hcells a ha]
      exact isRow_rowLine (hne a ha) (h a ha)

end

/-! ## Cells -/

/-- A link holds the delimiters of its text and of its address. -/
theorem mem_link_iff (hx : x ∈ delimiters) :
    x ∈ '[' :: s ++ "](".toList ++ t ++ [')'] ↔ x ∈ s ∨ x ∈ t := by
  have hframe : ∀ x ∈ delimiters, x ≠ '[' ∧ x ∉ "](".toList ∧ x ∉ [')'] :=
    forall_mem_delimiters (by decide) (by decide)
  obtain ⟨hopen, hbetween, hclose⟩ := hframe x hx
  rw [List.mem_append, List.mem_append, List.mem_append, List.mem_cons, or_iff_right hopen,
    or_iff_left hbetween, or_iff_left hclose]

theorem mem_libraryCell_iff (hx : x ∈ delimiters) : x ∈ libraryCell e ↔
    x ∈ e.displayName ∨ ∃ link ∈ e.metadata.bind ModuleMetadata.libraryLink, x ∈ link := by
  rw [libraryCell]
  split
  · next link hlink =>
    rw [mem_link_iff hx, hlink]
    simp
  · next hnone => simp [hnone]

theorem plain_artifactSite : Plain artifactSite :=
  forall_mem_delimiters (not_mem_ofList (by decide)) (not_mem_ofList (by decide))

theorem mem_standaloneCell_iff (hx : x ∈ delimiters) :
    x ∈ standaloneCell e ↔ ModuleKind.library ∈ e.kinds ∧ x ∈ e.name := by
  have hframe : ∀ x ∈ delimiters, x ∉ "opentelemetry-".toList ∧ x ∉ "N/A".toList :=
    forall_mem_delimiters (by decide) (by decide)
  obtain ⟨hlead, hnone⟩ := hframe x hx
  have hartifact : x ∈ "opentelemetry-".toList ++ e.name ↔ x ∈ e.name := by
    rw [List.mem_append, or_iff_right hlead]
  rw [standaloneCell]
  split
  · next hlibrary =>
    rw [mem_link_iff hx, artifactLink, List.mem_append (s := artifactSite),
      or_iff_right (plain_artifactSite x hx), or_self, hartifact, and_iff_right hlibrary]
  · next hlibrary => exact iff_of_false hnone fun h => hlibrary h.1

/-- The agent versions of an instrumentation as they are shown. -/
def shownVersions (e : Instrumentation) : List Text :=
  (e.targetVersions.agent.elim [] TextSet.toList).map shownVersion

theorem mem_agentVersionsCell_iff (hx : x ∈ delimiters) :
    x ∈ agentVersionsCell e ↔ ∃ v ∈ shownVersions e, x ∈ v := by
  have hframe : ∀ x ∈ delimiters, x ∉ "<br>".toList ∧ x ∉ "N/A".toList :=
    forall_mem_delimiters (by decide) (by decide)
  obtain ⟨hbetween, hnone⟩ := hframe x hx
  rw [agentVersionsCell, shownVersions]
  cases e.targetVersions.agent with
  | none => simpa using hnone
  | some versions =>
    cases hversions : versions.toList with
    | nil => simpa [hversions] using hnone
    | cons v vs =>
      rw [Option.map_some, hversions, Option.elim_some, hversions]
      exact mem_intercalate_iff hbetween

theorem mem_conventionWord_iff (hx : x ∈ delimiters) : x ∈ conventionWord s ↔ x ∈ s := by
  rw [conventionWord]
  split
  · rfl
  · rw [mem_capitalize_iff hx, mem_toLower_iff hx]

/-- A reference holds the delimiters of its convention: words are only set apart. -/
theorem mem_conventionReference_iff (hx : x ∈ delimiters) : x ∈ conventionReference s ↔ x ∈ s := by
  have hframe : ∀ x ∈ delimiters, x ≠ '[' ∧ x ∉ [']'] ∧ x ∉ [' '] ∧ x ≠ '_' :=
    forall_mem_delimiters (by decide) (by decide)
  obtain ⟨hopen, hclose, hspace, hsep⟩ := hframe x hx
  have hwords : (∃ w ∈ ((s.splitOn '_').filter fun w => !w.isEmpty).map conventionWord, x ∈ w) ↔
      ∃ f ∈ s.splitOn '_', x ∈ f := by
    simp only [List.mem_map, List.mem_filter]
    constructor
    · rintro ⟨_, ⟨f, ⟨hf, -⟩, rfl⟩, hmem⟩
      exact ⟨f, hf, (mem_conventionWord_iff hx).mp hmem⟩
    · rintro ⟨f, hf, hmem⟩
      refine ⟨_, ⟨f, ⟨hf, ?_⟩, rfl⟩, (mem_conventionWord_iff hx).mpr hmem⟩
      cases f with
      | nil => cases hmem
      | cons _ _ => rfl
  rw [conventionReference, List.mem_append, List.mem_cons, or_iff_left hclose, or_iff_right hopen,
    mem_intercalate_iff hspace, hwords, mem_splitOn_iff hsep]

/-- The conventions described, or if none are described the tags that the sources reveal. -/
def conventionTexts (e : Instrumentation) : List Text :=
  match e.metadata.map ModuleMetadata.semanticConventions with
  | some (c :: r) => c :: r
  | _ => e.semanticTags.toList

theorem mem_conventions_iff_texts (hx : x ∈ delimiters) :
    (∃ c ∈ conventions e, x ∈ c) ↔ ∃ t ∈ conventionTexts e, x ∈ t := by
  have htags : (∃ c ∈ e.semanticTags.toList.map Text.toUpper, x ∈ c) ↔
      ∃ t ∈ e.semanticTags.toList, x ∈ t := by
    simp [mem_toUpper_iff hx]
  rw [conventions, conventionTexts]
  cases e.metadata.map ModuleMetadata.semanticConventions with
  | none => exact htags
  | some described =>
    cases described with
    | nil => exact htags
    | cons c cs => rfl

theorem mem_conventionsCell_iff (hx : x ∈ delimiters) :
    x ∈ conventionsCell (conventions e) ↔ ∃ t ∈ conventionTexts e, x ∈ t := by
  have hframe : ∀ x ∈ delimiters, x ∉ ", ".toList ∧ x ∉ "none".toList :=
    forall_mem_delimiters (by decide) (by decide)
  obtain ⟨hbetween, hnone⟩ := hframe x hx
  rw [← mem_conventions_iff_texts hx, conventionsCell]
  split
  · next hempty => simpa [hempty] using hnone
  · rw [mem_intercalate_iff hbetween]
    simp [mem_conventionReference_iff hx]

/-! ## Shown versions -/

theorem mem_of_mem_versionPart (hx : x ∈ delimiters) (h : x ∈ versionPart s) : x ∈ s := by
  have hsep : ∀ x ∈ delimiters, x ≠ ':' :=
    forall_mem_delimiters (by decide) (by decide)
  rw [versionPart] at h
  split at h
  · cases hlast : (s.splitOn ':').getLast? with
    | none => rwa [hlast] at h
    | some f =>
      rw [hlast, Option.getD_some] at h
      exact (mem_splitOn_iff (hsep x hx)).mp ⟨f, List.mem_of_getLast? hlast, h⟩
  · exact h

theorem mem_of_mem_shownRange (hx : x ∈ delimiters) (h : x ∈ shownRange s) : x ∈ s := by
  have hframe : ∀ x ∈ delimiters, x ∉ ['+'] ∧ x ∉ " - ".toList :=
    forall_mem_delimiters (by decide) (by decide)
  obtain ⟨hplus, hdash⟩ := hframe x hx
  have htrim (t : Text) : t.trim ⊆ t := List.IsInfix.subset <| trim_infix t
  rw [shownRange] at h
  split at h
  · exact h
  · next lower hbounds =>
    obtain ⟨a, b, rfl, rfl, -⟩ := rangeBounds?_eq_some hbounds
    have hlower : x ∈ a := htrim a ((List.mem_append.mp h).resolve_right hplus)
    simp [hlower]
  · next lower upper _ hbounds =>
    obtain ⟨a, b, rfl, rfl, rfl⟩ := rangeBounds?_eq_some hbounds
    rw [List.mem_append, List.mem_append, or_iff_left hdash] at h
    rcases h with h | h
    · simp [htrim a h]
    · simp [htrim b h]

/-- A version constraint without delimiters is shown without. -/
theorem plain_shownVersion (h : Plain s) : Plain (shownVersion s) := fun x hx hmem =>
  h x hx (mem_of_mem_versionPart hx (mem_of_mem_shownRange hx hmem))

/-! ## The tables -/

/-- The texts that the row of a library shows. -/
def libraryShown (e : Instrumentation) : List Text :=
  libraryTexts e ++ shownVersions e ++ conventionTexts e

/-- The texts that the row of an application server shows. -/
def serverShown (e : Instrumentation) : List Text := e.displayName :: shownVersions e

theorem plain_iff {texts : List Text}
    (h : ∀ x ∈ delimiters, (∃ c ∈ cells, x ∈ c) ↔ ∃ t ∈ texts, x ∈ t) :
    (∀ c ∈ cells, Plain c) ↔ ∀ t ∈ texts, Plain t := by
  constructor
  · intro hcells t ht x hx hmem
    obtain ⟨c, hc, hmem⟩ := (h x hx).mpr ⟨t, ht, hmem⟩
    exact hcells c hc x hx hmem
  · intro htexts c hc x hx hmem
    obtain ⟨t, ht, hmem⟩ := (h x hx).mp ⟨c, hc, hmem⟩
    exact htexts t ht x hx hmem

/-- The cells of a library hold the delimiters of the texts that they show. -/
theorem mem_libraryRow_iff (hx : x ∈ delimiters) : (∃ c ∈ [libraryCell e, agentVersionsCell e,
      standaloneCell e, conventionsCell (conventions e)], x ∈ c) ↔ ∃ t ∈ libraryShown e, x ∈ t := by
  simp only [libraryShown, List.exists_mem_cons_iff, mem_libraryCell_iff hx,
    mem_agentVersionsCell_iff hx, mem_standaloneCell_iff hx, mem_conventionsCell_iff hx,
    List.mem_append, or_and_right, exists_or, exists_libraryTexts_iff, List.not_mem_nil, false_and,
    exists_false, or_false, or_assoc, or_left_comm]

theorem mem_serverRow_iff (hx : x ∈ delimiters) :
    (∃ c ∈ [e.displayName, agentVersionsCell e], x ∈ c) ↔ ∃ t ∈ serverShown e, x ∈ t := by
  simp only [serverShown, List.exists_mem_cons_iff, mem_agentVersionsCell_iff hx, List.not_mem_nil,
    false_and, exists_false, or_false]

/-- The rows of a list of libraries, a line of four cells for each, exactly if nothing that they
show ends a cell or a line. -/
theorem hasRows_libraries (es : List Instrumentation) :
    HasRows 4 es.length (es.flatMap libraryRow) ↔
      ∀ e ∈ es, ∀ t ∈ libraryShown e, Plain t := by
  refine (hasRows_iff (Nat.succ_pos _) fun e _ => rfl).trans ?_
  exact forall₂_congr fun e _ => plain_iff fun x hx => mem_libraryRow_iff hx

theorem hasRows_servers (es : List Instrumentation) :
    HasRows 2 es.length (es.flatMap serverRow) ↔
      ∀ e ∈ es, ∀ t ∈ serverShown e, Plain t := by
  refine (hasRows_iff (Nat.succ_pos _) fun e _ => rfl).trans ?_
  exact forall₂_congr fun e _ => plain_iff fun x hx => mem_serverRow_iff hx

/-- A row with its line break. -/
def IsLine (n : Nat) (line : Text) : Prop := IsRow n line.dropLast ∧ line.getLast? = some '\n'

instance (n : Nat) (line : Text) : Decidable (IsLine n line) := inferInstanceAs (Decidable (_ ∧ _))

theorem hasRows_lines {a b : Text} (ha : IsLine n a) (hb : IsLine n b) : HasRows n 2 (a ++ b) := by
  refine ⟨[a.dropLast, b.dropLast], rfl, ?_, by simp [ha.1, hb.1]⟩
  simp [List.dropLast_append_getLast? '\n' ha.2, List.dropLast_append_getLast? '\n' hb.2]

theorem hasRows_librariesHeader : HasRows 4 2 librariesHeader := by
  have hliterals {a b c d : Text} (h : IsLine 4 (a ++ b)) (h' : IsLine 4 (c ++ d)) : HasRows 4 2
      (String.ofList a ++ String.ofList b ++ String.ofList c ++ String.ofList d).toList := by
    simpa using hasRows_lines h h'
  unfold librariesHeader
  exact hliterals (by decide) (by decide)

theorem hasRows_serversHeader : HasRows 2 2 serversHeader := by
  have hliterals {a b : Text} (h : IsLine 2 a) (h' : IsLine 2 b) :
      HasRows 2 2 (String.ofList a ++ String.ofList b).toList := by
    simpa using hasRows_lines h h'
  unfold serversHeader
  exact hliterals (by decide) (by decide)

theorem librariesTable_rows : ∃ rest, librariesTable es version =
    librariesHeader ++ (byFamily es).flatMap libraryRow ++ '\n' :: rest :=
  ⟨standaloneFootnote ++ libraryLinks (byFamily es) ++ footer version, by simp [librariesTable]⟩

theorem serversTable_rows (h : servers es ≠ []) : ∃ rest, serversTable es version =
    serversHeader ++ (sortByName (servers es)).flatMap serverRow ++ '\n' :: rest :=
  ⟨"_Auto-generated for version ".toList ++ version ++ "_\n".toList, by
    rw [serversTable_eq, if_neg h]
    rfl⟩

/-- **When the tables keep their shape.** The table of libraries is a header of two lines, the
rows of the libraries and a blank line, and so is the table of servers if there are any. The rows
are a line for each instrumentation, with all its cells, exactly if no text that they show ends a
cell or a line; and of a version constraint no more is shown than it holds. -/
theorem hasRows_tables_iff (es : List Instrumentation) (version : Text) :
    (HasRows 4 2 librariesHeader ∧
      (∃ rest, librariesTable es version =
        librariesHeader ++ (byFamily es).flatMap libraryRow ++ '\n' :: rest) ∧
      (∀ e, HasRows 4 1 (libraryRow e) ↔ ∀ t ∈ libraryShown e, Plain t) ∧
      (HasRows 4 es.length ((byFamily es).flatMap libraryRow) ↔
        ∀ e ∈ es, ∀ t ∈ libraryShown e, Plain t)) ∧
    (servers es ≠ [] →
      HasRows 2 2 serversHeader ∧
      (∃ rest, serversTable es version =
        serversHeader ++ (sortByName (servers es)).flatMap serverRow ++ '\n' :: rest) ∧
      (∀ e, HasRows 2 1 (serverRow e) ↔ ∀ t ∈ serverShown e, Plain t) ∧
      (HasRows 2 (servers es).length ((sortByName (servers es)).flatMap serverRow) ↔
        ∀ e ∈ servers es, ∀ t ∈ serverShown e, Plain t)) ∧
    ∀ spec, Plain spec → Plain (shownVersion spec) := by
  refine ⟨⟨hasRows_librariesHeader, librariesTable_rows, fun e => ?_, ?_⟩, fun hservers =>
    ⟨hasRows_serversHeader, serversTable_rows hservers, fun e => ?_, ?_⟩,
    fun spec hspec => plain_shownVersion hspec⟩
  · simpa using hasRows_libraries [e]
  · have hlength : (byFamily es).length = es.length := by
      rw [byFamily_eq_sortBy, sortBy_perm.length_eq]
    rw [← hlength, hasRows_libraries]
    simp only [mem_byFamily]
  · simpa using hasRows_servers [e]
  · have hlength : (sortByName (servers es)).length = (servers es).length := by
      rw [sortByName_eq_sortBy, sortBy_perm.length_eq]
    rw [← hlength, hasRows_servers]
    simp only [mem_sortByName]

namespace Sample

/-- A server whose name ends in a line break, as a block of text does. -/
def torn : Instrumentation :=
  { named "tomcat" with metadata := some { displayName := some "Apache Tomcat\n".toList } }

theorem servers_torn : servers [torn] = [torn] := List.filter_cons_of_pos isServer_tomcat

end Sample

open Fragment.Sample in
/-- **Rows that are torn**: the name of the sample ends its line, in both tables. -/
theorem hasRows_tables_sample : servers [torn] ≠ [] ∧
    ¬ HasRows 4 1 ((byFamily [torn]).flatMap libraryRow) ∧
      ¬ HasRows 2 (servers [torn]).length ((sortByName (servers [torn])).flatMap serverRow) := by
  have hservers : servers [torn] ≠ [] := by simp [servers_torn]
  have hshape := hasRows_tables_iff [torn] "v1".toList
  have hname : ¬ Plain torn.displayName := fun h => h '\n' (by decide) (by decide)
  refine ⟨hservers, fun h => hname ?_, fun h => hname ?_⟩
  · exact hshape.1.2.2.2.mp h torn List.mem_cons_self _ List.mem_cons_self
  · refine (hshape.2.1 hservers).2.2.2.mp h torn ?_ _ List.mem_cons_self
    rw [servers_torn]
    exact List.mem_cons_self

end Fragment

end ModuleDocs

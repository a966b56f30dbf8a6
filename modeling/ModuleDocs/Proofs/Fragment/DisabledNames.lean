import ModuleDocs.Proofs.Fragment.Rows
import ModuleDocs.Proofs.Text.ByteOrder

/-!
# The names of the disable list

A module is disabled under its name without the version, if it can be disabled at all, and
some modules share a name. That is a normal form: the version is what begins at the first place
where one can begin (`isBare_iff`), so none is left in front of it, and the names that stand for
others stand for themselves (`disableName?_of_disableName?`). A version behind a name does not
change where the first one begins (`withoutVersion_append`), so it is taken away with what was
taken away before.

The list goes through a set of normal forms. It has a row for each of them, in the order of
their bytes, and names with the same normal forms give the same list.

> `disableTable_normalised`: the rows are the normal forms, and what keeps these keeps the text.
-/

namespace ModuleDocs

namespace Fragment

open Text

variable {n m bare s t version : Text} {c x : Char} {names names' : List Text}

/-! ## Versions at the end of a name -/

/-- A dash and a digit behind which no line ends. -/
def IsVersionSuffix (t : Text) : Prop := ∃ d r, t = '-' :: d :: r ∧ d.isDigit = true ∧ '\n' ∉ r

theorem IsVersionSuffix.not_mem (h : IsVersionSuffix t) : '\n' ∉ t := by
  obtain ⟨d, r, rfl, hd, hr⟩ := h
  have hne : '\n' ≠ d := by
    rintro rfl
    exact absurd hd (by decide)
  simp [hne, hr]

theorem IsVersionSuffix.append (h : IsVersionSuffix t) (hs : '\n' ∉ s) :
    IsVersionSuffix (t ++ s) := by
  obtain ⟨d, r, rfl, hd, hr⟩ := h
  exact ⟨d, r ++ s, rfl, hd, by simp [hr, hs]⟩

/-- The condition under which a name ends. -/
theorem isVersionSuffix_cons_iff : IsVersionSuffix (c :: t) ↔
    c = '-' ∧ (t.head?.any Char.isDigit) ∧ !t.contains '\n' := by
  constructor
  · intro h
    have hline := h.not_mem
    obtain ⟨d, r, heq, hd, -⟩ := h
    obtain ⟨rfl, rfl⟩ := List.cons.inj heq
    simpa [hd] using fun h => hline (List.mem_cons_of_mem _ h)
  · rintro ⟨rfl, hd, hline⟩
    cases t with
    | nil => simp at hd
    | cons d r =>
      have hrest : '\n' ∉ d :: r := by simpa using hline
      exact ⟨d, r, rfl, by simpa using hd, fun h => hrest (List.mem_cons_of_mem _ h)⟩

/-- Whether a version begins ahead of another one does not depend on that. -/
theorem isVersionSuffix_append_iff (ht : IsVersionSuffix t) (hs : s ≠ []) :
    IsVersionSuffix (s ++ t) ↔ IsVersionSuffix s := by
  refine ⟨fun h => ?_, fun h => h.append ht.not_mem⟩
  obtain ⟨c, s, rfl⟩ := List.exists_cons_of_ne_nil hs
  obtain ⟨d, r, heq, hd, hr⟩ := h
  cases s with
  | nil =>
    -- a dash follows the dash, not a digit
    obtain ⟨e, _, rfl, -, -⟩ := ht
    obtain ⟨rfl, -⟩ : '-' = d ∧ _ := by simpa using (List.cons.inj heq).2
    exact absurd hd (by decide)
  | cons e s =>
    simp only [List.cons_append, List.cons.injEq] at heq
    obtain ⟨rfl, rfl, rfl⟩ := heq
    exact ⟨e, s, rfl, hd, fun h => hr (List.mem_append_left _ h)⟩

/-! ## Names without their version -/

theorem withoutVersion_of_isVersionSuffix (h : IsVersionSuffix t) : withoutVersion t = [] := by
  cases t with
  | nil => rfl
  | cons c t => rw [withoutVersion, if_pos (isVersionSuffix_cons_iff.mp h)]

theorem withoutVersion_cons (h : ¬ IsVersionSuffix (c :: t)) :
    withoutVersion (c :: t) = c :: withoutVersion t := by
  rw [withoutVersion, if_neg (mt isVersionSuffix_cons_iff.mpr h)]

/-- The part of a name ahead of its version: of the places where one can begin, the first. -/
structure IsBare (n bare : Text) : Prop where
  rest : ∃ version, n = bare ++ version ∧ (version = [] ∨ IsVersionSuffix version)
  first : ∀ ahead version, n = ahead ++ version → IsVersionSuffix version → bare <+: ahead

theorem isBare_withoutVersion (n : Text) : IsBare n (withoutVersion n) := by
  induction n with
  | nil =>
    refine ⟨⟨[], rfl, Or.inl rfl⟩, fun ahead version _ _ => List.nil_prefix⟩
  | cons c n ih =>
    by_cases hc : IsVersionSuffix (c :: n)
    · rw [withoutVersion_of_isVersionSuffix hc]
      exact ⟨⟨_, rfl, Or.inr hc⟩, fun ahead version _ _ => List.nil_prefix⟩
    · rw [withoutVersion_cons hc]
      obtain ⟨⟨version, hn, hversion⟩, hfirst⟩ := ih
      refine ⟨⟨version, congrArg (c :: ·) hn, hversion⟩, fun ahead version heq hv => ?_⟩
      cases ahead with
      | nil => exact absurd (heq ▸ hv) hc
      | cons d ahead =>
        obtain ⟨rfl, rest⟩ := List.cons.inj heq
        exact (List.prefix_cons_inj c).mpr (hfirst ahead version rest hv)

theorem IsBare.eq {bare' : Text} (h : IsBare n bare) (h' : IsBare n bare') : bare = bare' := by
  have hle {a b : Text} (ha : IsBare n a) (hb : IsBare n b) : a <+: b := by
    obtain ⟨version, hn, rfl | hversion⟩ := hb.rest
    · obtain ⟨rest, hrest, -⟩ := ha.rest
      rw [List.append_nil] at hn
      exact ⟨rest, hrest.symm.trans hn⟩
    · exact ha.first b version hn hversion
  exact (hle h h').eq_of_length_le (hle h' h).length_le

/-- **A name without its version** is what stands ahead of the first place where one can
begin. -/
theorem isBare_iff : IsBare n bare ↔ bare = withoutVersion n :=
  ⟨fun h => h.eq (isBare_withoutVersion n), fun h => h ▸ isBare_withoutVersion n⟩

/-- A version behind a name goes with what goes before. -/
theorem withoutVersion_append (ht : IsVersionSuffix t) (n : Text) :
    withoutVersion (n ++ t) = withoutVersion n := by
  induction n with
  | nil => exact withoutVersion_of_isVersionSuffix ht
  | cons c n ih =>
    have hiff : IsVersionSuffix (c :: (n ++ t)) ↔ IsVersionSuffix (c :: n) :=
      isVersionSuffix_append_iff ht (List.cons_ne_nil c n)
    by_cases hc : IsVersionSuffix (c :: n)
    · exact (withoutVersion_of_isVersionSuffix (hiff.mpr hc)).trans
        (withoutVersion_of_isVersionSuffix hc).symm
    · rw [List.cons_append, withoutVersion_cons (mt hiff.mp hc), withoutVersion_cons hc, ih]

/-- No version is left in a name without its version. -/
theorem withoutVersion_withoutVersion (n : Text) :
    withoutVersion (withoutVersion n) = withoutVersion n := by
  obtain ⟨version, hn, rfl | hversion⟩ := (isBare_withoutVersion n).rest
  · rw [List.append_nil] at hn
    exact (congrArg withoutVersion hn).symm
  · calc
      withoutVersion (withoutVersion n) = withoutVersion (withoutVersion n ++ version) :=
        (withoutVersion_append hversion _).symm
      _ = withoutVersion n := by rw [← hn]

/-! ## Normal forms -/

/-- A name is disabled under the same name as without its version. -/
theorem disableName?_congr (h : withoutVersion n = withoutVersion m) :
    disableName? n = disableName? m := by
  rw [disableName?, disableName?, h]

/-- What a module is disabled under is its name without the version or a name that several
share. -/
theorem disableName?_eq_some (h : disableName? n = some m) :
    m = withoutVersion n ∨ ∃ e ∈ disabledAs, m = e.2.toList := by
  simp only [disableName?] at h
  split at h
  · cases h
  · split at h
    · next e he => exact Or.inr ⟨e, List.mem_of_find?_eq_some he, (Option.some.inj h).symm⟩
    · exact Or.inl (Option.some.inj h).symm

theorem disableName?_disabledAs : ∀ e ∈ disabledAs,
    disableName? e.2.toList = some e.2.toList := by
  decide

/-- **A name under which a module is disabled stands for itself.** -/
theorem disableName?_of_disableName? (h : disableName? n = some m) : disableName? m = some m := by
  rcases disableName?_eq_some h with rfl | ⟨e, he, rfl⟩
  · rwa [disableName?_congr (withoutVersion_withoutVersion n)]
  · exact disableName?_disabledAs e he

/-! ## Rows -/

/-- The names under which modules are disabled, in order. -/
def disabledNames (names : List Text) : List Text :=
  (TextSet.ofList (names.filterMap disableName?)).toList

theorem disableTable_eq (names : List Text) (version : Text) : disableTable names version =
    disableHeader ++ (disabledNames names).flatMap disableRow ++ footer version := rfl

theorem mem_disabledNames : m ∈ disabledNames names ↔ ∃ n ∈ names, disableName? n = some m := by
  rw [disabledNames, ← TextSet.mem_def, TextSet.mem_ofList, List.mem_filterMap]

theorem pairwise_disabledNames (names : List Text) :
    (disabledNames names).Pairwise fun a b => bytes a < bytes b :=
  (TextSet.increasing _).imp compare_eq_lt_iff_bytes.mp

/-- Names with the same normal forms give the same list. -/
theorem disableTable_congr (h : ∀ m, (∃ n ∈ names', disableName? n = some m) ↔
    ∃ n ∈ names, disableName? n = some m) :
    disableTable names' version = disableTable names version := by
  have hsame : disabledNames names' = disabledNames names :=
    TextSet.eq_of_increasing (TextSet.increasing _) (TextSet.increasing _) fun m =>
      mem_disabledNames.trans ((h m).trans mem_disabledNames.symm)
  rw [disableTable_eq, disableTable_eq, hsame]

theorem plain_knownNames : ∀ e ∈ knownNames, Plain e.1.toList ∧ Plain e.2.toList := by
  have hnames : ∀ e ∈ knownNames, ('|' ∉ e.1.toList ∧ '\n' ∉ e.1.toList) ∧
      ('|' ∉ e.2.toList ∧ '\n' ∉ e.2.toList) := by
    unfold knownNames
    -- entry by entry, so that each literal is looked through as a list of characters
    repeat'
      refine forall_mem_cons_ofList
        (P := fun name known => ('|' ∉ name ∧ '\n' ∉ name) ∧ ('|' ∉ known ∧ '\n' ∉ known))
        (by decide) ?_
    exact List.forall_mem_nil _
  intro e he
  obtain ⟨⟨hbar, hbreak⟩, hbar', hbreak'⟩ := hnames e he
  exact ⟨forall_mem_delimiters hbar hbreak, forall_mem_delimiters hbar' hbreak'⟩

theorem mem_shownWord_iff (hx : x ∈ delimiters) : x ∈ shownWord s ↔ x ∈ s := by
  simp only [shownWord]
  split
  · rw [mem_toUpper_iff hx, mem_toLower_iff hx]
  · rw [mem_capitalize_iff hx, mem_toLower_iff hx]

/-- The name for readers holds the delimiters of the name. -/
theorem mem_shownName_iff (hx : x ∈ delimiters) : x ∈ shownName s ↔ x ∈ s := by
  rw [shownName]
  split
  · next e he =>
    obtain ⟨hname, hknown⟩ := plain_knownNames e (List.mem_of_find?_eq_some he)
    have hs : e.1.toList = s := by simpa using List.find?_some he
    exact iff_of_false (hknown x hx) (hs ▸ hname x hx)
  · have hframe : ∀ x ∈ delimiters, x ∉ [' '] ∧ x ≠ '-' :=
      forall_mem_delimiters (by decide) (by decide)
    obtain ⟨hspace, hdash⟩ := hframe x hx
    rw [mem_intercalate_iff hspace, ← mem_splitOn_iff hdash]
    simp only [List.mem_map, exists_exists_and_eq_and, mem_shownWord_iff hx]

/-- The rows are lines of two cells exactly if no name ends a cell or a line. -/
theorem hasRows_disableRows (names : List Text) :
    HasRows 2 names.length (names.flatMap disableRow) ↔ ∀ n ∈ names, Plain n := by
  refine (hasRows_iff (Nat.succ_pos _) fun n _ => rfl).trans (forall₂_congr fun n _ => ?_)
  have hcode (x : Char) (hx : x ∈ delimiters) : x ∈ '`' :: n ++ ['`'] ↔ x ∈ n := by
    have hframe : ∀ x ∈ delimiters, x ≠ '`' := forall_mem_delimiters (by decide) (by decide)
    simp [hframe x hx]
  refine (plain_iff fun x hx => ?_).trans (List.forall_mem_singleton (a := n))
  rw [List.exists_mem_cons_iff, mem_shownName_iff hx, List.exists_mem_cons_iff, hcode x hx]
  simp

/-! ## The list -/

/-- **The disable list shows normal forms.** Its rows are the names under which the modules are
disabled, each once and in the order of their bytes, and each is a line of two cells as long as
no name ends a cell or a line. So the text stays the same when names are permuted or repeated,
when names are replaced by their normal forms, and when a name comes with a version as well. -/
theorem disableTable_normalised (version : Text) :
    (∀ n bare, IsBare n bare ↔ bare = withoutVersion n) ∧
    (∀ n m, disableName? n = some m → disableName? m = some m) ∧
    ∀ names : List Text,
      (∃ rows : List Text,
        disableTable names version = disableHeader ++ rows.flatMap disableRow ++ footer version ∧
        (rows.Pairwise fun a b => bytes a < bytes b) ∧
        (∀ m, m ∈ rows ↔ ∃ n ∈ names, disableName? n = some m) ∧
        (HasRows 2 rows.length (rows.flatMap disableRow) ↔ ∀ m ∈ rows, Plain m)) ∧
      (∀ names', (∀ n, n ∈ names' ↔ n ∈ names) →
        disableTable names' version = disableTable names version) ∧
      disableTable (names.filterMap disableName?) version = disableTable names version ∧
      disableTable (names.map fun n => (disableName? n).getD n) version =
        disableTable names version ∧
      ∀ n ∈ names, ∀ suffix, IsVersionSuffix suffix →
        disableTable ((n ++ suffix) :: names) version = disableTable names version := by
  refine ⟨fun _ _ => isBare_iff, fun _ _ => disableName?_of_disableName?, fun names =>
    ⟨⟨disabledNames names, disableTable_eq names version, pairwise_disabledNames names,
      fun _ => mem_disabledNames, hasRows_disableRows _⟩, ?_, ?_, ?_, ?_⟩⟩
  · intro names' h
    exact disableTable_congr fun m => by simp only [h]
  · refine disableTable_congr fun m => ?_
    simp only [List.mem_filterMap]
    constructor
    · rintro ⟨k, ⟨n, hn, hk⟩, hm⟩
      rw [disableName?_of_disableName? hk] at hm
      exact ⟨n, hn, hk.trans hm⟩
    · rintro ⟨n, hn, hm⟩
      exact ⟨m, ⟨n, hn, hm⟩, disableName?_of_disableName? hm⟩
  · refine disableTable_congr fun m => ?_
    have hsame (n : Text) : disableName? ((disableName? n).getD n) = disableName? n := by
      cases hn : disableName? n with
      | none => exact hn
      | some k => exact disableName?_of_disableName? hn
    simp only [List.mem_map, exists_exists_and_eq_and, hsame]
  · intro n hn suffix hsuffix
    refine disableTable_congr fun m => ?_
    rw [List.exists_mem_cons_iff, disableName?_congr (withoutVersion_append hsuffix n)]
    exact or_iff_right_of_imp fun h => ⟨n, hn, h⟩

/-- A name with a second version, the names from the other end, and a name that stands for
another one. -/
theorem disableTable_normalised_sample :
    let names := ["akka-actor-fork-join-2.5", "resources", "akka-http-10.0"].map String.toList
    disableName? "akka-actor-fork-join-2.5".toList = some "akka-actor".toList ∧
      disableName? "akka-actor".toList = some "akka-actor".toList ∧
      (∀ n, n ∈ names.reverse ↔ n ∈ names) ∧
      disableTable names.reverse ['1'] = disableTable names ['1'] ∧
      ("akka-http-10.0".toList ∈ names ∧ IsVersionSuffix "-2-rc".toList) ∧
      disableTable (("akka-http-10.0".toList ++ "-2-rc".toList) :: names) ['1'] =
        disableTable names ['1'] := by
  intro names
  have hname : disableName? "akka-actor-fork-join-2.5".toList = some "akka-actor".toList := by
    decide
  have hperm (n : Text) : n ∈ names.reverse ↔ n ∈ names := List.mem_reverse
  have hmem : "akka-http-10.0".toList ∈ names := by decide
  have hsuffix : IsVersionSuffix "-2-rc".toList :=
    ⟨'2', "-rc".toList, by decide, by decide, by decide⟩
  obtain ⟨-, hnormal, htable⟩ := disableTable_normalised ['1']
  obtain ⟨-, hset, -, -, hversion⟩ := htable names
  exact ⟨hname, hnormal _ _ hname, hperm, hset _ hperm, ⟨hmem, hsuffix⟩,
    hversion _ hmem _ hsuffix⟩

end Fragment

end ModuleDocs

import ModuleDocs.Proofs.Descriptor.Interpolation

/-!
# Which references are replaced

A reference is a dollar and a name, which is a word in braces or the longest word that stands there.
`replaceReferences` reads a text once and puts in the value of each reference that has one. What is
done to a descriptor is something else: name by name, `$name` is replaced wherever it stands. The
two agree where each dollar starts a reference to a declared name.

> `interpolation_simultaneous`: there the substitutions in turn replace all references at once.

They do because longer names come first. A name that stands at the front of a longer word has its
turn after that word, if the word is a name itself. Where it is none, nothing protects it, and the
front of the word is replaced (`undeclared_references`).

Each substitution takes a text apart at its references: behind a reference that is not followed by
a word or by a dollar, it works on the rest of the text alone (`foldl_substitute_bare`).
-/

namespace ModuleDocs

namespace Descriptor

open Text (byteLength)

variable {s u d name run rest value : Text} {binding : Text × Text}
  {bindings before after : List (Text × Text)} {value? : Text → Option Text}

/-! ## The specification -/

/-- The value that a descriptor gives a name: that of its last declaration. -/
def declaredValue (d name : Text) : Option Text :=
  TextMap.lookup name ((Text.hits variableDeclaration d).map Hit.value).reverse

/-- The name of the reference that a dollar starts, and the text behind it, by what is behind the
dollar. -/
def reference? : Text → Option (Text × Text)
  | '\x7b' :: s => do
    let (name, rest) ← Text.word? s
    pure (name, ← Text.after? ['\x7d'] rest)
  | s => Text.word? s

/-- The value of the reference that a text begins with, and the text behind it. -/
def referenced? (value? : Text → Option Text) : Text → Option (Text × Text)
  | '$' :: s => do
    let (name, rest) ← reference? s
    pure (← value? name, rest)
  | _ => none

/-- The replacing proper; `skip` characters of the last reference are still to be passed over. -/
def replaceReferencesFrom (value? : Text → Option Text) : Nat → Text → Text
  | _, [] => []
  | skip + 1, _ :: s => replaceReferencesFrom value? skip s
  | 0, c :: s =>
    match referenced? value? (c :: s) with
    | some (value, rest) => value ++ replaceReferencesFrom value? (s.length - rest.length) s
    | none => c :: replaceReferencesFrom value? 0 s

/-- Replaces all references that have a value, at once. -/
def replaceReferences (value? : Text → Option Text) (s : Text) : Text :=
  replaceReferencesFrom value? 0 s

/-- Each dollar of a text starts a reference that has a value, and none without braces has another
dollar right behind it. -/
def AllReferenced (value? : Text → Option Text) (s : Text) : Prop :=
  ∀ ahead behind, s = ahead ++ '$' :: behind → ∃ name rest,
    reference? behind = some (name, rest) ∧ (value? name).isSome ∧
      (rest.head? = some '$' → behind.head? = some '\x7b')

/-! ## References -/

theorem IsName.not_mem {c : Char} (h : IsName name) (hc : Text.isWord c = false) : c ∉ name := by
  intro hmem
  rw [h.word c hmem] at hc
  cases hc

/-- A reference has its name in braces, or as the longest word. -/
theorem reference?_eq_some_iff : reference? s = some (name, rest) ↔ IsName name ∧
    (s = '\x7b' :: (name ++ '\x7d' :: rest) ∨
      s = name ++ rest ∧ rest.head?.any Text.isWord = false) := by
  have hopen : Text.isWord '\x7b' = false := by decide
  have hclose : Text.isWord '\x7d' = false := by decide
  unfold reference?
  split
  next s =>
    simp only [bind, Option.bind_eq_some_iff, pure, Option.some.injEq, Prod.mk.injEq]
    constructor
    · intro h
      obtain ⟨⟨word, t⟩, hword, w, hafter, rfl, rfl⟩ := h
      obtain ⟨rfl, hname, -⟩ := word?_eq_some_iff.mp hword
      have ht : t = '\x7d' :: w := Text.after?_eq_some.mp hafter
      exact ⟨hname, Or.inl (by rw [ht])⟩
    · intro h
      obtain ⟨hname, hs | ⟨hs, -⟩⟩ := h
      · obtain ⟨-, rfl⟩ := List.cons.inj hs
        exact ⟨(name, '\x7d' :: rest), word?_eq_some_iff.mpr ⟨rfl, hname, hclose⟩, rest,
          Text.after?_eq_some.mpr rfl, rfl, rfl⟩
      · exfalso
        obtain ⟨c, w, rfl⟩ := List.exists_cons_of_ne_nil hname.nonempty
        obtain ⟨rfl, -⟩ := List.cons.inj hs
        exact hname.not_mem hopen List.mem_cons_self
  next hbrace =>
    rw [word?_eq_some_iff]
    constructor
    · intro h
      obtain ⟨hs, hname, hrest⟩ := h
      exact ⟨hname, Or.inr ⟨hs, hrest⟩⟩
    · intro h
      obtain ⟨hname, hs | ⟨hs, hrest⟩⟩ := h
      · exact absurd hs (hbrace _)
      · exact ⟨hs, hname, hrest⟩

theorem suffix_of_reference? (h : reference? s = some (name, rest)) : rest <:+ s := by
  obtain ⟨-, hs | ⟨hs, -⟩⟩ := reference?_eq_some_iff.mp h
  · exact ⟨'\x7b' :: (name ++ ['\x7d']), by rw [hs]; simp⟩
  · exact ⟨name, hs.symm⟩

/-! ## Replacing all at once -/

theorem replaceReferencesFrom_eq_drop {skip : Nat} :
    replaceReferencesFrom value? skip s = replaceReferences value? (s.drop skip) := by
  induction s generalizing skip with
  | nil => cases skip <;> rfl
  | cons c s ih =>
    cases skip with
    | zero => rfl
    | succ skip => exact ih

theorem replaceReferences_cons {c : Char} (hc : c ≠ '$') :
    replaceReferences value? (c :: s) = c :: replaceReferences value? s := by
  have hnone : referenced? value? (c :: s) = none := by
    unfold referenced?
    split
    next heq => exact absurd (List.cons.inj heq).1 hc
    next => rfl
  rw [replaceReferences, replaceReferencesFrom, hnone]
  rfl

theorem replaceReferences_reference (hreference : reference? s = some (name, rest))
    (hvalue : value? name = some value) :
    replaceReferences value? ('$' :: s) = value ++ replaceReferences value? rest := by
  have hsome : referenced? value? ('$' :: s) = some (value, rest) := by
    simp only [referenced?, hreference, hvalue, bind, Option.bind_some, pure]
  have hrest : s.drop (s.length - rest.length) = rest := by
    obtain ⟨read, rfl⟩ := suffix_of_reference? hreference
    rw [List.length_append, Nat.add_sub_cancel, List.drop_left]
  rw [replaceReferences, replaceReferencesFrom, hsome]
  show value ++ replaceReferencesFrom value? (s.length - rest.length) s = _
  rw [replaceReferencesFrom_eq_drop, hrest]

/-! ## One name -/

/-- A name with its dollar, in braces. -/
def braced (name : Text) : Text := '$' :: '\x7b' :: (name ++ ['\x7d'])

theorem substitute_eq : substitute s binding = Text.replaceAll
    (Text.replaceAll s (braced binding.1) binding.2) ('$' :: binding.1) binding.2 :=
  rfl

/-- What has no dollar is passed over. -/
theorem substitute_append (hu : '$' ∉ u) :
    substitute (u ++ s) binding = u ++ substitute s binding := by
  rw [substitute_eq, braced, Text.replaceAll_append_of_not_mem hu,
    Text.replaceAll_append_of_not_mem hu]
  rfl

/-- A text that can follow a reference without braces: no word goes on there, and no other dollar
is there whose value would make one go on. -/
def Parted (rest : Text) : Prop := ∀ c ∈ rest.head?, Text.isWord c = false ∧ c ≠ '$'

theorem Parted.replaceAll (h : Parted rest) :
    Parted (Text.replaceAll rest ('$' :: name) value) := by
  cases rest with
  | nil => exact h
  | cons c rest =>
    have hc : '$' ∉ [c] := by
      simpa using Ne.symm (h c rfl).2
    rw [← List.singleton_append, Text.replaceAll_append_of_not_mem hc]
    exact h

theorem Parted.substitute (h : Parted rest) : Parted (substitute rest binding) := by
  have hfirst : Parted (Text.replaceAll rest (braced binding.1) binding.2) := h.replaceAll
  exact hfirst.replaceAll

theorem Parted.prefix_iff (h : Parted rest) (hname : IsName name) :
    name <+: run ++ rest ↔ name <+: run := by
  cases rest with
  | nil => rw [List.append_nil]
  | cons c rest => exact Text.prefix_append_cons_iff (hname.not_mem (h c rfl).1)

theorem IsName.head?_ne {c : Char} (hname : IsName name) (hc : Text.isWord c = false) :
    (name ++ s).head? ≠ some c := by
  obtain ⟨x, w, rfl⟩ := List.exists_cons_of_ne_nil hname.nonempty
  intro h
  obtain rfl : x = c := Option.some.inj h
  exact hname.not_mem hc List.mem_cons_self

theorem not_starts_braced (h : s.head? ≠ some '\x7b') : ¬ braced name <+: '$' :: s := by
  intro hp
  obtain ⟨w, rfl⟩ := (List.cons_prefix_cons.mp hp).2
  exact h rfl

/-- What stands behind a dollar and is not in braces is left to the second replacement. -/
theorem substitute_dollar (hs : s.head? ≠ some '\x7b') (hu : '$' ∉ u) (hsplit : s = u ++ rest) :
    substitute ('$' :: s) binding =
      Text.replaceAll ('$' :: (u ++ Text.replaceAll rest (braced binding.1) binding.2))
        ('$' :: binding.1) binding.2 := by
  have hpass : Text.replaceAll (u ++ rest) (braced binding.1) binding.2 =
      u ++ Text.replaceAll rest (braced binding.1) binding.2 :=
    Text.replaceAll_append_of_not_mem hu
  rw [substitute_eq, Text.replaceAll_cons (not_starts_braced hs), hsplit, hpass]

/-- A name is replaced where it stands behind a dollar, also at the front of a longer word. -/
theorem substitute_bare (hname : IsName binding.1) :
    substitute ('$' :: (binding.1 ++ s)) binding = binding.2 ++ substitute s binding := by
  have hdollar : '$' ∉ binding.1 := hname.not_mem (by decide)
  rw [substitute_dollar (hname.head?_ne (by decide)) hdollar rfl, ← List.cons_append,
    Text.replaceAll_needle_append (by simp)]
  rfl

/-- A name that does not stand there changes nothing. -/
theorem substitute_bare_elsewhere (hname : IsName binding.1) (hrun : IsName run)
    (hrest : Parted rest) (hnot : ¬ binding.1 <+: run) :
    substitute ('$' :: (run ++ rest)) binding = '$' :: (run ++ substitute rest binding) := by
  have hdollar : '$' ∉ run := hrun.not_mem (by decide)
  have hfront : ¬ '$' :: binding.1 <+:
      '$' :: (run ++ Text.replaceAll rest (braced binding.1) binding.2) := by
    intro hp
    exact hnot ((hrest.replaceAll.prefix_iff hname).mp (List.cons_prefix_cons.mp hp).2)
  rw [substitute_dollar (hrun.head?_ne (by decide)) hdollar rfl,
    Text.replaceAll_cons hfront, Text.replaceAll_append_of_not_mem hdollar]
  rfl

/-- A name in braces is replaced. Its value must not take part in what is replaced then. -/
theorem substitute_braced (hvalue : '$' ∉ binding.2) :
    substitute (braced binding.1 ++ rest) binding = binding.2 ++ substitute rest binding := by
  rw [substitute_eq, Text.replaceAll_needle_append (by simp [braced]),
    Text.replaceAll_append_of_not_mem hvalue]
  rfl

/-- Another name in braces is left as it is. -/
theorem substitute_braced_of_ne (hname : IsName binding.1) (hother : IsName name)
    (hne : binding.1 ≠ name) :
    substitute (braced name ++ rest) binding = braced name ++ substitute rest binding := by
  have hopen : Text.isWord '\x7b' = false := by decide
  have hclose : Text.isWord '\x7d' = false := by decide
  have hdollar : '$' ∉ '\x7b' :: (name ++ ['\x7d']) := by
    simpa using hother.not_mem (by decide)
  have hbraced : ¬ braced binding.1 <+: braced name ++ rest := by
    intro hp
    obtain ⟨w, hw⟩ := hp
    simp only [braced, List.cons_append, List.append_assoc, List.cons.injEq, true_and] at hw
    have hfront : binding.1 <+: name := (Text.prefix_append_cons_iff (hname.not_mem hclose)).mp
      (hw ▸ List.prefix_append _ _)
    have hback : name <+: binding.1 := (Text.prefix_append_cons_iff (hother.not_mem hclose)).mp
      (hw.symm ▸ List.prefix_append _ _)
    exact hne (hfront.eq_of_length_le hback.length_le)
  have hbare : ∀ t, ¬ '$' :: binding.1 <+: '$' :: '\x7b' :: t := by
    intro t hp
    obtain ⟨w, hw⟩ := (List.cons_prefix_cons.mp hp).2
    exact hname.head?_ne hopen (congrArg List.head? hw)
  have hpass : ∀ {n : Text} {t : Text}, Text.replaceAll (('\x7b' :: (name ++ ['\x7d'])) ++ t)
      ('$' :: n) binding.2 = ('\x7b' :: (name ++ ['\x7d'])) ++
        Text.replaceAll t ('$' :: n) binding.2 :=
    Text.replaceAll_append_of_not_mem hdollar
  have hfirst : Text.replaceAll (braced name ++ rest) (braced binding.1) binding.2 =
      braced name ++ Text.replaceAll rest (braced binding.1) binding.2 :=
    (Text.replaceAll_cons hbraced).trans (congrArg (List.cons '$') hpass)
  have hsecond : ∀ {t : Text}, Text.replaceAll (braced name ++ t) ('$' :: binding.1) binding.2 =
      braced name ++ Text.replaceAll t ('$' :: binding.1) binding.2 :=
    (Text.replaceAll_cons (hbare _)).trans (congrArg (List.cons '$') hpass)
  rw [substitute_eq, hfirst, hsecond]
  rfl

/-! ## One name after the other -/

theorem foldl_substitute_append (hu : '$' ∉ u) :
    bindings.foldl substitute (u ++ s) = u ++ bindings.foldl substitute s := by
  induction bindings generalizing s with
  | nil => rfl
  | cons binding bindings ih => rw [List.foldl_cons, List.foldl_cons, substitute_append hu, ih]

theorem not_mem_of_word (hu : ∀ c ∈ u, Text.isWord c = true) : '$' ∉ u := by
  intro hmem
  exact absurd (hu _ hmem) (by decide)

/-- The front of a word is replaced by the first name that stands there, and the rest of the text is
worked on alone. -/
theorem foldl_substitute_bare (hnames : ∀ b ∈ before ++ (name, value) :: after, IsName b.1)
    (hvalue : '$' ∉ value) (hu : ∀ c ∈ u, Text.isWord c = true) (hrest : Parted rest)
    (hbefore : ∀ b ∈ before, ¬ b.1 <+: name ++ u) :
    (before ++ (name, value) :: after).foldl substitute ('$' :: (name ++ u ++ rest)) =
      value ++ u ++ (before ++ (name, value) :: after).foldl substitute rest := by
  have hdollar := not_mem_of_word hu
  have hname : IsName name := hnames (name, value) (by simp)
  induction before generalizing rest with
  | nil =>
    have hfirst : substitute ('$' :: (name ++ (u ++ rest))) (name, value) =
        value ++ substitute (u ++ rest) (name, value) := substitute_bare hname
    rw [List.nil_append, List.foldl_cons, List.foldl_cons, List.append_assoc, hfirst,
      substitute_append hdollar, foldl_substitute_append hvalue, foldl_substitute_append hdollar,
      List.append_assoc]
  | cons b before ih =>
    have hrun : IsName (name ++ u) := by
      refine ⟨by simp [hname.nonempty], ?_⟩
      intro c hc
      rcases List.mem_append.mp hc with hc | hc
      · exact hname.word c hc
      · exact hu c hc
    rw [List.cons_append, List.foldl_cons, List.foldl_cons, substitute_bare_elsewhere
      (hnames b (by simp)) hrun hrest (hbefore b List.mem_cons_self)]
    exact ih (fun b' hb' => hnames b' (List.mem_cons_of_mem b hb')) hrest.substitute
      fun b' hb' => hbefore b' (List.mem_cons_of_mem b hb')

/-- A name in braces is replaced when it has its turn. -/
theorem foldl_substitute_braced (hnames : ∀ b ∈ before ++ (name, value) :: after, IsName b.1)
    (hvalue : '$' ∉ value) (hbefore : ∀ b ∈ before, b.1 ≠ name) :
    (before ++ (name, value) :: after).foldl substitute (braced name ++ rest) =
      value ++ (before ++ (name, value) :: after).foldl substitute rest := by
  have hname : IsName name := hnames (name, value) (by simp)
  induction before generalizing rest with
  | nil =>
    have hfirst : substitute (braced name ++ rest) (name, value) =
        value ++ substitute rest (name, value) := substitute_braced hvalue
    rw [List.nil_append, List.foldl_cons, List.foldl_cons, hfirst, foldl_substitute_append hvalue]
  | cons b before ih =>
    rw [List.cons_append, List.foldl_cons, List.foldl_cons, substitute_braced_of_ne
      (hnames b (by simp)) hname (hbefore b List.mem_cons_self)]
    exact ih (fun b' hb' => hnames b' (List.mem_cons_of_mem b hb'))
      fun b' hb' => hbefore b' (List.mem_cons_of_mem b hb')

/-! ## The variables of a descriptor -/

theorem mem_declaredVariables_iff :
    (name, value) ∈ declaredVariables d ↔ declaredValue d name = some value := by
  rw [declaredVariables, List.mem_mergeSort, TextMap.mem_entries_iff, TextMap.get?_ofList,
    declaredValue]

/-- The names ahead of a name are other ones, and none of them is shorter. -/
theorem exists_declaredVariables_split (h : declaredValue d name = some value) :
    ∃ before after, declaredVariables d = before ++ (name, value) :: after ∧
      ∀ b ∈ before, b.1 ≠ name ∧ byteLength name ≤ byteLength b.1 := by
  obtain ⟨before, after, hsplit⟩ := List.append_of_mem (mem_declaredVariables_iff.mpr h)
  have hdistinct : (declaredVariables d).Pairwise fun a b => a.1 ≠ b.1 :=
    List.pairwise_map.mp (((List.mergeSort_perm _ _).map Prod.fst).nodup_iff.mpr
      (TextMap.nodup_keys _))
  have hsorted : (declaredVariables d).Pairwise fun a b =>
      decide (byteLength b.1 ≤ byteLength a.1) = true := by
    refine List.pairwise_mergeSort ?_ ?_ _
    · intro a b c hab hbc
      simp only [decide_eq_true_eq] at hab hbc ⊢
      omega
    · intro a b
      simp only [Bool.or_eq_true, decide_eq_true_eq]
      omega
  refine ⟨before, after, hsplit, ?_⟩
  intro b hb
  rw [hsplit] at hdistinct hsorted
  exact ⟨(List.pairwise_append.mp hdistinct).2.2 b hb _ List.mem_cons_self,
    of_decide_eq_true ((List.pairwise_append.mp hsorted).2.2 b hb _ List.mem_cons_self)⟩

/-- The longest name at the front of a word is replaced. -/
theorem interpolate_bare (hvalue : declaredValue d name = some value) (hdollar : '$' ∉ value)
    (hu : ∀ c ∈ u, Text.isWord c = true) (hrest : Parted rest)
    (hlongest : ∀ q w, declaredValue d q = some w → q <+: name ++ u → q <+: name) :
    interpolate ('$' :: (name ++ u ++ rest)) (declaredVariables d) =
      value ++ u ++ interpolate rest (declaredVariables d) := by
  obtain ⟨before, after, hsplit, hbefore⟩ := exists_declaredVariables_split hvalue
  rw [interpolate_eq_foldl, interpolate_eq_foldl, hsplit]
  refine foldl_substitute_bare ?_ hdollar hu hrest ?_
  · intro b hb
    exact isName_of_mem_declaredVariables (hsplit ▸ hb)
  · intro b hb hprefix
    obtain ⟨hne, hlength⟩ := hbefore b hb
    have hmem : (b.1, b.2) ∈ declaredVariables d := by
      rw [hsplit]
      exact List.mem_append_left _ hb
    have hfront := hlongest b.1 b.2 (mem_declaredVariables_iff.mp hmem) hprefix
    have hback : name <+: b.1 :=
      (Text.prefix_iff_byteLength_le (List.prefix_refl name) hfront).mpr hlength
    exact hne (hfront.eq_of_length_le hback.length_le)

theorem interpolate_braced (hvalue : declaredValue d name = some value) (hdollar : '$' ∉ value) :
    interpolate (braced name ++ rest) (declaredVariables d) =
      value ++ interpolate rest (declaredVariables d) := by
  obtain ⟨before, after, hsplit, hbefore⟩ := exists_declaredVariables_split hvalue
  rw [interpolate_eq_foldl, interpolate_eq_foldl, hsplit]
  refine foldl_substitute_braced ?_ hdollar fun b hb => (hbefore b hb).1
  intro b hb
  exact isName_of_mem_declaredVariables (hsplit ▸ hb)

theorem interpolate_append (hu : '$' ∉ u) :
    interpolate (u ++ s) bindings = u ++ interpolate s bindings := by
  rw [interpolate_eq_foldl, interpolate_eq_foldl, foldl_substitute_append hu]

/-! ## All references at once -/

/-- One reference is replaced, and the rest of the text is worked on alone. -/
theorem interpolate_reference (hreference : reference? s = some (name, rest))
    (hvalue : declaredValue d name = some value) (hdollar : '$' ∉ value)
    (hbraces : rest.head? = some '$' → s.head? = some '\x7b') :
    interpolate ('$' :: s) (declaredVariables d) =
      value ++ interpolate rest (declaredVariables d) := by
  obtain ⟨hname, hs | ⟨hs, hend⟩⟩ := reference?_eq_some_iff.mp hreference
  · have hread : '$' :: s = braced name ++ rest := by
      rw [hs, braced]
      simp
    rw [hread]
    exact interpolate_braced hvalue hdollar
  · have hopen : s.head? ≠ some '\x7b' := by
      rw [hs]
      exact hname.head?_ne (by decide)
    have hparted : Parted rest := by
      intro c hc
      have hhead : rest.head? = some c := hc
      rw [hhead] at hend hbraces
      exact ⟨hend, fun heq => hopen (hbraces (congrArg some heq))⟩
    have hbare := interpolate_bare (u := []) hvalue hdollar (by simp) hparted fun q w _ hq => by
      rwa [List.append_nil] at hq
    rw [hs]
    simpa using hbare

theorem AllReferenced.of_suffix {t : Text} (h : AllReferenced value? s) (ht : t <:+ s) :
    AllReferenced value? t := by
  intro ahead behind hsplit
  obtain ⟨front, hfront⟩ := ht
  exact h (front ++ ahead) behind (by rw [← hfront, hsplit, List.append_assoc])

/-- **Interpolation is simultaneous substitution** where each dollar starts a reference to a
declared name, no reference without braces has a dollar right behind it, and no value has a dollar.
It does not matter whether a name begins with another one. -/
theorem interpolation_simultaneous (d s : Text) (hvalues : ∀ b ∈ declaredVariables d, '$' ∉ b.2)
    (hs : AllReferenced (declaredValue d) s) :
    interpolate s (declaredVariables d) = replaceReferences (declaredValue d) s := by
  obtain ⟨n, hn⟩ : ∃ n, s.length = n := ⟨_, rfl⟩
  induction n using Nat.strong_induction_on generalizing s with
  | _ n ih =>
  cases s with
  | nil => exact interpolate_of_not_mem (by simp)
  | cons c s =>
    rw [List.length_cons] at hn
    by_cases hc : c = '$'
    · subst hc
      obtain ⟨name, rest, hreference, hsome, hbraces⟩ := hs [] s rfl
      obtain ⟨value, hvalue⟩ := Option.isSome_iff_exists.mp hsome
      have hdollar : '$' ∉ value := hvalues (name, value) (mem_declaredVariables_iff.mpr hvalue)
      have hsuffix := suffix_of_reference? hreference
      have hlength := hsuffix.length_le
      have hrest := ih rest.length (by omega) rest
        (hs.of_suffix (hsuffix.trans (List.suffix_cons _ s))) rfl
      rw [interpolate_reference hreference hvalue hdollar hbraces,
        replaceReferences_reference hreference hvalue, hrest]
    · have hrest := ih s.length (by omega) s (hs.of_suffix (List.suffix_cons c s)) rfl
      have hpass : interpolate ([c] ++ s) (declaredVariables d) =
          [c] ++ interpolate s (declaredVariables d) :=
        interpolate_append (by simpa using Ne.symm hc)
      rw [replaceReferences_cons hc, ← hrest]
      exact hpass

theorem allReferenced_iff : AllReferenced value? s ↔ ∀ t ∈ s.tails, t.head? = some '$' →
    ∃ p ∈ reference? t.tail, (value? p.1).isSome ∧
      (p.2.head? = some '$' → t.tail.head? = some '\x7b') := by
  constructor
  · intro h t ht hhead
    obtain ⟨ahead, hahead⟩ := (List.mem_tails t s).mp ht
    obtain ⟨behind, rfl⟩ := List.head?_eq_some_iff.mp hhead
    obtain ⟨name, rest, hreference, hsome, hbraces⟩ := h ahead behind hahead.symm
    exact ⟨(name, rest), hreference, hsome, hbraces⟩
  · intro h ahead behind hs
    obtain ⟨⟨name, rest⟩, hreference, hsome, hbraces⟩ :=
      h ('$' :: behind) ((List.mem_tails _ s).mpr ⟨ahead, hs.symm⟩) rfl
    exact ⟨name, rest, hreference, hsome, hbraces⟩

instance : Decidable (AllReferenced value? s) := decidable_of_iff _ allReferenced_iff.symm

namespace Sample

/-- Variables one of which is declared twice, and begins the name of the other. -/
def namesInNames : Text := "val v = \"1\"\nval vLatest = \"2\"\nval v = \"3\"\n".toList

end Sample

theorem interpolation_simultaneous_sample :
    (∀ b ∈ declaredVariables Sample.namesInNames, '$' ∉ b.2) ∧
      AllReferenced (declaredValue Sample.namesInNames) "[$v,$\x7bvLatest\x7d$vLatest)".toList ∧
      interpolate "[$v,$\x7bvLatest\x7d$vLatest)".toList (declaredVariables Sample.namesInNames) =
        "[3,22)".toList := by
  have hread : ∀ b ∈ (Text.hits variableDeclaration Sample.namesInNames).map Hit.value,
      '$' ∉ b.2 := by decide +kernel
  have hvalues : ∀ b ∈ declaredVariables Sample.namesInNames, '$' ∉ b.2 :=
    fun b hb => hread b (mem_hits_of_mem_declaredVariables hb)
  have hs : AllReferenced (declaredValue Sample.namesInNames)
      "[$v,$\x7bvLatest\x7d$vLatest)".toList := by decide +kernel
  refine ⟨hvalues, hs, ?_⟩
  rw [interpolation_simultaneous Sample.namesInNames _ hvalues hs]
  decide +kernel

/-! ## References that are left alone -/

/-- A name stands behind a dollar, in braces or at the front of what is there. -/
def Occurs (name s : Text) : Prop := '$' :: name <:+: s ∨ braced name <:+: s

/-- No reference of a text is to a declared name, and no word behind a dollar begins with one. -/
def Untouched (d s : Text) : Prop :=
  ∀ ahead behind name rest, s = ahead ++ '$' :: behind → reference? behind = some (name, rest) →
    declaredValue d name = none ∧
      (behind.head? ≠ some '\x7b' →
        ∀ other value, declaredValue d other = some value → ¬ other <+: name)

theorem isName_of_declaredValue (h : declaredValue d name = some value) : IsName name :=
  isName_of_mem_declaredVariables (mem_declaredVariables_iff.mpr h)

/-- Behind a dollar with a name there is a reference, to a word that begins with the name. -/
theorem exists_reference?_of_isName (hname : IsName name) (s : Text) :
    ∃ run rest, reference? (name ++ s) = some (run, rest) ∧ name <+: run := by
  have hrun : IsName (name ++ s.takeWhile Text.isWord) := by
    refine ⟨by simp [hname.nonempty], ?_⟩
    intro c hc
    rcases List.mem_append.mp hc with hc | hc
    · exact hname.word c hc
    · exact List.mem_takeWhile_imp hc
  refine ⟨name ++ s.takeWhile Text.isWord, s.dropWhile Text.isWord,
    reference?_eq_some_iff.mpr ⟨hrun, Or.inr ⟨?_, ?_⟩⟩, List.prefix_append _ _⟩
  · rw [List.append_assoc, List.takeWhile_append_dropWhile]
  · have hhead := List.head?_dropWhile_not Text.isWord s
    cases hrest : (s.dropWhile Text.isWord).head? with
    | none => rfl
    | some c => simpa [hrest] using hhead

/-- A text is untouched if no declared name stands behind a dollar in it. -/
theorem untouched_iff : Untouched d s ↔
    ∀ name value, declaredValue d name = some value → ¬ Occurs name s := by
  constructor
  · intro h name value hvalue hoccurs
    have hname := isName_of_declaredValue hvalue
    rcases hoccurs with hoccurs | hoccurs
    · -- the name begins the word behind that dollar
      obtain ⟨ahead, rest, hs⟩ := hoccurs
      obtain ⟨run, behind, hreference, hfront⟩ := exists_reference?_of_isName hname rest
      have hopen : (name ++ rest).head? ≠ some '\x7b' := hname.head?_ne (by decide)
      exact (h ahead (name ++ rest) run behind (by rw [← hs]; simp) hreference).2 hopen name value
        hvalue hfront
    · obtain ⟨ahead, rest, hs⟩ := hoccurs
      have hreference : reference? ('\x7b' :: (name ++ '\x7d' :: rest)) = some (name, rest) :=
        reference?_eq_some_iff.mpr ⟨hname, Or.inl rfl⟩
      have hnone := (h ahead _ name rest (by rw [← hs, braced]; simp) hreference).1
      rw [hvalue] at hnone
      cases hnone
  · intro h ahead behind name rest hs hreference
    obtain ⟨hname, hbehind⟩ := reference?_eq_some_iff.mp hreference
    constructor
    · by_contra hdeclared
      obtain ⟨value, hvalue⟩ := Option.ne_none_iff_exists'.mp hdeclared
      refine h name value hvalue ?_
      rcases hbehind with hbehind | ⟨hbehind, -⟩
      · exact Or.inr ⟨ahead, rest, by rw [hs, hbehind, braced]; simp⟩
      · exact Or.inl ⟨ahead, rest, by rw [hs, hbehind]; simp⟩
    · intro hopen other value hvalue hfront
      rcases hbehind with hbehind | ⟨hbehind, -⟩
      · exact hopen (by rw [hbehind]; rfl)
      · obtain ⟨u, rfl⟩ := hfront
        exact h other value hvalue (Or.inl ⟨ahead, u ++ rest, by rw [hs, hbehind]; simp⟩)

/-- A text in which no name of a list stands behind a dollar is left as it is. -/
theorem interpolate_of_not_occurs (h : ∀ b ∈ bindings, ¬ Occurs b.1 s) :
    interpolate s bindings = s := by
  rw [interpolate_eq_foldl]
  induction bindings with
  | nil => rfl
  | cons binding bindings ih =>
    have hnot := not_or.mp (h binding List.mem_cons_self)
    rw [List.foldl_cons, substitute_of_not_infix hnot.2 hnot.1,
      ih fun b hb => h b (List.mem_cons_of_mem _ hb)]

/-- Without dollars in the values, substitutions bring in none. -/
theorem count_substitute_le (hvalue : '$' ∉ binding.2) :
    (substitute s binding).count '$' ≤ s.count '$' :=
  (Text.count_replaceAll_le (by simp) hvalue).trans
    (Text.count_replaceAll_le (by simp) hvalue)

/-- A name that occurs takes its dollar with it. -/
theorem count_substitute_lt (hvalue : '$' ∉ binding.2) (h : Occurs binding.1 s) :
    (substitute s binding).count '$' < s.count '$' := by
  rw [substitute_eq]
  by_cases hbraced : braced binding.1 <:+: s
  · exact (Text.count_replaceAll_le (by simp) hvalue).trans_lt
      (Text.count_replaceAll_lt (by simp [braced]) hvalue hbraced)
  · rw [Text.replaceAll_of_not_infix hbraced]
    exact Text.count_replaceAll_lt (by simp) hvalue (h.resolve_right hbraced)

theorem count_foldl_substitute_le (hvalues : ∀ b ∈ bindings, '$' ∉ b.2) :
    (bindings.foldl substitute s).count '$' ≤ s.count '$' := by
  induction bindings generalizing s with
  | nil => exact Nat.le_refl _
  | cons binding bindings ih =>
    exact (ih fun b hb => hvalues b (List.mem_cons_of_mem _ hb)).trans
      (count_substitute_le (hvalues binding List.mem_cons_self))

theorem not_occurs_of_interpolate_eq (hvalues : ∀ b ∈ bindings, '$' ∉ b.2)
    (h : interpolate s bindings = s) : ∀ b ∈ bindings, ¬ Occurs b.1 s := by
  rw [interpolate_eq_foldl] at h
  induction bindings with
  | nil => exact fun _ hb => absurd hb List.not_mem_nil
  | cons binding bindings ih =>
    have hvalue := hvalues binding List.mem_cons_self
    have hrest : ∀ b ∈ bindings, '$' ∉ b.2 := fun b hb => hvalues b (List.mem_cons_of_mem _ hb)
    have hnot : ¬ Occurs binding.1 s := by
      intro hoccurs
      have hlt := count_substitute_lt hvalue hoccurs
      have hle := count_foldl_substitute_le (s := substitute s binding) hrest
      rw [List.foldl_cons] at h
      rw [h] at hle
      omega
    have hsame := substitute_of_not_infix (not_or.mp hnot).2 (not_or.mp hnot).1
    rw [List.foldl_cons, hsame] at h
    intro b hb
    rcases List.mem_cons.mp hb with rfl | hb
    · exact hnot
    · exact ih hrest h b hb

/-- **What happens to undeclared references.** A text in which no reference is to a declared name is
left alone, unless a declared name begins a word behind a dollar. Then the longest such name is
replaced and the rest of the word stays, whether or not the word is declared. -/
theorem undeclared_references (d : Text) :
    (∀ s, Untouched d s → interpolate s (declaredVariables d) = s) ∧
    ((∀ b ∈ declaredVariables d, '$' ∉ b.2) →
      (∀ s, interpolate s (declaredVariables d) = s → Untouched d s) ∧
      ∀ ahead name value u rest, declaredValue d name = some value → '$' ∉ ahead →
        (∀ c ∈ u, Text.isWord c = true) → Parted rest →
        (∀ q w, declaredValue d q = some w → q <+: name ++ u → q <+: name) →
        interpolate (ahead ++ '$' :: (name ++ u ++ rest)) (declaredVariables d) =
          ahead ++ (value ++ u ++ interpolate rest (declaredVariables d))) := by
  refine ⟨?_, fun hvalues => ⟨?_, ?_⟩⟩
  · intro s hs
    refine interpolate_of_not_occurs fun b hb => ?_
    exact untouched_iff.mp hs b.1 b.2 (mem_declaredVariables_iff.mp hb)
  · intro s hsame
    refine untouched_iff.mpr fun name value hvalue => ?_
    exact not_occurs_of_interpolate_eq hvalues hsame _ (mem_declaredVariables_iff.mpr hvalue)
  · intro ahead name value u rest hvalue hahead hu hrest hlongest
    rw [interpolate_append hahead,
      interpolate_bare hvalue (hvalues _ (mem_declaredVariables_iff.mpr hvalue)) hu hrest hlongest]

namespace Sample

def oneName : Text := "val version = \"3.0\"\n".toList

end Sample

/-- The front of a name that is not declared. -/
theorem undeclared_references_sample :
    declaredValue Sample.oneName "versionLatest".toList = none ∧
      interpolate "[$versionLatest,)".toList (declaredVariables Sample.oneName) =
        "[3.0Latest,)".toList := by
  have hread : ∀ b ∈ (Text.hits variableDeclaration Sample.oneName).map Hit.value,
      b.1 = "version".toList ∧ '$' ∉ b.2 := by decide +kernel
  have hvalues : ∀ b ∈ declaredVariables Sample.oneName, '$' ∉ b.2 :=
    fun b hb => (hread b (mem_hits_of_mem_declaredVariables hb)).2
  have hlongest : ∀ q w, declaredValue Sample.oneName q = some w →
      q <+: "version".toList ++ "Latest".toList → q <+: "version".toList := by
    intro q w hq _
    have hname : q = "version".toList :=
      (hread _ (mem_hits_of_mem_declaredVariables (mem_declaredVariables_iff.mpr hq))).1
    exact hname ▸ List.prefix_refl _
  have hparted : Parted ",)".toList := by
    intro c hc
    obtain rfl : ',' = c := Option.some.inj hc
    decide +kernel
  have hword : "Latest".toList.all Text.isWord = true := by decide +kernel
  have hreplaced := ((undeclared_references Sample.oneName).2 hvalues).2 "[".toList
    "version".toList "3.0".toList "Latest".toList ",)".toList (by decide +kernel)
    (by decide +kernel) (List.all_eq_true.mp hword) hparted hlongest
  have hend : interpolate ",)".toList (declaredVariables Sample.oneName) = ",)".toList :=
    interpolate_of_not_mem (by decide +kernel)
  have htext : "[".toList ++ '$' :: ("version".toList ++ "Latest".toList ++ ",)".toList) =
      "[$versionLatest,)".toList := by decide +kernel
  rw [hend, htext] at hreplaced
  exact ⟨by decide +kernel, hreplaced.trans (by decide +kernel)⟩

end Descriptor

end ModuleDocs

import ModuleDocs.Descriptor.Variable
import ModuleDocs.Proofs.Text.Keyed
import ModuleDocs.Proofs.Text.Located
import ModuleDocs.Proofs.Text.Replace

/-!
# What interpolation keeps apart

Variables are substituted one after the other in a text that is put together already: coordinate,
brackets, comma and all. A reference is a `$` with a name, perhaps in braces, and a name has only
word characters. So a character that is neither can take no part in a reference, and the texts on
its two sides are interpolated each for itself:

> `interpolate_append_cons`: `interpolate (a ++ x :: b)` is `interpolate a ++ x :: interpolate b`.

It is the values that can bring in what a text had not (`mem_of_mem_interpolate`).
-/

namespace ModuleDocs

namespace Descriptor

variable {s a b u : Text} {x : Char} {binding : Text × Text} {bindings : List (Text × Text)}

/-! ## References -/

/-- A character that is in no reference to a variable. -/
def OutsideReferences (x : Char) : Prop := Text.isWord x = false ∧ x ∉ "$\x7b\x7d".toList

instance : Decidable (OutsideReferences x) := inferInstanceAs (Decidable (_ ∧ _))

theorem substitute_append_cons (hx : OutsideReferences x) (hname : x ∉ binding.1) :
    substitute (a ++ x :: b) binding = substitute a binding ++ x :: substitute b binding := by
  obtain ⟨hdollar, hopen, hclose⟩ : x ≠ '$' ∧ x ≠ '\x7b' ∧ x ≠ '\x7d' := by
    simpa using hx.2
  have hbraced : x ∉ '$' :: '\x7b' :: binding.1 ++ ['\x7d'] := by
    simp [hdollar, hopen, hclose, hname]
  have hplain : x ∉ '$' :: binding.1 := by simp [hdollar, hname]
  rw [substitute, Text.replaceAll_append_cons (by simp) hbraced,
    Text.replaceAll_append_cons (by simp) hplain]
  rfl

theorem mem_of_mem_substitute (h : x ∈ substitute s binding) : x ∈ s ∨ x ∈ binding.2 := by
  rcases Text.mem_of_mem_replaceAll (by simp) h with h | h
  · exact Text.mem_of_mem_replaceAll (by simp) h
  · exact Or.inr h

theorem substitute_of_not_infix (hbraced : ¬ '$' :: '\x7b' :: binding.1 ++ ['\x7d'] <:+: s)
    (hbare : ¬ '$' :: binding.1 <:+: s) : substitute s binding = s := by
  rw [substitute, Text.replaceAll_of_not_infix hbraced, Text.replaceAll_of_not_infix hbare]

theorem substitute_of_not_mem (h : '$' ∉ s) : substitute s binding = s :=
  substitute_of_not_infix (fun hbraced => h (hbraced.subset (by simp)))
    fun hbare => h (hbare.subset (by simp))

/-! ## All references -/

/-- Looking for a `$` first only saves the substitutions. -/
theorem interpolate_eq_foldl (s : Text) (bindings : List (Text × Text)) :
    interpolate s bindings = bindings.foldl substitute s := by
  unfold interpolate
  split
  next => rfl
  next h =>
    have hdollar : '$' ∉ s := by simpa using h
    induction bindings with
    | nil => rfl
    | cons binding bindings ih => rw [List.foldl_cons, substitute_of_not_mem hdollar, ← ih]

/-- What has no reference in it is left as it is. -/
theorem interpolate_of_not_mem (h : '$' ∉ u) : interpolate u bindings = u := by
  have hdollar : u.contains '$' = false := by simpa using h
  rw [interpolate, hdollar]
  rfl

/-- What is not in a text is brought in by a value. -/
theorem mem_of_mem_interpolate (h : x ∈ interpolate s bindings) :
    x ∈ s ∨ ∃ binding ∈ bindings, x ∈ binding.2 := by
  rw [interpolate_eq_foldl] at h
  induction bindings generalizing s with
  | nil => exact Or.inl h
  | cons binding bindings ih =>
    rcases ih h with hs | ⟨other, hmem, hx⟩
    · rcases mem_of_mem_substitute hs with hs | hvalue
      · exact Or.inl hs
      · exact Or.inr ⟨binding, List.mem_cons_self, hvalue⟩
    · exact Or.inr ⟨other, List.mem_cons_of_mem _ hmem, hx⟩

/-- The variables of a list have names that consist of word characters. -/
def Named (bindings : List (Text × Text)) : Prop :=
  ∀ binding ∈ bindings, ∀ c ∈ binding.1, Text.isWord c = true

/-- **A character outside references keeps its two sides apart.** -/
theorem interpolate_append_cons (hnamed : Named bindings) (hx : OutsideReferences x) :
    interpolate (a ++ x :: b) bindings = interpolate a bindings ++ x :: interpolate b bindings := by
  rw [interpolate_eq_foldl, interpolate_eq_foldl, interpolate_eq_foldl]
  induction bindings generalizing a b with
  | nil => rfl
  | cons binding bindings ih =>
    have hname : x ∉ binding.1 := by
      intro hmem
      have hword := hnamed binding List.mem_cons_self x hmem
      rw [hx.1] at hword
      cases hword
    rw [List.foldl_cons, substitute_append_cons hx hname,
      ih fun other hmem => hnamed other (List.mem_cons_of_mem _ hmem)]
    rfl

/-! ## Declared variables -/

/-- What can be a name: a word. -/
structure IsName (name : Text) : Prop where
  nonempty : name ≠ []
  word : ∀ c ∈ name, Text.isWord c = true

theorem word?_eq_some_iff : Text.word? s = some (a, b) ↔
    s = a ++ b ∧ IsName a ∧ b.head?.any Text.isWord = false := by
  rw [Text.word?, Text.run?_eq_some_iff]
  constructor
  · intro h
    obtain ⟨hs, hne, hword, hrest⟩ := h
    exact ⟨hs, ⟨hne, hword⟩, hrest⟩
  · intro h
    obtain ⟨hs, hname, hrest⟩ := h
    exact ⟨hs, hname.nonempty, hname.word, hrest⟩

/-- A variable is one that was read. -/
theorem mem_hits_of_mem_declaredVariables (h : binding ∈ declaredVariables s) :
    binding ∈ (Text.hits variableDeclaration s).map Hit.value :=
  TextMap.mem_of_get?_ofList (TextMap.mem_entries_iff.mp (List.mem_mergeSort.mp h))

theorem isName_of_mem_declaredVariables (h : binding ∈ declaredVariables s) :
    IsName binding.1 := by
  obtain ⟨name, value⟩ := binding
  obtain ⟨h, hhit, hvalue⟩ := List.mem_map.mp (mem_hits_of_mem_declaredVariables h)
  obtain ⟨before, t, hread⟩ := Text.exists_read_of_mem_hits hhit
  rw [hvalue] at hread
  simp only [variableDeclaration, bind, Option.bind_eq_some_iff, pure, Option.some.injEq,
    Prod.mk.injEq] at hread
  obtain ⟨-, -, u, -, ⟨word, rest⟩, hword, -, -, -, -, -, -, ⟨hname, -⟩, -⟩ := hread
  subst hname
  exact (word?_eq_some_iff.mp hword).2.1

/-- The name of a variable is a word. -/
theorem named_declaredVariables (s : Text) : Named (declaredVariables s) :=
  fun _ hmem => (isName_of_mem_declaredVariables hmem).word

end Descriptor

end ModuleDocs

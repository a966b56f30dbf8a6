import ModuleDocs.Proofs.Descriptor.Block

/-!
# Printed descriptors of agent modules

A descriptor is printed from a list of passes, one call on a line, and perhaps a platform
version (`printed`):

    muzzle {
      pass {
        group.set("org.example")
        module.set("client")
        versions.set("[1.0,)")
      }
      pass {
        coreJdk()
      }
    }
    otelJava {
      minJavaVersionSupported.set(JavaVersion.VERSION_11)
    }

Everything that is looked for in it is a word in front of a brace or a parenthesis. The
strings of the passes may hold closing braces, the openings of comments and the words of the
descriptor itself, but no opening brace and no opening parenthesis. So the text is read from
one such delimiter to the next: no word ends in another one (`Head.not_suffix`), and where
another word stands the search goes on behind it (`passesOver_opening`). The lexer goes
through the strings as literals (`balanced_body`).
-/

namespace ModuleDocs

namespace Descriptor

open Text (ending? PassesOver IsHead OpensWith)

/-! ## The words of a descriptor -/

/-- A word in front of a delimiter that a printed descriptor has or that is looked for. -/
inductive Head where
  | muzzle
  | pass
  | otelJava
  | testing
  | conditional
  | group
  | module
  | versions
  | core
  | platform
  deriving DecidableEq

namespace Head

def word : Head → Text
  | muzzle => "muzzle".toList
  | pass => "pass".toList
  | otelJava => "otelJava".toList
  | testing => "testing".toList
  | conditional => "if".toList
  | group => "group.set".toList
  | module => "module.set".toList
  | versions => "versions.set".toList
  | core => "coreJdk".toList
  | platform => "minJavaVersionSupported.set".toList

def delimiter : Head → Char
  | muzzle | pass | otelJava | testing => '{'
  | _ => '('

/-- What stands between the word and its delimiter. -/
def gap : Head → Text
  | muzzle | pass | otelJava | testing => [' ']
  | _ => []

/-- The word as it is printed. -/
def opening (h : Head) : Text := h.word ++ h.gap ++ [h.delimiter]

theorem isHead (h : Head) : IsHead h.word h.delimiter := by cases h <;> decide

theorem isSpace_gap (h : Head) : ∀ x ∈ h.gap, Text.isSpace x = true :=
  List.all_eq_true.mp (by cases h <;> decide)

/-- No word ends in another one that has the same delimiter. -/
theorem not_suffix {a b : Head} (hne : a ≠ b) (h : a.delimiter = b.delimiter) :
    ¬ a.word <:+ b.word := by
  revert hne h
  cases a <;> cases b <;> decide

theorem delimiter_eq (h : Head) : h.delimiter = '{' ∨ h.delimiter = '(' := by cases h <;> decide

/-- No delimiter stands ahead of another one. -/
theorem delimiter_not_mem (a b : Head) : a.delimiter ∉ b.word ++ b.gap := by
  cases a <;> cases b <;> decide

/-- The words are free of what ends blocks and calls. -/
theorem closing_not_mem (h : Head) : '}' ∉ h.word ∧ ')' ∉ h.word := by cases h <;> decide

end Head

/-! ## Printing -/

/-- The content of a literal in a pass: it ends nothing and begins no block, call or
reference. -/
structure Literal where
  text : Text
  nonempty : text ≠ [] := by decide
  quote : '"' ∉ text := by decide
  escape : '\\' ∉ text := by decide
  brace : '{' ∉ text := by decide
  parenthesis : '(' ∉ text := by decide
  reference : '$' ∉ text := by decide

/-- A pass: the core platform, or a library with a range of versions. -/
inductive Pass where
  | core
  | library (group module range : Literal)

def Literal.quoted (l : Literal) : Text := '"' :: (l.text ++ ['"'])

/-- The break in front of a line, with the white space ahead of it. -/
def lineBreak (indent : Nat) : Text := '\n' :: List.replicate indent ' '

def printCall (h : Head) (argument : Text) : Text := h.opening ++ (argument ++ [')'])

def printBlock (h : Head) (indent : Nat) (content : Text) : Text :=
  h.opening ++ (content ++ lineBreak indent ++ ['}'])

namespace Pass

/-- The calls in a pass with their arguments. -/
def calls : Pass → List (Head × Text)
  | core => [(.core, [])]
  | library g m v => [(.group, g.quoted), (.module, m.quoted), (.versions, v.quoted)]

def body (width : Nat) (p : Pass) : Text :=
  p.calls.flatMap fun c => lineBreak (2 * width) ++ printCall c.1 c.2

def printed (width : Nat) (p : Pass) : Text :=
  lineBreak width ++ printBlock .pass width (p.body width)

/-- The version that a pass stands for on a platform. -/
def version (platform : Nat) : Pass → Text
  | core => "Java ".toList ++ Text.ofNat platform ++ ['+']
  | library g m v => g.text ++ ':' :: m.text ++ ':' :: v.text

end Pass

/-- The passes of a descriptor. -/
def printPasses (width : Nat) (passes : List Pass) : Text :=
  printBlock .muzzle 0 (passes.flatMap (Pass.printed width))

/-- The call that sets a platform version. -/
def printPlatform (n : Nat) : Text :=
  printCall .platform ("JavaVersion.VERSION_".toList ++ Text.ofNat n)

/-- What follows the passes: the block of a platform version, if there is one. -/
def printRest (width : Nat) : Option UInt32 → Text
  | none => ['\n']
  | some n =>
    lineBreak 0 ++ printBlock .otelJava 0 (lineBreak width ++ printPlatform n.toNat) ++ ['\n']

/-- A descriptor with passes and perhaps a platform version, indented by some width. -/
def printed (width : Nat) (passes : List Pass) (platform : Option UInt32) : Text :=
  printPasses width passes ++ printRest width platform

variable {α : Type} {r : Recogniser α} {a b : Head} {u argument : Text} {before : Option Char}
  {width indent n : Nat} {p : Pass} {passes : List Pass} {platform : Option UInt32}

/-! ## Parts of what is printed -/

theorem head_of_mem_calls {c : Head × Text} (hc : c ∈ p.calls) :
    c.1 ∈ [Head.core, .group, .module, .versions] := by
  cases p with
  | core =>
    rw [List.mem_singleton.mp hc]
    decide
  | library g m v =>
    simp only [Pass.calls, List.mem_cons, List.not_mem_nil, or_false] at hc
    rcases hc with rfl | rfl | rfl <;> simp

theorem ne_of_mem_calls {c : Head × Text} (ha : a ∉ [Head.core, .group, .module, .versions])
    (hc : c ∈ p.calls) : a ≠ c.1 :=
  fun h => ha (h ▸ head_of_mem_calls hc)

/-- The argument of a call in a pass is a literal, if there is one. -/
theorem argument_of_mem_calls {c : Head × Text} (hc : c ∈ p.calls) :
    c.2 = [] ∨ ∃ l : Literal, c.2 = l.quoted := by
  cases p with
  | core =>
    rw [List.mem_singleton.mp hc]
    exact Or.inl rfl
  | library g m v =>
    simp only [Pass.calls, List.mem_cons, List.not_mem_nil, or_false] at hc
    rcases hc with rfl | rfl | rfl <;> exact Or.inr ⟨_, rfl⟩

theorem delimiter_not_mem_quoted (a : Head) (l : Literal) : a.delimiter ∉ l.quoted := by
  rcases a.delimiter_eq with h | h <;> rw [h]
  · simp [Literal.quoted, l.brace]
  · simp [Literal.quoted, l.parenthesis]

theorem delimiter_not_mem_argument {c : Head × Text} (hc : c ∈ p.calls) : a.delimiter ∉ c.2 := by
  rcases argument_of_mem_calls hc with h | ⟨l, h⟩ <;> rw [h]
  · exact List.not_mem_nil
  · exact delimiter_not_mem_quoted a l

theorem isDigit_of_mem_ofNat {x : Char} (hx : x ∈ Text.ofNat n) : x.isDigit = true :=
  Nat.isDigit_of_mem_toDigits (by decide) (by decide) hx

theorem ofNat_ne_nil (n : Nat) : Text.ofNat n ≠ [] := Nat.toDigits_ne_nil

theorem not_mem_ofNat {x : Char} (hx : x.isDigit = false) : x ∉ Text.ofNat n := fun hmem =>
  absurd (isDigit_of_mem_ofNat hmem) (by simp [hx])

theorem isSpace_lineBreak (indent : Nat) : ∀ x ∈ lineBreak indent, Text.isSpace x = true := by
  intro x hx
  rcases List.mem_cons.mp hx with rfl | hx
  · decide
  · rw [List.eq_of_mem_replicate hx]
    decide

/-- A line break ends in white space, behind which a word can begin. -/
theorem isWord_ending?_lineBreak : (ending? before (lineBreak indent)).any Text.isWord = false := by
  cases indent with
  | zero =>
    show Text.isWord '\n' = false
    decide
  | succ n =>
    rw [lineBreak, List.replicate_succ', ← List.cons_append, Text.ending?_append]
    show Text.isWord ' ' = false
    decide

section PassesOver

variable (hr : OpensWith r a.word a.delimiter)

include hr

/-- Another word is passed over with its delimiter. -/
theorem passesOver_opening (hne : a ≠ b) : PassesOver r b.opening := by
  by_cases h : a.delimiter = b.delimiter
  · rw [Head.opening, ← h]
    exact hr.passesOver_word (h ▸ b.isHead) (Head.not_suffix hne h) b.isSpace_gap
  · refine hr.passesOver_closed (a.delimiter_not_mem b) b.isHead.delimiter (fun hmem => ?_)
      (Ne.symm h)
    exact b.delimiter_not_mem a (List.mem_append_left _ hmem)

/-- An argument without opening delimiters is passed over. -/
theorem passesOver_argument (h : a.delimiter ∉ argument) : PassesOver r (argument ++ [')']) :=
  hr.passesOver_closed h (by decide) a.closing_not_mem.2 (by cases a <;> decide)

theorem passesOver_lineBreak : PassesOver r (lineBreak indent) :=
  hr.passesOver_spaces (isSpace_lineBreak indent)

theorem passesOver_call (hne : a ≠ b) (h : a.delimiter ∉ argument) :
    PassesOver r (printCall b argument) :=
  (passesOver_opening hr hne).append (passesOver_argument hr h)

/-- What ends a block is passed over. -/
theorem passesOver_ending : PassesOver r (lineBreak indent ++ ['}']) :=
  (passesOver_lineBreak hr).append (hr.passesOver_closed (u := []) List.not_mem_nil (by decide)
    a.closing_not_mem.1 (by cases a <;> decide))

theorem passesOver_block (hne : a ≠ b) (hu : PassesOver r u) :
    PassesOver r (printBlock b indent u) := by
  rw [printBlock, List.append_assoc u]
  exact (passesOver_opening hr hne).append (hu.append (passesOver_ending hr))

/-- A line with a literal is passed over by what looks for another word. -/
theorem passesOver_literal (hne : a ≠ b) (l : Literal) :
    PassesOver r (lineBreak indent ++ printCall b l.quoted) :=
  (passesOver_lineBreak hr).append (passesOver_call hr hne (delimiter_not_mem_quoted a l))

/-- The calls of a pass are passed over by what looks for other words. -/
theorem passesOver_body (hne : ∀ c ∈ p.calls, a ≠ c.1) : PassesOver r (p.body width) :=
  PassesOver.flatMap fun c hc => (passesOver_lineBreak hr).append
    (passesOver_call hr (hne c hc) (delimiter_not_mem_argument hc))

theorem passesOver_passes (hne : a ≠ .pass) (hcalls : ∀ p ∈ passes, ∀ c ∈ p.calls, a ≠ c.1) :
    PassesOver r (passes.flatMap (Pass.printed width)) :=
  PassesOver.flatMap fun p hp => (passesOver_lineBreak hr).append
    (passesOver_block hr hne (passesOver_body hr (hcalls p hp)))

theorem passesOver_printPasses (hmuzzle : a ≠ .muzzle) (hpass : a ≠ .pass)
    (hcalls : ∀ p ∈ passes, ∀ c ∈ p.calls, a ≠ c.1) : PassesOver r (printPasses width passes) :=
  passesOver_block hr hmuzzle (passesOver_passes hr hpass hcalls)

theorem passesOver_platform (hne : a ≠ .platform) : PassesOver r (printPlatform n) := by
  have hlead : a.delimiter ∉ "JavaVersion.VERSION_".toList := by cases a <;> decide
  have hnumeral : a.delimiter ∉ Text.ofNat n := not_mem_ofNat (by cases a <;> decide)
  exact passesOver_call hr hne fun hmem => (List.mem_append.mp hmem).elim hlead hnumeral

theorem passesOver_printRest (hblock : a ≠ .otelJava) (hcall : a ≠ .platform) :
    PassesOver r (printRest width platform) := by
  have hend : PassesOver r (lineBreak 0) := passesOver_lineBreak hr
  cases platform with
  | none => exact hend
  | some n =>
    exact ((passesOver_lineBreak hr).append (passesOver_block hr hblock
      ((passesOver_lineBreak hr).append (passesOver_platform hr hcall)))).append hend

end PassesOver

/-! ## Balance -/

theorem balanced_word (h : Head) : Balanced '{' '}' (h.word ++ h.gap) :=
  balanced_plain (by cases h <;> decide)

theorem balanced_lineBreak : Balanced '{' '}' (lineBreak indent) := by
  have hspaces (x : Char) (hx : Text.isSpace x = false) : x ∉ lineBreak indent := fun hmem =>
    absurd (isSpace_lineBreak indent x hmem) (by simp [hx])
  exact balanced_plain ⟨hspaces _ (by decide), hspaces _ (by decide), hspaces _ (by decide),
    hspaces _ (by decide)⟩

theorem balanced_call (h : b.delimiter = '(') (hw : Balanced '{' '}' argument) :
    Balanced '{' '}' (printCall b argument) := by
  rw [printCall, Head.opening, h]
  exact ((balanced_word b).append (balanced_plain (by decide))).append
    (hw.append (balanced_plain (by decide)))

theorem balanced_block (h : b.delimiter = '{') (hu : Balanced '{' '}' u) :
    Balanced '{' '}' (printBlock b indent u) := by
  rw [printBlock, Head.opening, h, List.append_assoc _ ['{']]
  exact (balanced_word b).append (hu.append balanced_lineBreak).enclosed

theorem balanced_body : Balanced '{' '}' (p.body width) := by
  refine Balanced.flatMap fun c hc => balanced_lineBreak.append ?_
  have hcalls : ∀ h ∈ [Head.core, .group, .module, .versions], h.delimiter = '(' := by decide
  refine balanced_call (hcalls _ (head_of_mem_calls hc)) ?_
  rcases argument_of_mem_calls hc with h | ⟨l, h⟩ <;> rw [h]
  · exact balanced_nil
  · exact balanced_literal ⟨l.quote, l.escape⟩

theorem balanced_passes : Balanced '{' '}' (passes.flatMap (Pass.printed width)) :=
  Balanced.flatMap fun _ _ => balanced_lineBreak.append (balanced_block rfl balanced_body)

theorem balanced_platform :
    Balanced '{' '}' (lineBreak width ++ printPlatform n) := by
  have hnumeral : Balanced '{' '}' (Text.ofNat n) := balanced_plain
    ⟨not_mem_ofNat rfl, not_mem_ofNat rfl, not_mem_ofNat rfl, not_mem_ofNat rfl⟩
  exact balanced_lineBreak.append (balanced_call rfl ((balanced_plain (by decide)).append hnumeral))

end Descriptor

end ModuleDocs

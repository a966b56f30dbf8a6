import ModuleDocs.Descriptor.Resolve
import ModuleDocs.Proofs.Descriptor.Interpolation
import ModuleDocs.Proofs.Descriptor.Printed

/-!
# Printed passes are read back

What `resolve` reads in a printed descriptor is what it was printed from
(`resolve_printed`). The blocks come first: the one of the passes, the passes in it, and the
one of the platform version (`bodies_muzzle`, `bodies_pass`, `bodies_otelJava`). In a pass
each call is the first of its word, behind calls of other words (`firstHit?_call`).
-/

namespace ModuleDocs

namespace Descriptor

open Text (ending? PassesOver OpensWith passesOver_nil)

variable {α : Type} {r : Recogniser α} {a b : Head} {u w : Text} {before : Option Char}
  {width indent n : Nat} {p : Pass} {passes : List Pass} {platform : Option UInt32}

/-! ## Blocks -/

theorem opensWith_head (h : Head) : OpensWith (opener h.word h.delimiter) h.word h.delimiter :=
  opensWith_opener h.isHead

/-- A printed block is the first one of its word, and no other one begins in it if it passes
over the content. -/
theorem bodiesFrom_printBlock (hdelimiter : b.delimiter = '{')
    (hbefore : before.any Text.isWord = false) (hu : Balanced '{' '}' u)
    (hover : PassesOver (opener b.word b.delimiter) u) :
    bodiesFrom b.word before (printBlock b indent u ++ w) =
      (u ++ lineBreak indent) :: bodiesFrom b.word (some '}') w := by
  have hcontent : Balanced '{' '}' (u ++ lineBreak indent) := hu.append balanced_lineBreak
  have hblock := bodiesFrom_block (w := w) (hdelimiter ▸ b.isHead) hbefore b.isSpace_gap hcontent
  have hrest : PassesOver (opener b.word '{') (u ++ (lineBreak indent ++ ['}'])) :=
    hdelimiter ▸ hover.append (passesOver_ending (opensWith_head b))
  have hsplit : u ++ lineBreak indent ++ '}' :: w = u ++ (lineBreak indent ++ ['}']) ++ w := by simp
  rw [hsplit, bodiesFrom_append hrest] at hblock
  rw [printBlock, Head.opening, hdelimiter]
  simpa using hblock

/-- A descriptor has one block of passes. -/
theorem bodies_muzzle : bodiesFrom "muzzle".toList none (printed width passes platform) =
    [passes.flatMap (Pass.printed width) ++ lineBreak 0] := by
  have hr := opensWith_head .muzzle
  have hover : PassesOver (opener "muzzle".toList '{') (passes.flatMap (Pass.printed width)) :=
    passesOver_passes hr (by decide) fun p _ c hc => ne_of_mem_calls (by decide) hc
  have hrest : PassesOver (opener "muzzle".toList '{') (printRest width platform) :=
    passesOver_printRest hr (by decide) (by decide)
  rw [printed, printPasses]
  refine (bodiesFrom_printBlock (b := .muzzle) rfl rfl balanced_passes hover).trans ?_
  rw [bodiesFrom_eq_nil]
  exact hrest

/-- The passes are the blocks in it. -/
theorem bodies_pass : bodiesFrom "pass".toList before
    (passes.flatMap (Pass.printed width) ++ lineBreak 0) =
      passes.map fun p => p.body width ++ lineBreak width := by
  have hr := opensWith_head .pass
  induction passes generalizing before with
  | nil => exact bodiesFrom_eq_nil (passesOver_lineBreak hr)
  | cons p ps ih =>
    have hover : PassesOver (opener "pass".toList '{') (p.body width) :=
      passesOver_body hr fun c hc => ne_of_mem_calls (by decide) hc
    have hbreak : PassesOver (opener "pass".toList '{') (lineBreak width) := passesOver_lineBreak hr
    rw [List.flatMap_cons, Pass.printed, List.append_assoc, List.append_assoc,
      bodiesFrom_append hbreak]
    refine (bodiesFrom_printBlock (b := .pass) rfl isWord_ending?_lineBreak balanced_body
      hover).trans ?_
    rw [List.map_cons]
    exact congrArg _ ih

theorem bodies_otelJava : bodiesFrom "otelJava".toList none (printed width passes platform) =
    (platform.map fun n => lineBreak width ++ printPlatform n.toNat ++ lineBreak 0).toList := by
  have hr := opensWith_head .otelJava
  have hover : PassesOver (opener "otelJava".toList '{') (printPasses width passes) :=
    passesOver_printPasses hr (by decide) (by decide) fun p _ c hc => ne_of_mem_calls (by decide) hc
  have hbreak : PassesOver (opener "otelJava".toList '{') (lineBreak 0) := passesOver_lineBreak hr
  rw [printed, bodiesFrom_append hover]
  cases platform with
  | none => exact bodiesFrom_eq_nil hbreak
  | some n =>
    have hcontent : PassesOver (opener "otelJava".toList '{')
        (lineBreak width ++ printPlatform n.toNat) :=
      (passesOver_lineBreak hr).append (passesOver_platform hr (by decide))
    rw [printRest, List.append_assoc, bodiesFrom_append hbreak]
    refine (bodiesFrom_printBlock (b := .otelJava) rfl isWord_ending?_lineBreak balanced_platform
      hcontent).trans ?_
    rw [bodiesFrom_eq_nil]
    · rfl
    · exact hbreak

theorem passesOver_printed (hr : OpensWith r a.word a.delimiter)
    (ha : a = .testing ∨ a = .conditional) : PassesOver r (printed width passes platform) := by
  have hcalls : ∀ p ∈ passes, ∀ c ∈ p.calls, a ≠ c.1 := fun p _ c hc =>
    ne_of_mem_calls (by rcases ha with rfl | rfl <;> decide) hc
  rcases ha with rfl | rfl <;>
    exact (passesOver_printPasses hr (by decide) (by decide) hcalls).append
      (passesOver_printRest hr (by decide) (by decide))

/-- Nothing of a printed descriptor is excluded. -/
theorem exclusions_printed : Exclusions.ofText (printed width passes platform) = [] := by
  have hconditional : PassesOver (opener "if".toList '(') (printed width passes platform) :=
    passesOver_printed (opensWith_head .conditional) (Or.inr rfl)
  have htesting : PassesOver (opener "testing".toList '{') (printed width passes platform) :=
    passesOver_printed (opensWith_head .testing) (Or.inl rfl)
  have hhits : Text.hits (opener "if".toList '(') (printed width passes platform) = [] :=
    Text.hits_eq_nil_of_readings hconditional.readings_eq_nil
  have hblocks : blocks "testing".toList (printed width passes platform) = [] := by
    rw [← List.map_eq_nil_iff (f := Block.body), map_body_blocks]
    exact bodiesFrom_eq_nil htesting
  rw [Exclusions.ofText, hhits, hblocks]
  rfl

/-! ## Calls -/

/-- The call that makes a pass one of the core platform. -/
def coreCall : Recogniser Unit := fun before s =>
  (Text.keyword? "coreJdk()".toList before s).map fun rest => ((), rest)

theorem opensWith_coreCall : OpensWith coreCall Head.core.word Head.core.delimiter where
  toIsHead := Head.core.isHead
  reads := by
    intro before s h
    obtain ⟨q, hq⟩ := Option.isSome_iff_exists.mp h
    obtain ⟨rest, hrest, -⟩ := Option.map_eq_some_iff.mp hq
    refine ⟨[], ')' :: rest, by simp, ?_⟩
    rw [(Text.keyword?_eq_some_iff.mp hrest).2]
    rfl

theorem opensWith_call (h : b.delimiter = '(') : OpensWith (call b.word) b.word b.delimiter where
  toIsHead := b.isHead
  reads := by
    intro before s hs
    obtain ⟨q, hq⟩ := Option.isSome_iff_exists.mp hs
    simp only [call, bind, Option.bind_eq_some_iff] at hq
    obtain ⟨s', hword, rest, hrest, -⟩ := hq
    refine ⟨[], '"' :: rest, by simp, ?_⟩
    rw [(Text.keyword?_eq_some_iff.mp hword).2, Text.after?_eq_some.mp hrest, h]
    simp

/-- A call with a literal is read. -/
theorem call_printCall (h : b.delimiter = '(') (hbefore : before.any Text.isWord = false)
    (l : Literal) : call b.word before (printCall b l.quoted ++ w) = some (l.text, w) := by
  have hopening : b.opening = b.word ++ ['('] := by
    revert h
    cases b <;> decide
  have hword : Text.keyword? b.word before (printCall b l.quoted ++ w) =
      some ('(' :: (l.quoted ++ ')' :: w)) := by
    refine Text.keyword?_eq_some_iff.mpr ⟨hbefore, ?_⟩
    simp [printCall, hopening]
  have hlead : Text.after? "(\"".toList ('(' :: (l.quoted ++ ')' :: w)) =
      some (l.text ++ '"' :: ')' :: w) := by
    refine Text.after?_eq_some.mpr ?_
    simp [Literal.quoted]
  have hcontent : Text.untilQuote? (l.text ++ '"' :: ')' :: w) = some (l.text, ')' :: w) := by
    have hquote (x : Char) (hx : x ∈ l.text) : (x != '"') = true := by
      rw [bne_iff_ne]
      rintro rfl
      exact l.quote hx
    rw [Text.untilQuote?, Text.run?_append l.nonempty hquote (by decide)]
    rfl
  have hclose : Text.after? [')'] (')' :: w) = some w := Text.after?_eq_some.mpr rfl
  simp only [call, hword, hlead, hcontent, hclose, bind, Option.bind, pure]

/-- The first call of a word with a literal. -/
theorem firstHit?_call (h : b.delimiter = '(') (hu : PassesOver (call b.word) u) (l : Literal) :
    Text.firstHit? (call b.word) (u ++ (lineBreak indent ++ (printCall b l.quoted ++ w))) =
      some l.text := by
  have hread : call b.word (ending? (ending? none u) (lineBreak indent))
      (printCall b l.quoted ++ w) = some (l.text, w) :=
    call_printCall h isWord_ending?_lineBreak l
  rw [Text.firstHit?_eq, hu, passesOver_lineBreak (opensWith_call h),
    Text.readings_of_some (by simp [printCall, Head.opening]) hread]
  rfl

/-! ## The version of a pass -/

theorem passVersion?_core {bindings : List (Text × Text)} {minJava : Option Nat}
    (h : Text.firstHit? coreCall u = some ()) :
    passVersion? bindings minJava u =
      some ("Java ".toList ++ Text.ofNat (minJava.getD 8) ++ ['+']) := by
  unfold coreCall at h
  simp only [passVersion?, h, defaultMinJavaVersion]

theorem passVersion?_library {bindings : List (Text × Text)} {minJava : Option Nat}
    {group module range : Text} (hcore : Text.firstHit? coreCall u = none)
    (hgroup : Text.firstHit? (call Head.group.word) u = some group)
    (hmodule : Text.firstHit? (call Head.module.word) u = some module)
    (hrange : Text.firstHit? (call Head.versions.word) u = some range) :
    passVersion? bindings minJava u =
      some (group ++ ':' :: module ++ ':' :: interpolate range bindings) := by
  unfold coreCall at hcore
  dsimp only [Head.word] at hgroup hmodule hrange
  simp only [passVersion?, hcore, hgroup, hmodule, hrange, bind, Option.bind, pure]

theorem body_core : Pass.core.body width = lineBreak (2 * width) ++ "coreJdk()".toList := by
  have hcall : printCall .core [] = "coreJdk()".toList := by decide
  rw [Pass.body, Pass.calls, List.flatMap_singleton, hcall]

theorem body_library (g m v : Literal) : (Pass.library g m v).body width =
    lineBreak (2 * width) ++ printCall .group g.quoted ++
      (lineBreak (2 * width) ++ printCall .module m.quoted) ++
        (lineBreak (2 * width) ++ printCall .versions v.quoted) := by
  simp [Pass.body, Pass.calls]

theorem firstHit?_coreCall :
    Text.firstHit? coreCall (Pass.core.body width ++ lineBreak width) = some () := by
  have hword : Text.keyword? "coreJdk()".toList (ending? none (lineBreak (2 * width)))
      ("coreJdk()".toList ++ lineBreak width) = some (lineBreak width) :=
    Text.keyword?_eq_some_iff.mpr ⟨isWord_ending?_lineBreak, rfl⟩
  have hread : coreCall (ending? none (lineBreak (2 * width)))
      ("coreJdk()".toList ++ lineBreak width) = some ((), lineBreak width) := by
    rw [coreCall, hword, Option.map_some]
  rw [body_core, List.append_assoc, Text.firstHit?_eq, passesOver_lineBreak opensWith_coreCall,
    Text.readings_of_some (by simp) hread]
  rfl

/-- A printed pass is read back. -/
theorem passVersion?_body (bindings : List (Text × Text)) (minJava : Option Nat) (p : Pass) :
    passVersion? bindings minJava (p.body width ++ lineBreak width) =
      some (p.version (minJava.getD 8)) := by
  cases p with
  | core => exact passVersion?_core firstHit?_coreCall
  | library g m v =>
    have hcore := opensWith_coreCall
    have hmodule : OpensWith (call Head.module.word) _ _ := opensWith_call rfl
    have hversions : OpensWith (call Head.versions.word) _ _ := opensWith_call rfl
    have hover : PassesOver coreCall ((Pass.library g m v).body width ++ lineBreak width) := by
      rw [body_library]
      exact (((passesOver_literal hcore (by decide) g).append
        (passesOver_literal hcore (by decide) m)).append
        (passesOver_literal hcore (by decide) v)).append (passesOver_lineBreak hcore)
    have hversion : (Pass.library g m v).version (minJava.getD 8) =
        g.text ++ ':' :: m.text ++ ':' :: interpolate v.text bindings := by
      rw [interpolate_of_not_mem v.reference]
      rfl
    rw [hversion]
    -- what looks for a call passes over the calls ahead of it
    refine passVersion?_library ?_ ?_ ?_ ?_
    · rw [Text.firstHit?_eq, hover.readings_eq_nil]
      rfl
    · simpa only [body_library, List.append_assoc, List.nil_append] using
        firstHit?_call (b := .group) rfl passesOver_nil g
    · simpa only [body_library, List.append_assoc] using
        firstHit?_call (b := .module) rfl (passesOver_literal hmodule (by decide) g) m
    · simpa only [body_library, List.append_assoc] using
        firstHit?_call (b := .versions) rfl ((passesOver_literal hversions (by decide) g).append
          (passesOver_literal hversions (by decide) m)) v

/-! ## The platform version -/

theorem isDecimal_of_isDigit {x : Char} (h : x.isDigit = true) : Text.isDecimal x = true := by
  have hbound : x.toNat < 0x80 := by
    simp only [Char.isDigit, Bool.and_eq_true, decide_eq_true_eq] at h
    exact Nat.lt_of_le_of_lt (UInt32.le_iff_toNat_le.mp h.2) (by decide)
  rw [Text.isDecimal_ascii hbound, h]

theorem smallNumber?_ofNat (h : n < 4294967296) : smallNumber? (Text.ofNat n) = some n := by
  have hdigits : Text.ofNat n ≠ [] ∧ (Text.ofNat n).all Char.isDigit = true :=
    ⟨ofNat_ne_nil n, List.all_eq_true.mpr fun x hx => isDigit_of_mem_ofNat hx⟩
  have hvalue : (Text.ofNat n).foldl (fun n c => 10 * n + (c.toNat - '0'.toNat)) 0 = n :=
    Nat.ofDigitChars_toDigits (by decide) (by decide)
  rw [smallNumber?, if_pos hdigits]
  dsimp only
  rw [hvalue, if_pos h]

theorem opensWith_minJavaDirective :
    OpensWith minJavaDirective Head.platform.word Head.platform.delimiter where
  toIsHead := Head.platform.isHead
  reads := by
    intro before s h
    obtain ⟨q, hq⟩ := Option.isSome_iff_exists.mp h
    simp only [minJavaDirective, bind, Option.bind_eq_some_iff] at hq
    obtain ⟨rest, hword, -⟩ := hq
    refine ⟨[], "JavaVersion.VERSION_".toList ++ rest, by simp, ?_⟩
    rw [(Text.keyword?_eq_some_iff.mp hword).2]
    rfl

theorem minJavaDirective_printPlatform (hbefore : before.any Text.isWord = false) (n : Nat) :
    minJavaDirective before (printPlatform n ++ w) = some (Text.ofNat n, w) := by
  have hword : Text.keyword? "minJavaVersionSupported.set(JavaVersion.VERSION_".toList before
      (printPlatform n ++ w) = some (Text.ofNat n ++ ')' :: w) := by
    have hopening : "minJavaVersionSupported.set(JavaVersion.VERSION_".toList =
        Head.platform.opening ++ "JavaVersion.VERSION_".toList := by decide
    refine Text.keyword?_eq_some_iff.mpr ⟨hbefore, ?_⟩
    rw [hopening, printPlatform, printCall]
    simp only [List.append_assoc, List.singleton_append]
  have hrun : Text.run? Text.isDecimal (Text.ofNat n ++ ')' :: w) =
      some (Text.ofNat n, ')' :: w) := by
    refine Text.run?_append (ofNat_ne_nil n) (fun x hx => ?_) (by decide)
    exact isDecimal_of_isDigit (isDigit_of_mem_ofNat hx)
  have hclose : Text.after? [')'] (')' :: w) = some w := Text.after?_eq_some.mpr rfl
  simp only [minJavaDirective, hword, hrun, hclose, bind, Option.bind, pure]

theorem firstHit?_minJavaDirective (n : Nat) :
    Text.firstHit? minJavaDirective (lineBreak width ++ printPlatform n ++ lineBreak indent) =
      some (Text.ofNat n) := by
  have hread : minJavaDirective (ending? none (lineBreak width))
      (printPlatform n ++ lineBreak indent) = some (Text.ofNat n, lineBreak indent) :=
    minJavaDirective_printPlatform isWord_ending?_lineBreak n
  rw [List.append_assoc, Text.firstHit?_eq, passesOver_lineBreak opensWith_minJavaDirective,
    Text.readings_of_some (by simp [printPlatform, printCall, Head.opening]) hread]
  rfl

theorem minJavaVersionOutside_nil (s : Text) : minJavaVersionOutside s [] =
    (bodiesFrom "otelJava".toList none s).findSome? fun u =>
      (Text.firstHit? minJavaDirective u).bind smallNumber? := by
  have hall : (blocks "otelJava".toList s).filter (fun b => !Exclusions.covers [] b.start) =
      blocks "otelJava".toList s := List.filter_eq_self.mpr fun _ _ => rfl
  rw [minJavaVersionOutside, hall, ← map_body_blocks, List.findSome?_map]
  rfl

theorem minJavaVersionOutside_printed :
    minJavaVersionOutside (printed width passes platform) [] = platform.map UInt32.toNat := by
  rw [minJavaVersionOutside_nil, bodies_otelJava]
  cases platform with
  | none => rfl
  | some n =>
    have hread : (Text.firstHit? minJavaDirective (lineBreak width ++ printPlatform n.toNat ++
        lineBreak 0)).bind smallNumber? = some n.toNat := by
      rw [firstHit?_minJavaDirective]
      exact smallNumber?_ofNat n.toNat_lt
    rw [Option.map_some, Option.toList_some, List.findSome?_cons, hread, Option.map_some]

/-! ## Round trip -/

theorem muzzleVersions_eq (s : Text) (bindings : List (Text × Text)) (minJava : Option Nat) :
    muzzleVersions s bindings minJava =
      TextSet.ofList ((bodiesFrom "muzzle".toList none s).flatMap fun u =>
        (bodiesFrom "pass".toList none u).filterMap (passVersion? bindings minJava)) := by
  simp only [muzzleVersions, ← map_body_blocks, List.flatMap_map, List.filterMap_map]
  rfl

theorem muzzleVersions_printed (bindings : List (Text × Text)) (minJava : Option Nat) :
    muzzleVersions (printed width passes platform) bindings minJava =
      TextSet.ofList (passes.map (Pass.version (minJava.getD 8))) := by
  have hpass : (passVersion? bindings minJava ∘ fun p : Pass => p.body width ++ lineBreak width) =
      some ∘ Pass.version (minJava.getD 8) :=
    funext fun p => passVersion?_body bindings minJava p
  rw [muzzleVersions_eq, bodies_muzzle, List.flatMap_singleton, bodies_pass, List.filterMap_map,
    hpass, List.filterMap_eq_map]

theorem resolve_printed_eq (width : Nat) (passes : List Pass) (platform : Option UInt32) :
    resolve (printed width passes platform) .agent =
      { versions := TextSet.ofList (passes.map
          (Pass.version ((platform.map UInt32.toNat).getD 8)))
        minJavaVersion := platform.map UInt32.toNat } := by
  simp only [resolve, exclusions_printed, minJavaVersionOutside_printed, muzzleVersions_printed]

/-- **Printed passes are read back.** The platform version is the one that is printed, and the
versions are those of the library passes and, if there is a core pass, that of the platform:
8 if there is none. So neither the order nor the repetition of passes matters. -/
theorem resolve_printed (width : Nat) (passes : List Pass) (platform : Option UInt32) :
    let info := resolve (printed width passes platform) .agent
    info.minJavaVersion = platform.map UInt32.toNat ∧
    (∀ s, s ∈ info.versions ↔
      (∃ group module range, Pass.library group module range ∈ passes ∧
        s = group.text ++ ':' :: module.text ++ ':' :: range.text) ∨
      Pass.core ∈ passes ∧
        s = "Java ".toList ++ Text.ofNat ((platform.map UInt32.toNat).getD 8) ++ ['+']) ∧
    ∀ width' passes', (∀ p, p ∈ passes' ↔ p ∈ passes) →
      resolve (printed width' passes' platform) .agent = info := by
  intro info
  have hinfo : info = _ := resolve_printed_eq width passes platform
  refine ⟨by rw [hinfo], fun s => ?_, fun width' passes' hsame => ?_⟩
  · rw [hinfo, TextSet.mem_ofList, List.mem_map]
    constructor
    · rintro ⟨p, hp, rfl⟩
      cases p with
      | core => exact Or.inr ⟨hp, rfl⟩
      | library g m v => exact Or.inl ⟨g, m, v, hp, rfl⟩
    · rintro (⟨g, m, v, hp, rfl⟩ | ⟨hp, rfl⟩)
      · exact ⟨_, hp, rfl⟩
      · exact ⟨_, hp, rfl⟩
  · have hversions : TextSet.ofList (passes'.map
        (Pass.version ((platform.map UInt32.toNat).getD 8))) = info.versions := by
      rw [hinfo]
      refine TextSet.ext fun s => ?_
      simp only [TextSet.mem_ofList, List.mem_map, hsame]
    rw [resolve_printed_eq, hversions, hinfo]

/-- Strings that read like code, in two orders and two layouts. -/
theorem resolve_printed_sample :
    let group : Literal := { text := "\x7d // pass".toList }
    let module : Literal := { text := "muzzle /* )".toList }
    let range : Literal := { text := "[1.0,)".toList }
    let info := resolve (printed 2 [.core, .library group module range] (some 11)) .agent
    info.minJavaVersion = some 11 ∧ "Java 11+".toList ∈ info.versions ∧
      "\x7d // pass:muzzle /* ):[1.0,)".toList ∈ info.versions ∧
      resolve (printed 4 [.library group module range, .core, .core] (some 11)) .agent = info := by
  intro group module range info
  obtain ⟨hplatform, hversions, hsame⟩ :=
    resolve_printed 2 [.core, .library group module range] (some 11)
  refine ⟨hplatform, (hversions _).mpr (Or.inr ⟨by simp, by decide⟩),
    (hversions _).mpr (Or.inl ⟨group, module, range, by simp, by decide⟩), ?_⟩
  refine hsame 4 _ fun p => ?_
  simp only [List.mem_cons, List.not_mem_nil, or_false, or_self]
  exact or_comm

end Descriptor

end ModuleDocs

import Mathlib.Data.List.Dedup
import ModuleDocs.Proofs.Descriptor.Interpolation
import ModuleDocs.Source.Property

/-!
# Printed getters are read back

A getter of the experimental settings is printed as

    public T method() { return config.accessor("key", default); }

or without the comma and the default. What is found in a source of such getters, with white
space behind each, is the getters: nothing in a key or a default is taken for another getter,
because a getter is read up to the parenthesis that closes its call (`configGetter_printedHead`)
and the search goes on behind it. So braces, commas and whole getters may stand in a key or
a default: a key ends at its quote, and a default, in which groups of parentheses are one
level deep (`Grouped`), at the first parenthesis that closes none of its groups
(`untilCallEnd?_eq_some_iff`).
-/

namespace ModuleDocs

namespace Source

open Descriptor (IsName word?_eq_some_iff)
open Text (PassesOver readings)

variable {before : Option Char} {s d inner rest : Text} {c : Char}

/-! ## Groups of parentheses -/

/-- A text whose parentheses make groups, none of which holds another one. -/
inductive Grouped : Text → Prop
  | nil : Grouped []
  | plain {c : Char} {s : Text} : c ≠ '(' → c ≠ ')' → Grouped s → Grouped (c :: s)
  | group {inner s : Text} : '(' ∉ inner → ')' ∉ inner → Grouped s →
      Grouped ('(' :: (inner ++ ')' :: s))

/-- An open group ends at the next parenthesis. -/
theorem untilCallEnd?_group (ho : '(' ∉ inner) (hc : ')' ∉ inner) :
    untilCallEnd? true (inner ++ ')' :: s) =
      (untilCallEnd? false s).map fun p => (inner ++ ')' :: p.1, p.2) := by
  induction inner with
  | nil => rw [List.nil_append, untilCallEnd?, if_neg (by decide), if_pos rfl, if_pos rfl]; rfl
  | cons c inner ih =>
    rw [List.mem_cons, not_or] at ho hc
    rw [List.cons_append, untilCallEnd?, if_neg (Ne.symm ho.1), if_neg (Ne.symm hc.1),
      ih ho.2 hc.2, Option.map_map]
    rfl

/-- The arguments of a call end where they are grouped. -/
theorem untilCallEnd?_grouped (h : Grouped d) :
    untilCallEnd? false (d ++ ')' :: rest) = some (d, rest) := by
  induction h with
  | nil => rfl
  | plain ho hc _ ih => rw [List.cons_append, untilCallEnd?, if_neg ho, if_neg hc, ih]; rfl
  | @group inner s ho hc _ ih =>
    rw [List.cons_append, List.append_assoc, List.cons_append, untilCallEnd?, if_pos rfl,
      untilCallEnd?_group ho hc, ih]
    rfl

/-- What is read is grouped; in a group, what is read behind the parenthesis that ends it. -/
theorem grouped_of_untilCallEnd? : ∀ {s : Text} {inGroup : Bool},
    untilCallEnd? inGroup s = some (d, rest) → s = d ++ ')' :: rest ∧
      if inGroup then ∃ inner d', d = inner ++ ')' :: d' ∧ '(' ∉ inner ∧ ')' ∉ inner ∧ Grouped d'
      else Grouped d := by
  intro s
  induction s generalizing d with
  | nil =>
    intro inGroup h
    cases h
  | cons c s ih =>
    intro inGroup h
    rw [untilCallEnd?] at h
    split at h
    · next ho =>
      -- a group opens
      cases inGroup with
      | true => cases h
      | false =>
        obtain ⟨p, hp, heq⟩ := Option.map_eq_some_iff.mp h
        cases heq
        obtain ⟨hs, inner, d', hd, hopen, hclose, hd'⟩ := ih hp
        rw [ho, hs]
        refine ⟨rfl, ?_⟩
        rw [hd]
        exact Grouped.group hopen hclose hd'
    · next ho =>
      split at h
      · next hc =>
        cases inGroup with
        | true =>
          obtain ⟨p, hp, heq⟩ := Option.map_eq_some_iff.mp h
          cases heq
          obtain ⟨hs, hd'⟩ := ih hp
          rw [hc, hs]
          exact ⟨rfl, [], p.1, rfl, List.not_mem_nil, List.not_mem_nil, hd'⟩
        | false =>
          cases h
          rw [hc]
          exact ⟨rfl, Grouped.nil⟩
      · next hc =>
        obtain ⟨p, hp, heq⟩ := Option.map_eq_some_iff.mp h
        cases heq
        obtain ⟨hs, hd⟩ := ih hp
        rw [hs]
        refine ⟨rfl, ?_⟩
        cases inGroup with
        | true =>
          obtain ⟨inner, d', hp, hopen, hclose, hd'⟩ := hd
          refine ⟨c :: inner, d', by rw [hp]; rfl, ?_, ?_, hd'⟩
          · rw [List.mem_cons, not_or]
            exact ⟨Ne.symm ho, hopen⟩
          · rw [List.mem_cons, not_or]
            exact ⟨Ne.symm hc, hclose⟩
        | false => exact Grouped.plain ho hc hd

/-- **The arguments of a call** are read exactly where they are grouped. -/
theorem untilCallEnd?_eq_some_iff :
    untilCallEnd? false s = some (d, rest) ↔ s = d ++ ')' :: rest ∧ Grouped d := by
  constructor
  · exact grouped_of_untilCallEnd?
  · rintro ⟨rfl, hd⟩
    exact untilCallEnd?_grouped hd

instance : DecidablePred Grouped := fun d =>
  decidable_of_iff (untilCallEnd? false (d ++ [')']) = some (d, []))
    (untilCallEnd?_eq_some_iff.trans (and_iff_right rfl))

/-! ## Printing -/

/-- A getter of the experimental settings. -/
structure Getter where
  returnType : Text
  method : Text
  accessor : Text
  key : Text
  default : Option Text
  deriving DecidableEq

namespace Getter

/-- The names are words, the key ends at its quote, and the default at the end of the call. -/
structure Printable (g : Getter) : Prop where
  returnType : IsName g.returnType
  method : IsName g.method
  accessor : IsName g.accessor
  key : g.key ≠ [] ∧ '"' ∉ g.key
  default : ∀ d ∈ g.default, d.trim = d ∧ Grouped d

/-- What stands behind the key: a comma and the default, or nothing. -/
def printedDefault (g : Getter) : Text := g.default.elim [] fun d => ", ".toList ++ d

/-- The call that reads the setting. -/
def printedCall (g : Getter) : Text :=
  "config.".toList ++ g.accessor ++ ['(', '"'] ++ g.key ++ ['"'] ++ g.printedDefault ++ [')']

/-- The getter up to the end of its call. -/
def printedHead (g : Getter) : Text :=
  "public".toList ++ [' '] ++ g.returnType ++ [' '] ++ g.method ++ ['(', ')', ' ', '{'] ++
    " return ".toList ++ g.printedCall

def printed (g : Getter) : Text := g.printedHead ++ "; \x7d".toList

example : printed ⟨"int".toList, "size".toList, "getInt".toList, "a.b".toList, some "3".toList⟩ =
    "public int size() \x7b return config.getInt(\"a.b\", 3); \x7d".toList := by
  decide

/-- The setting that a getter reads. Its type is the accessor without a leading `get`. -/
def property (g : Getter) : ConfigurationProperty where
  name := g.key
  type := if "get".toList <+: g.accessor then g.accessor.drop 3 else g.accessor
  default := g.default

end Getter

/-- Getters one behind the other, each with what stands behind it. -/
def source (gs : List (Getter × Text)) : Text := gs.flatMap fun p => p.1.printed ++ p.2

variable {g : Getter} {gs : List (Getter × Text)}

/-! ## Reading one getter -/

theorem word?_append (hs : IsName s) (hc : Text.isWord c = false) :
    Text.word? (s ++ c :: rest) = some (s, c :: rest) :=
  word?_eq_some_iff.mpr ⟨rfl, hs, by simp [hc]⟩

theorem after?_cons : Text.after? [c] (c :: rest) = some rest := Text.after?_eq_some.mpr rfl

theorem after?_eq_none {x : Char} {lead : Text} (hlead : lead.head? = some x) (hc : c ≠ x) :
    Text.after? lead (c :: s) = none := by
  rw [← Option.not_isSome_iff_eq_none, Text.after?_isSome_iff]
  rintro ⟨t, ht⟩
  have hhead : (lead ++ t).head? = some x := by rw [List.head?_append, hlead, Option.some_or]
  rw [ht] at hhead
  cases hhead
  exact hc rfl

theorem spaces?_name (hs : IsName s) : Text.spaces? (' ' :: (s ++ rest)) = some (s ++ rest) := by
  obtain ⟨c, t, rfl⟩ := List.exists_cons_of_ne_nil hs.nonempty
  have hc : Text.isSpace c = false := Text.isSpace_of_isWord (hs.word c List.mem_cons_self)
  have hrun : Text.run? Text.isSpace ([' '] ++ c :: (t ++ rest)) = some ([' '], c :: (t ++ rest)) :=
    Text.run?_append (by simp) (List.forall_mem_singleton.mpr (by decide)) hc
  rw [Text.spaces?]
  exact congrArg (Option.map Prod.snd) hrun

theorem callDefault?_printed (hd : ∀ d ∈ g.default, d.trim = d ∧ Grouped d) :
    callDefault? (g.printedDefault ++ ')' :: rest) = some (g.default, rest) := by
  rw [Getter.printedDefault]
  cases hdefault : g.default with
  | none =>
    have hclose : Text.isSpace ')' = false := by decide
    rw [Option.elim_none, List.nil_append, callDefault?, Text.trimStart_of_not_isSpace hclose]
    rfl
  | some d =>
    obtain ⟨htrim, hgrouped⟩ := hd d hdefault
    have hcomma : Text.isSpace ',' = false := by decide
    have hvalue : untilCallEnd? false (' ' :: (d ++ ')' :: rest)) = some (' ' :: d, rest) :=
      untilCallEnd?_grouped (Grouped.plain (by decide) (by decide) hgrouped)
    have hspace : Text.trim (' ' :: d) = d := by
      rw [Text.trim, Text.trimStart, List.dropWhile_cons_of_pos (by decide), ← Text.trimStart,
        ← Text.trim, htrim]
    rw [Option.elim_some]
    show callDefault? (',' :: ' ' :: (d ++ ')' :: rest)) = _
    simp only [callDefault?, Text.trimStart_of_not_isSpace hcomma, after?_cons, hvalue, hspace,
      bind, Option.bind_some, if_neg (List.cons_ne_nil ' ' d)]

theorem settingsCall?_printed (hg : g.Printable) :
    settingsCall? (g.printedCall ++ rest) = some ((g.accessor, g.key, g.default), rest) := by
  have hlead : Text.after? "config.".toList (g.printedCall ++ rest) =
      some (g.accessor ++ '(' :: '"' :: (g.key ++ '"' :: (g.printedDefault ++ ')' :: rest))) := by
    have hparts (lead : Text) : lead ++ g.accessor ++ ['(', '"'] ++ g.key ++ ['"'] ++
        g.printedDefault ++ [')'] ++ rest = lead ++ (g.accessor ++
          '(' :: '"' :: (g.key ++ '"' :: (g.printedDefault ++ ')' :: rest))) := by
      simp
    exact Text.after?_eq_some.mpr (hparts _)
  have hparenthesis : Text.isWord '(' = false := by decide
  have hquote : Text.isSpace '"' = false := by decide
  have hkey : Text.untilQuote? (g.key ++ '"' :: (g.printedDefault ++ ')' :: rest)) =
      some (g.key, g.printedDefault ++ ')' :: rest) :=
    Text.untilQuote?_eq_some_iff.mpr ⟨hg.key.1, hg.key.2, rfl⟩
  simp only [settingsCall?, hlead, word?_append hg.accessor hparenthesis, after?_cons,
    Text.trimStart_of_not_isSpace hquote, hkey, callDefault?_printed hg.default, bind,
    Option.bind_some, pure]

theorem settingsCall?_of_ne (hc : c ≠ 'c') : settingsCall? (c :: s) = none := by
  have hlead : Text.after? "config.".toList (c :: s) = none := after?_eq_none rfl hc
  simp only [settingsCall?, hlead, bind, Option.bind_none]

/-- What cannot begin a settings call and does not end the body is passed over. -/
theorem firstSettingsCall?_append (hc : 'c' ∉ s) (hend : '}' ∉ s) :
    firstSettingsCall? (s ++ rest) = firstSettingsCall? rest := by
  induction s with
  | nil => rfl
  | cons x s ih =>
    rw [List.mem_cons, not_or] at hc hend
    rw [List.cons_append, firstSettingsCall?, settingsCall?_of_ne (Ne.symm hc.1)]
    dsimp only
    rw [if_neg (Ne.symm hend.1), ih hc.2 hend.2]

theorem firstSettingsCall?_of_some {found : (Text × Text × Option Text) × Text}
    (h : settingsCall? s = some found) : firstSettingsCall? s = some found := by
  cases s with
  | nil => cases h
  | cons c s => rw [firstSettingsCall?, h]

/-- The type is the accessor without a leading `get`. -/
theorem property_type :
    g.property.type = (Text.after? "get".toList g.accessor).getD g.accessor := by
  rw [Getter.property]
  dsimp only
  split
  · next h =>
    obtain ⟨rest, hrest⟩ := h
    rw [Text.after?_eq_some.mpr hrest.symm, ← hrest]
    rfl
  · next h =>
    rw [← Text.after?_isSome_iff, Option.not_isSome_iff_eq_none] at h
    rw [h]
    rfl

/-- **A printed getter** is read up to the end of its call, whatever stands behind it. -/
theorem configGetter_printedHead (hg : g.Printable) :
    configGetter before (g.printedHead ++ rest) =
      some ((g.method ++ "()".toList, g.property), rest) := by
  have hlead : Text.after? "public".toList (g.printedHead ++ rest) =
      some (' ' :: (g.returnType ++ ' ' :: (g.method ++ '(' :: ')' :: ' ' :: '{' ::
        (" return ".toList ++ (g.printedCall ++ rest))))) := by
    have hparts (lead body : Text) : lead ++ [' '] ++ g.returnType ++ [' '] ++ g.method ++
        ['(', ')', ' ', '{'] ++ body ++ g.printedCall ++ rest =
          lead ++ (' ' :: (g.returnType ++ ' ' :: (g.method ++ '(' :: ')' :: ' ' :: '{' ::
            (body ++ (g.printedCall ++ rest))))) := by
      simp
    exact Text.after?_eq_some.mpr (hparts _ _)
  have hcall : firstSettingsCall? (" return ".toList ++ (g.printedCall ++ rest)) =
      some ((g.accessor, g.key, g.default), rest) := by
    rw [firstSettingsCall?_append (by decide) (by decide)]
    exact firstSettingsCall?_of_some (settingsCall?_printed hg)
  generalize " return ".toList ++ (g.printedCall ++ rest) = body at hlead hcall
  have hspace : Text.isWord ' ' = false := by decide
  have hparenthesis : Text.isWord '(' = false := by decide
  have hparentheses : Text.after? "()".toList (Text.trimStart ('(' :: ')' :: ' ' :: '{' :: body)) =
      some (' ' :: '{' :: body) := rfl
  have hbrace : Text.after? ['{'] (Text.trimStart (' ' :: '{' :: body)) = some body := rfl
  simp only [configGetter, hlead, spaces?_name hg.returnType, word?_append hg.returnType hspace,
    spaces?_name hg.method, word?_append hg.method hparenthesis, hparentheses, hbrace, hcall, bind,
    Option.bind_some, pure, ← property_type]
  rfl

/-! ## Reading a source -/

theorem configGetter_of_ne (hc : c ≠ 'p') : configGetter before (c :: s) = none := by
  have hlead : Text.after? "public".toList (c :: s) = none := after?_eq_none rfl hc
  simp only [configGetter, hlead, bind, Option.bind_none]

/-- No getter begins in a text without its first letter. -/
theorem passesOver_configGetter (h : 'p' ∉ s) : PassesOver configGetter s := by
  refine Text.passesOver_of_unread fun t ht hsuffix before w => ?_
  obtain ⟨c, t, rfl⟩ := List.exists_cons_of_ne_nil ht
  refine configGetter_of_ne ?_
  rintro rfl
  exact h (hsuffix.subset List.mem_cons_self)

/-- What stands between getters is passed over. -/
theorem passesOver_between (h : s.isBlank = true) :
    PassesOver configGetter ("; \x7d".toList ++ s) := by
  refine passesOver_configGetter fun hmem => ?_
  rcases List.mem_append.mp hmem with hmem | hmem
  · revert hmem
    decide
  · have hspace := List.all_eq_true.mp h 'p' hmem
    revert hspace
    decide

theorem printedHead_ne_nil (g : Getter) : g.printedHead ≠ [] := by
  have hparts (lead a b c d : Text) : lead ++ [' '] ++ a ++ [' '] ++ b ++ c ++ d ++ g.printedCall ≠
      [] := by
    simp
  exact hparts _ _ _ _ _

/-- **A source of printed getters**: what is read in it is the getters, in their order. -/
theorem readings_source (h : ∀ p ∈ gs, p.1.Printable ∧ p.2.isBlank = true) :
    (readings configGetter before (source gs)).map Prod.fst =
      gs.map fun p => (p.1.method ++ "()".toList, p.1.property) := by
  induction gs generalizing before with
  | nil => rw [source, List.flatMap_nil, Text.readings_nil]; rfl
  | cons p gs ih =>
    obtain ⟨⟨hg, hblank⟩, hgs⟩ := List.forall_mem_cons.mp h
    have hsource : source (p :: gs) =
        p.1.printedHead ++ (("; \x7d".toList ++ p.2) ++ source gs) := by
      rw [source, List.flatMap_cons, ← source, Getter.printed, List.append_assoc, List.append_assoc,
        List.append_assoc]
    rw [hsource, Text.readings_of_some (printedHead_ne_nil p.1) (configGetter_printedHead hg),
      passesOver_between hblank, List.map_cons, List.map_cons, ih hgs]

/-- The getters by their methods. -/
theorem experimentalGetters_eq_ofList (h : ∀ p ∈ gs, p.1.Printable ∧ p.2.isBlank = true) :
    experimentalGetters (source gs) =
      TextMap.ofList ((gs.map Prod.fst).map fun g => (g.method ++ "()".toList, g.property)) := by
  have hreadings : (Text.hits configGetter (source gs)).map Hit.value =
      (readings configGetter none (source gs)).map Prod.fst := by
    rw [readings, List.map_map]
    rfl
  rw [experimentalGetters, hreadings, readings_source h, List.map_map]
  rfl

/-- **Getters are read back.** In a source of printed getters each method has one entry, under
its name with parentheses. It is the setting of the last getter of that method: its name is
the key, its type the accessor without a leading `get`, and its default the printed one, if
one is printed. -/
theorem experimentalGetters_source (h : ∀ p ∈ gs, p.1.Printable ∧ p.2.isBlank = true) :
    let found := experimentalGetters (source gs)
    (∀ k p, found.get? k = some p ↔ ∃ earlier g later, gs.map Prod.fst = earlier ++ g :: later ∧
      k = g.method ++ "()".toList ∧ p = g.property ∧ ∀ g' ∈ later, g'.method ≠ g.method) ∧
    found.keys.Perm ((gs.map fun p => p.1.method).dedup.map fun m => m ++ "()".toList) := by
  intro found
  have hfound : found =
      TextMap.ofList ((gs.map Prod.fst).map fun g => (g.method ++ "()".toList, g.property)) :=
    experimentalGetters_eq_ofList h
  constructor
  · intro k p
    rw [hfound, TextMap.get?_ofList_eq_some_iff]
    constructor
    · rintro ⟨es, es', hsplit, hlast⟩
      obtain ⟨earlier, l, hl, -, hl'⟩ := List.map_eq_append_iff.mp hsplit
      obtain ⟨g, later, rfl, hg, rfl⟩ := List.map_eq_cons_iff.mp hl'
      cases hg
      refine ⟨earlier, g, later, hl, rfl, rfl, fun g' hmem heq => ?_⟩
      exact hlast _ (List.mem_map_of_mem hmem) (by rw [heq])
    · rintro ⟨earlier, g, later, hsplit, rfl, rfl, hlast⟩
      refine ⟨_, _, by rw [hsplit, List.map_append, List.map_cons], fun e he heq => ?_⟩
      obtain ⟨g', hmem, rfl⟩ := List.mem_map.mp he
      exact hlast g' hmem (List.append_cancel_right heq)
  · have hkeys : found.keys.Nodup := found.nodup_keys
    have hmethods : ((gs.map fun p => p.1.method).dedup.map fun m => m ++ "()".toList).Nodup :=
      (List.nodup_dedup _).map fun _ _ => List.append_cancel_right
    refine (List.perm_ext_iff_of_nodup hkeys hmethods).mpr fun k => ?_
    rw [hfound, TextMap.mem_keys_ofList]
    simp

namespace Sample

/-- A getter whose key and default hold others. -/
def nested : Getter where
  returnType := "boolean".toList
  method := "flag".toList
  accessor := "getBoolean".toList
  key := "\x7d public int size() \x7b return config.getInt(".toList
  default := some "f(x, \x7d), \"public int size() \x7b return config.getInt(k); \x7d\"".toList

def plain : Getter where
  returnType := "int".toList
  method := "level".toList
  accessor := "level".toList
  key := "a.level".toList
  default := none

def getters : List (Getter × Text) :=
  [(nested, ['\n']), (plain, []), ({ nested with key := "a.flag".toList }, [' ', '\n'])]

end Sample

open Source.Sample in
/-- Of two getters of one method the last counts, and none is found in what they print. -/
theorem experimentalGetters_source_sample :
    let found := experimentalGetters (source getters)
    (∀ p ∈ getters, p.1.Printable ∧ p.2.isBlank = true) ∧
      found.keys.Perm ["level()".toList, "flag()".toList] ∧
      found.get? "level()".toList = some ⟨"a.level".toList, "level".toList, none⟩ ∧
      found.get? "flag()".toList = some ⟨"a.flag".toList, "Boolean".toList, nested.default⟩ := by
  intro found
  have hnested : nested.Printable :=
    { returnType := ⟨by decide, List.all_eq_true.mp (by decide)⟩
      method := ⟨by decide, List.all_eq_true.mp (by decide)⟩
      accessor := ⟨by decide, List.all_eq_true.mp (by decide)⟩
      key := by decide
      default := by decide }
  have hplain : plain.Printable :=
    { returnType := ⟨by decide, List.all_eq_true.mp (by decide)⟩
      method := ⟨by decide, List.all_eq_true.mp (by decide)⟩
      accessor := ⟨by decide, List.all_eq_true.mp (by decide)⟩
      key := by decide
      default := by decide }
  have h : ∀ p ∈ getters, p.1.Printable ∧ p.2.isBlank = true := by
    intro p hp
    simp only [getters, List.mem_cons, List.not_mem_nil, or_false] at hp
    rcases hp with rfl | rfl | rfl
    · exact ⟨hnested, by decide⟩
    · exact ⟨hplain, by decide⟩
    · exact ⟨{ hnested with key := by decide }, by decide⟩
  obtain ⟨hget, hkeys⟩ := experimentalGetters_source h
  have hmethods : ((getters.map fun p => p.1.method).dedup.map fun m => m ++ "()".toList) =
      ["level()".toList, "flag()".toList] := by
    decide
  refine ⟨h, hmethods ▸ hkeys, ?_, ?_⟩
  · exact (hget _ _).mpr ⟨[nested], plain, [{ nested with key := "a.flag".toList }], rfl, by decide,
      by decide, by decide⟩
  · exact (hget _ _).mpr ⟨[nested, plain], { nested with key := "a.flag".toList }, [], rfl,
      by decide, by decide, by decide⟩

end Source

end ModuleDocs

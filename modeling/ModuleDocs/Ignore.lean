import ModuleDocs.Glob
import ModuleDocs.Path

/-!
# Ignore rules

A rule is a line of an ignore file: a glob, perhaps negated by a leading `!`. A
trailing `/` limits a rule to directories; the library asks about nothing else,
so it is only dropped. A rule with a `/` in front or
inside is tied to the directory of the ignore file; any other matches in every
directory below. Of the rules that match a path the last decides
(`IgnoreRules.ignoresDirectory`).
-/

namespace ModuleDocs

/-- One line of an ignore file. -/
structure IgnoreRule where
  negated : Bool
  glob : Glob

namespace IgnoreRule

/-- Whether a pattern starts with a run of directories of its own. -/
def startsAnywhere (s : Text) : Bool := "**/".toList.isPrefixOf s || s == "**".toList

/-- The glob text of a rule. A rule without `/` matches at every depth, and one
that ends in `/**` matches what is inside a directory but not the directory. -/
def globText (anchored : Bool) (s : Text) : Text :=
  let s := if !anchored && !s.contains '/' && !startsAnywhere s then "**/".toList ++ s else s
  if "/**".toList.isSuffixOf s then s ++ "/*".toList else s

/-- Reads a line. Comments and blank lines hold no rule. White space at the end
is dropped unless it is escaped. -/
def parse? (line : Text) : Except GlobError (Option IgnoreRule) :=
  if line.head? = some '#' then .ok none
  else
    let line := if "\\ ".toList.isSuffixOf line then line else line.trimEnd
    if line = [] then .ok none
    else
      let (negated, anchored, body) := match line with
        | '\\' :: '!' :: r => (false, false, '!' :: r)
        | '\\' :: '#' :: r => (false, false, '#' :: r)
        | '!' :: '/' :: r => (true, true, r)
        | '!' :: r => (true, false, r)
        | '/' :: r => (false, true, r)
        | r => (false, false, r)
      let body :=
        if body.getLast? = some '/' then
          let b := body.dropLast
          if b.getLast? = some '\\' then b.dropLast else b
        else body
      match Glob.parse true (globText anchored body) with
      | .ok glob => .ok (some { negated, glob })
      | .error e => .error e

end IgnoreRule

/-- The rules of one ignore file, with the directory they are tied to. -/
structure IgnoreRules where
  base : Path
  rules : List IgnoreRule

namespace IgnoreRules

/-- No rules. -/
def none (base : Path) : IgnoreRules := ⟨base, []⟩

/-- The rules of the lines that can be read. A byte order mark in front of the
first line is not part of it. -/
def ofLines (base : Path) (lines : List Text) : IgnoreRules :=
  let lines := match lines with
    | l :: ls => (l.dropWhile (· == Char.ofNat 0xFEFF)) :: ls
    | [] => []
  ⟨base, lines.filterMap fun l =>
    match IgnoreRule.parse? l with
    | .ok rule => rule
    | .error _ => .none⟩

/-- Drops a leading `./`. -/
def withoutDot (t : Text) : Text := (Text.after? "./".toList t).getD t

/-- The part of a path's text that rules are matched against: what follows the
base. -/
def candidate (base p : Path) : Text :=
  let root := withoutDot base.text
  let t := withoutDot p.text
  if root = ['.'] ∨ !t.contains '/' then t
  else
    match Text.after? root t with
    | .none => t
    | some r => (Text.after? ['/'] r).getD r

/-- Whether a directory is ignored: the last rule that matches it decides. -/
def ignoresDirectory (rs : IgnoreRules) (p : Path) : Bool :=
  match rs.rules.reverse.find? fun r => r.glob.matchesPath (candidate rs.base p) with
  | some r => !r.negated
  | .none => false

end IgnoreRules

end ModuleDocs

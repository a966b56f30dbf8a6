import ModuleDocs.Text.Utf8

/-!
# Glob patterns

A glob is a list of tokens, read once from its text (`Glob.parse`) and matched
against the bytes of a path. Neither `?` nor `*` crosses a `/`; `**` between
separators stands for any number of directories; braces hold alternatives and
may nest; a bracket class names single bytes, so a character outside ASCII in a
class stands for any of its bytes.

Matching (`Glob.rests`) yields every remainder that a pattern can leave; a
path matches when the empty remainder is among them. Remainders are suffixes of
the path, so there are never more than its length plus one.
-/

namespace ModuleDocs

/-- Why a pattern is not a glob. -/
inductive GlobError where
  | unclosedClass
  | invalidRange (first last : Char)
  | unopenedAlternatives
  | unclosedAlternatives
  | danglingEscape
  deriving DecidableEq

namespace GlobError

/-- What is wrong with the pattern, for its author. -/
def message : GlobError → Text
  | unclosedClass => "unclosed character class; missing ']'".toList
  | invalidRange a b =>
    "invalid range; '".toList ++ [a] ++ "' > '".toList ++ [b] ++ "'".toList
  | unopenedAlternatives =>
    "unopened alternate group; missing '\x7b' (maybe escape '\x7d' with '[\x7d]'?)".toList
  | unclosedAlternatives =>
    "unclosed alternate group; missing '\x7d' (maybe escape '\x7b' with '[\x7b]'?)".toList
  | danglingEscape => "dangling '\\'".toList

end GlobError

/-- One element of a glob. -/
inductive GlobToken where
  | literal (c : Char)
  /-- Any one byte but `/`. -/
  | any
  /-- Any bytes but `/`. -/
  | star
  /-- `**` at the start: any directories, or none. -/
  | leadingDirectories
  /-- `/**` at the end: everything below. -/
  | trailingDirectories
  /-- `/**/` inside: one `/`, or any directories between two. -/
  | innerDirectories
  /-- One byte of a class; `negated` for one outside it. -/
  | oneOf (negated : Bool) (ranges : List (Char × Char))
  | alternatives (branches : List (List GlobToken))

/-- A glob pattern. -/
abbrev Glob := List GlobToken

namespace Glob

/-! ## Reading -/

/-- Reads the members of a class after its opening bracket and sign. A `]` or a
`-` that comes first is a member; the class ends at the next `]`. -/
def parseMembers (first inRange : Bool) (ranges : List (Char × Char)) :
    List Char → Except GlobError (List (Char × Char) × List Char)
  | [] => .error .unclosedClass
  | ']' :: r =>
    if first then parseMembers false inRange ((']', ']') :: ranges) r
    else .ok ((if inRange then ('-', '-') :: ranges else ranges).reverse, r)
  | c :: r =>
    if c = '-' ∧ ¬first ∧ ¬inRange then parseMembers false true ranges r
    else if inRange then
      match ranges with
      | (a, _) :: more =>
        if c < a then .error (.invalidRange a c)
        else parseMembers false false ((a, c) :: more) r
      | [] => parseMembers false false [(c, c)] r
    else parseMembers false false ((c, c) :: ranges) r

/-- Reads a class after its opening bracket. -/
def parseClass (s : List Char) : Except GlobError (GlobToken × List Char) := do
  let (negated, body) := match s with
    | '!' :: r => (true, r)
    | '^' :: r => (true, r)
    | r => (false, r)
  let (ranges, rest) ← parseMembers true false [] body
  pure (.oneOf negated ranges, rest)

/-- What has been read of a pattern: the branch being read, last token first,
and for each open group its finished branches and the branch around it. -/
structure Reading where
  branch : List GlobToken
  groups : List (List (List GlobToken) × List GlobToken)
  /-- A bracket without its partner has been met and taken literally. -/
  openBracket : Bool

namespace Reading

def push (t : GlobToken) (st : Reading) : Reading := { st with branch := t :: st.branch }

/-- Puts a run of directories in the place of the separator before it. -/
def pushDirectories (atEnd : Bool) (st : Reading) : Reading :=
  match st.branch with
  | .leadingDirectories :: _ => st
  | .trailingDirectories :: _ => st
  | _ :: r =>
    { st with branch := (if atEnd then .trailingDirectories else .innerDirectories) :: r }
  | [] => st

end Reading

/-- Reads the rest of a pattern; `before` is the character just read. With
`lenient` set, a bracket that opens no class stands for itself. -/
def parseFrom (lenient : Bool) (st : Reading) (before : Option Char) :
    (s : List Char) → Except GlobError Reading
  | [] => .ok st
  | '?' :: r => parseFrom lenient (st.push .any) (some '?') r
  | '*' :: '*' :: r =>
    let plain := (st.push .star).push .star
    if st.branch = [] then
      match r with
      | [] => .ok (st.push .leadingDirectories)
      | '/' :: r => parseFrom lenient (st.push .leadingDirectories) (some '/') r
      | c :: r => parseFrom lenient plain (some '*') (c :: r)
    else if before = some '/' ∨ (st.groups ≠ [] ∧ (before = some ',' ∨ before = some '{')) then
      match r with
      | [] => .ok (st.pushDirectories true)
      | '/' :: r => parseFrom lenient (st.pushDirectories false) (some '/') r
      | c :: r =>
        if st.groups ≠ [] ∧ (c = ',' ∨ c = '}') then
          parseFrom lenient (st.pushDirectories true) (some '*') (c :: r)
        else parseFrom lenient plain (some '*') (c :: r)
    else parseFrom lenient plain (some '*') r
  | '*' :: r => parseFrom lenient (st.push .star) (some '*') r
  | '[' :: r =>
    if st.openBracket then parseFrom lenient (st.push (.literal '[')) (some '[') r
    else
      match parseClass r with
      | .ok (token, rest) =>
        if rest.length < r.length then parseFrom lenient (st.push token) (some ']') rest
        else .ok st
      | .error e =>
        if lenient && e == .unclosedClass then
          parseFrom lenient { st.push (.literal '[') with openBracket := true } (some '[') r
        else .error e
  | '{' :: r =>
    parseFrom lenient { st with branch := [], groups := ([], st.branch) :: st.groups } (some '{') r
  | '}' :: r =>
    match st.groups with
    | [] => .error .unopenedAlternatives
    | (done, outer) :: groups =>
      let group := GlobToken.alternatives (st.branch :: done).reverse
      parseFrom lenient { st with branch := group :: outer, groups } (some '}') r
  | ',' :: r =>
    match st.groups with
    | [] => parseFrom lenient (st.push (.literal ',')) (some ',') r
    | (done, outer) :: groups =>
      parseFrom lenient { st with branch := [], groups := (st.branch :: done, outer) :: groups }
        (some ',') r
  | '\\' :: r =>
    match r with
    | [] => .error .danglingEscape
    | c :: r => parseFrom lenient (st.push (.literal c)) (some c) r
  | c :: r => parseFrom lenient (st.push (.literal c)) (some c) r
  termination_by s => s.length

/-- Reads a pattern. -/
def parse (lenient : Bool) (s : Text) : Except GlobError Glob := do
  let st ← parseFrom lenient ⟨[], [], false⟩ none s
  if st.groups = [] then pure st.branch.reverse else .error .unclosedAlternatives

end Glob

/-! ## Matching -/

namespace GlobToken

/-- The byte ranges a character range stands for: the bytes of its ends, with
the last of the first and the first of the last joined. -/
def byteRanges (r : Char × Char) : List (UInt8 × UInt8) :=
  let a := (Text.encode [r.1]).toList
  let b := (Text.encode [r.2]).toList
  if r.1 = r.2 then a.map fun x => (x, x)
  else
    a.dropLast.map (fun x => (x, x)) ++ [(a.getLast?.getD 0, b.head?.getD 0)] ++
      (b.drop 1).map fun x => (x, x)

/-- Whether a byte is in a class. -/
def classHas (ranges : List (Char × Char)) (b : UInt8) : Bool :=
  ranges.any fun r => (byteRanges r).any fun p => p.1 ≤ b && b ≤ p.2

/-- The remainders after any bytes. -/
def anywhere : List UInt8 → List (List UInt8)
  | [] => [[]]
  | b :: r => (b :: r) :: anywhere r

/-- The remainders after any bytes but `/`. -/
def withinSegment : List UInt8 → List (List UInt8)
  | [] => [[]]
  | b :: r => if b = 47 then [b :: r] else (b :: r) :: withinSegment r

/-- The remainders after some `/`. -/
def afterSlashes : List UInt8 → List (List UInt8)
  | [] => []
  | b :: r => if b = 47 then r :: afterSlashes r else afterSlashes r

mutual

/-- Whether a token stands for nothing at all: a group of no alternatives. -/
def isVoid : GlobToken → Bool
  | .alternatives branches => allBranchesVoid branches
  | _ => false

def allBranchesVoid : List (List GlobToken) → Bool
  | [] => true
  | b :: bs => isVoidBranch b && allBranchesVoid bs

def isVoidBranch : List GlobToken → Bool
  | [] => true
  | t :: ts => isVoid t && isVoidBranch ts

end

mutual

/-- The remainders a token can leave of a path. -/
def rests : GlobToken → List UInt8 → List (List UInt8)
  | .literal c, s => ((Text.encode [c]).toList.isPrefixOf? s).toList
  | .any, b :: r => if b = 47 then [] else [r]
  | .any, [] => []
  | .star, s => withinSegment s
  | .leadingDirectories, s => s :: afterSlashes s
  | .trailingDirectories, b :: r => if b = 47 then anywhere r else []
  | .trailingDirectories, [] => []
  | .innerDirectories, b :: r => if b = 47 then r :: afterSlashes r else []
  | .innerDirectories, [] => []
  | .oneOf negated ranges, b :: r => if classHas ranges b == negated then [] else [r]
  | .oneOf _ _, [] => []
  | .alternatives branches, s =>
    if allBranchesVoid branches then [s] else (branchRests branches s).eraseDups

/-- The remainders that one of the branches can leave; void branches take no
part. -/
def branchRests : List (List GlobToken) → List UInt8 → List (List UInt8)
  | [], _ => []
  | b :: bs, s => (if isVoidBranch b then [] else sequenceRests b [s]) ++ branchRests bs s

/-- The remainders that tokens in sequence can leave of any of the texts. -/
def sequenceRests : List GlobToken → List (List UInt8) → List (List UInt8)
  | [], ss => ss
  | t :: ts, ss => sequenceRests ts (ss.flatMap (rests t)).eraseDups

end

end GlobToken

namespace Glob

/-- Whether a path matches. A lone `**` matches everything. -/
def matchesPath (g : Glob) (path : Text) : Bool :=
  match g with
  | [.leadingDirectories] => true
  | _ => (GlobToken.sequenceRests g [(Text.encode path).toList]).contains []

end Glob

end ModuleDocs

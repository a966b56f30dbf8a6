import ModuleDocs.Text.Basic

/-!
# Line differences

`Diff.changes` tells how one text becomes another: which lines stay, which go and
which come. The script is a shortest one, found by divide and conquer: common ends
are split off, and the rest is cut where a forward and a backward search for the
furthest points of each diagonal meet (`Diff.middle?`).

Of several shortest scripts the one is taken in which insertions stand as late as
they can: an insertion slides over a kept line if the lines it brings stay the
same by that, and joins the insertions it meets. Between two kept lines all
deletions come before all insertions.
-/

namespace ModuleDocs

/-- A run of lines that stay, go or come. -/
inductive Edit where
  | keep (lines : List Text)
  | delete (lines : List Text)
  | insert (lines : List Text)
  deriving DecidableEq

/-- What happens to a line. -/
inductive Change where
  | kept
  | deleted
  | inserted
  deriving DecidableEq

namespace Diff

/-! ## Lines -/

/-- The lines of a text, each with its end `\n`, `\r\n` or `\r`; `line` holds the
current line in reverse. -/
def linesFrom (line : Text) : Text → List Text
  | [] => if line = [] then [] else [line.reverse]
  | c :: r =>
    if c = '\n' ∨ (c = '\r' ∧ r.head? ≠ some '\n') then (c :: line).reverse :: linesFrom [] r
    else linesFrom (c :: line) r

/-- The lines of a text with their ends. -/
def lines (s : Text) : List Text := linesFrom [] s

/-! ## The furthest points -/

/-- Splits off the longest common beginning. -/
def splitCommon : List Text → List Text → List Text × List Text × List Text
  | a :: as, b :: bs =>
    if a = b then
      let (common, as, bs) := splitCommon as bs
      (a :: common, as, bs)
    else ([], a :: as, b :: bs)
  | as, bs => ([], as, bs)

/-- How many lines from `x` on agree with those from `y` on. -/
def runFrom (old new : Array Text) (x y : Nat) : Nat :=
  if h : x < old.size ∧ y < new.size then
    if old[x] = new[y] then runFrom old new (x + 1) (y + 1) + 1 else 0
  else 0
  termination_by old.size - x

/-- The furthest point on each diagonal, as its number of old lines. -/
structure Reach where
  values : Array Nat
  offset : Nat

namespace Reach

/-- No lines on diagonals up to a bound on both sides. -/
def start (bound : Nat) : Reach := ⟨Array.replicate (2 * bound + 3) 0, bound + 1⟩

def get (r : Reach) (k : Int) : Nat := r.values.getD (k + r.offset).toNat 0

def set (r : Reach) (k : Int) (x : Nat) : Reach :=
  { r with values := r.values.setIfInBounds (k + r.offset).toNat x }

/-- The furthest point of diagonal `k` with `d` changes, before and after the
lines that agree. -/
def extend (r : Reach) (old new : Array Text) (d k : Int) : Nat × Nat :=
  let x :=
    if k = -d ∨ (k ≠ d ∧ r.get (k - 1) < r.get (k + 1)) then r.get (k + 1) else r.get (k - 1) + 1
  (x, x + runFrom old new x ((x : Int) - k).toNat)

end Reach

/-- The diagonals that `d` changes can reach, from the last to the first. -/
def diagonals (d : Nat) : List Int := (List.range (d + 1)).map fun (i : Nat) => (d : Int) - 2 * i

/-- A point where the two searches with `d` changes each meet, or the furthest
points after them. -/
def round (old new oldReversed newReversed : Array Text) (forward backward : Reach) (d : Nat) :
    Except (Nat × Nat) (Reach × Reach) := do
  let n := old.size
  let delta : Int := (n : Int) - new.size
  let odd := delta % 2 ≠ 0
  let forward ← (diagonals d).foldlM (fun (forward : Reach) k =>
    let (x0, x) := forward.extend old new d k
    if odd ∧ (k - delta).natAbs < d ∧ n ≤ x + backward.get (delta - k) then
      Except.error (x0, ((x0 : Int) - k).toNat)
    else Except.ok (forward.set k x)) forward
  let backward ← (diagonals d).foldlM (fun (backward : Reach) k =>
    let (_, x) := backward.extend oldReversed newReversed d k
    if ¬odd ∧ (k - delta).natAbs ≤ d ∧ n ≤ x + forward.get (delta - k) then
      Except.error (n - x, new.size - ((x : Int) - k).toNat)
    else Except.ok (backward.set k x)) backward
  pure (forward, backward)

/-- Searches with more and more changes, at most `rounds` times. -/
def meet? (old new oldReversed newReversed : Array Text) :
    Nat → Nat → Reach → Reach → Option (Nat × Nat)
  | 0, _, _, _ => none
  | rounds + 1, d, forward, backward =>
    match round old new oldReversed newReversed forward backward d with
    | .error p => some p
    | .ok (forward, backward) =>
      meet? old new oldReversed newReversed rounds (d + 1) forward backward

/-- A point on a shortest script about half way: how many old and how many new
lines stand before it. -/
def middle? (old new : List Text) : Option (Nat × Nat) :=
  let bound := (old.length + new.length + 1) / 2 + 1
  meet? old.toArray new.toArray old.reverse.toArray new.reverse.toArray bound 0
    (Reach.start bound) (Reach.start bound)

/-! ## The script -/

/-- A run of lines that stay, unless it is empty. -/
def keepAny (lines : List Text) : List Edit := if lines = [] then [] else [.keep lines]

/-- A script from one list of lines to another; `fuel` bounds the cuts. -/
def script : Nat → List Text → List Text → List Edit
  | 0, old, new => [.delete old, .insert new]
  | fuel + 1, old, new =>
    let (lead, old, new) := splitCommon old new
    let (tail, oldReversed, newReversed) := splitCommon old.reverse new.reverse
    let old := oldReversed.reverse
    let new := newReversed.reverse
    let inner :=
      if old = [] then if new = [] then [] else [.insert new]
      else if new = [] then [.delete old]
      else
        match middle? old new with
        | some (x, y) =>
          script fuel (old.take x) (new.take y) ++ script fuel (old.drop x) (new.drop y)
        | none => [.delete old, .insert new]
    keepAny lead ++ inner ++ keepAny tail.reverse

/-! ## Settling the insertions -/

/-- Collects the deletions of each stretch between kept lines behind its
insertions. -/
def deletionsLast (pending : List Text) : List Edit → List Edit
  | [] => if pending = [] then [] else [.delete pending]
  | .keep ls :: r => (if pending = [] then [] else [.delete pending]) ++ .keep ls :: deletionsLast [] r
  | .delete ls :: r => deletionsLast (pending ++ ls) r
  | .insert ls :: r => .insert ls :: deletionsLast pending r

/-- The number of edits and lines of a script. -/
def weight : List Edit → Nat
  | [] => 0
  | .keep ls :: r => ls.length + 1 + weight r
  | .delete ls :: r => ls.length + 1 + weight r
  | .insert ls :: r => ls.length + 1 + weight r

/-- Puts kept lines in front of a script, into its first edit if that keeps lines. -/
def keepBefore (lines : List Text) : List Edit → List Edit
  | .keep ls :: r => .keep (lines ++ ls) :: r
  | r => .keep lines :: r

/-- Puts kept lines behind a script in reverse order. -/
def keepBehind (lines : List Text) : List Edit → List Edit
  | .keep ls :: r => .keep (ls ++ lines) :: r
  | r => .keep lines :: r

/-- Fewer kept lines weigh less. -/
theorem weight_keepAny_append {ls ms : List Text} (r : List Edit) (h : ls.length < ms.length) :
    weight (keepAny ls ++ r) < weight (.keep ms :: r) := by
  unfold keepAny
  split
  · simp [weight]
  · simpa [weight] using h

/-- Moves an insertion up as far as it goes: over kept lines that end like it, over
deletions, and into insertions. `before` is the script above it in reverse. -/
def raise (before : List Edit) (lines : List Text) (after : List Edit) :
    List Edit × List Text × List Edit :=
  match before with
  | [] => ([], lines, after)
  | .delete ls :: r => raise r lines (.delete ls :: after)
  | .insert ls :: r => raise r (ls ++ lines) after
  | .keep ls :: r =>
    let n := (splitCommon ls.reverse lines.reverse).1.length
    if _h : n = 0 ∨ ls.length < n then (.keep ls :: r, lines, after)
    else
      let moved := ls.drop (ls.length - n)
      raise (keepAny (ls.take (ls.length - n)) ++ r)
        (moved ++ lines.take (lines.length - n)) (keepBefore moved after)
  termination_by weight before
  decreasing_by
    · simp [weight]
    · simp [weight]
    · refine weight_keepAny_append r ?_
      rw [List.length_take]
      omega

/-- Moves an insertion down as far as it goes: over kept lines that begin like it,
over deletions, and together with insertions. -/
def lower (before : List Edit) (lines : List Text) (after : List Edit) :
    List Edit × List Text × List Edit :=
  match after with
  | [] => (before, lines, [])
  | .delete ls :: r => lower (.delete ls :: before) lines r
  | .insert ls :: r => lower before (lines ++ ls) r
  | .keep ls :: r =>
    let n := (splitCommon ls lines).1.length
    if _h : n = 0 ∨ ls.length < n then (before, lines, .keep ls :: r)
    else
      let moved := ls.take n
      lower (keepBehind moved before) (lines.drop n ++ moved) (keepAny (ls.drop n) ++ r)
  termination_by weight after
  decreasing_by
    · simp [weight]
    · simp [weight]
    · refine weight_keepAny_append r ?_
      rw [List.length_drop]
      omega

/-- Moves every insertion up and then down; `fuel` bounds the edits. -/
def settle : Nat → List Edit → List Edit → List Edit
  | 0, before, after => before.reverse ++ after
  | _, before, [] => before.reverse
  | fuel + 1, before, .insert ls :: after =>
    let (before, ls, after) := raise before ls after
    let (before, ls, after) := lower before ls after
    settle fuel (.insert ls :: before) after
  | fuel + 1, before, e :: after => settle fuel (e :: before) after

/-- The changes line by line; between kept lines deletions come first. -/
def lineChanges (inserted : List Text) : List Edit → List (Change × Text)
  | [] => inserted.map fun l => (.inserted, l)
  | .keep ls :: r =>
    inserted.map (fun l => (.inserted, l)) ++ ls.map (fun l => (.kept, l)) ++ lineChanges [] r
  | .delete ls :: r => ls.map (fun l => (.deleted, l)) ++ lineChanges inserted r
  | .insert ls :: r => lineChanges (inserted ++ ls) r

/-- How an old text becomes a new one, line by line. -/
def changes (old new : Text) : List (Change × Text) :=
  let old := lines old
  let new := lines new
  let size := old.length + new.length + 1
  let edits := deletionsLast [] (script size old new)
  lineChanges [] (settle ((size + edits.length) * (size + edits.length)) [] edits)

end Diff

end ModuleDocs

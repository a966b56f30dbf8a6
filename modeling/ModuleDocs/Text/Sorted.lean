import ModuleDocs.Text.Basic

/-!
# Sorted sets and maps of texts

The library prints sets of names and tables keyed by names in the order of
their UTF-8 encodings. `TextSet` and `TextMap` are lists kept strictly
increasing in that order, and the order is part of the type: two sets with the
same members are the same value (`TextSet.ext`), so the order in which facts
were collected cannot show in an answer.
-/

namespace ModuleDocs

/-- A finite set of texts, as its strictly increasing list of members. -/
structure TextSet where
  toList : List Text
  increasing : toList.Pairwise fun a b => compare a b = .lt
  deriving DecidableEq

namespace TextSet

/-- Puts a text at its place in an increasing list, unless it is there. -/
def insertInto (x : Text) : List Text → List Text
  | [] => [x]
  | y :: r =>
    match compare x y with
    | .lt => x :: y :: r
    | .eq => y :: r
    | .gt => y :: insertInto x r

theorem mem_insertInto {x z : Text} {l : List Text} :
    z ∈ insertInto x l ↔ z = x ∨ z ∈ l := by
  induction l with
  | nil => simp [insertInto]
  | cons y r ih =>
    unfold insertInto
    split
    · simp
    · next h =>
      have := Std.LawfulEqCmp.eq_of_compare h
      subst this
      simp
    · simp only [List.mem_cons, ih]
      constructor
      · rintro (h | h | h) <;> simp [h]
      · rintro (h | h | h) <;> simp [h]

theorem increasing_insertInto {x : Text} {l : List Text}
    (h : l.Pairwise fun a b => compare a b = .lt) :
    (insertInto x l).Pairwise fun a b => compare a b = .lt := by
  induction l with
  | nil => simp [insertInto]
  | cons y r ih =>
    have hy := List.pairwise_cons.mp h
    unfold insertInto
    split
    · next hlt =>
      refine List.pairwise_cons.mpr ⟨?_, h⟩
      intro z hz
      rcases List.mem_cons.mp hz with rfl | hz
      · exact hlt
      · exact Std.TransCmp.lt_trans hlt (hy.1 z hz)
    · exact h
    · next hgt =>
      refine List.pairwise_cons.mpr ⟨?_, ih hy.2⟩
      intro z hz
      rcases mem_insertInto.mp hz with rfl | hz
      · exact Std.OrientedCmp.gt_iff_lt.mp hgt
      · exact hy.1 z hz

/-- No members. -/
def empty : TextSet := ⟨[], .nil⟩

instance : Inhabited TextSet := ⟨empty⟩

instance : Membership Text TextSet := ⟨fun s x => x ∈ s.toList⟩

theorem mem_def {x : Text} {s : TextSet} : x ∈ s ↔ x ∈ s.toList := Iff.rfl

/-- Adds one text. -/
def insert (s : TextSet) (x : Text) : TextSet :=
  ⟨insertInto x s.toList, increasing_insertInto s.increasing⟩

/-- Adds the texts of a list. -/
def insertMany (s : TextSet) (xs : List Text) : TextSet := xs.foldl insert s

/-- The set of the texts of a list. -/
def ofList (xs : List Text) : TextSet := empty.insertMany xs

/-- The members of either set. -/
def union (s t : TextSet) : TextSet := s.insertMany t.toList

def isEmpty (s : TextSet) : Bool := s.toList.isEmpty

@[simp] theorem mem_empty {x : Text} : ¬ x ∈ empty := by simp [mem_def, empty]

@[simp] theorem mem_insert {x z : Text} {s : TextSet} : z ∈ s.insert x ↔ z = x ∨ z ∈ s :=
  mem_insertInto

@[simp] theorem mem_insertMany {z : Text} {xs : List Text} {s : TextSet} :
    z ∈ s.insertMany xs ↔ z ∈ s ∨ z ∈ xs := by
  induction xs generalizing s with
  | nil => simp [insertMany]
  | cons x xs ih =>
    show z ∈ (s.insert x).insertMany xs ↔ _
    rw [ih, mem_insert, List.mem_cons]
    constructor
    · rintro ((h | h) | h) <;> simp [h]
    · rintro (h | h | h) <;> simp [h]

@[simp] theorem mem_ofList {z : Text} {xs : List Text} : z ∈ ofList xs ↔ z ∈ xs := by
  simp [ofList]

@[simp] theorem mem_union {z : Text} {s t : TextSet} : z ∈ s.union t ↔ z ∈ s ∨ z ∈ t :=
  mem_insertMany

/-- Increasing lists with the same members are equal. -/
theorem eq_of_increasing {l m : List Text}
    (hl : l.Pairwise fun a b => compare a b = .lt) (hm : m.Pairwise fun a b => compare a b = .lt)
    (h : ∀ x, x ∈ l ↔ x ∈ m) : l = m := by
  induction l generalizing m with
  | nil =>
    cases m with
    | nil => rfl
    | cons y m => exact absurd ((h y).mpr (by simp)) (by simp)
  | cons x l ih =>
    cases m with
    | nil => exact absurd ((h x).mp (by simp)) (by simp)
    | cons y m =>
      have hx := List.pairwise_cons.mp hl
      have hy := List.pairwise_cons.mp hm
      have irrefl (a : Text) : compare a a ≠ .lt := by simp
      have hxy : x = y := by
        rcases List.mem_cons.mp ((h x).mp (by simp)) with rfl | hxm
        · rfl
        · rcases List.mem_cons.mp ((h y).mpr (by simp)) with rfl | hyl
          · rfl
          · exact absurd (Std.TransCmp.lt_trans (hx.1 y hyl) (hy.1 x hxm)) (irrefl x)
      subst hxy
      refine congrArg (x :: ·) (ih hx.2 hy.2 fun z => ?_)
      constructor
      · intro hz
        rcases List.mem_cons.mp ((h z).mp (by simp [hz])) with rfl | hzm
        · exact absurd (hx.1 z hz) (irrefl z)
        · exact hzm
      · intro hz
        rcases List.mem_cons.mp ((h z).mpr (by simp [hz])) with rfl | hzl
        · exact absurd (hy.1 z hz) (irrefl z)
        · exact hzl

/-- Sets with the same members are equal. -/
theorem ext {s t : TextSet} (h : ∀ x, x ∈ s ↔ x ∈ t) : s = t := by
  cases s with
  | mk l hl =>
    cases t with
    | mk m hm =>
      have := eq_of_increasing hl hm h
      subst this
      rfl

end TextSet

/-- A finite map keyed by texts, as its list of entries in increasing order of
keys. -/
structure TextMap (α : Type) where
  entries : List (Text × α)
  increasing : (entries.map Prod.fst).Pairwise fun a b => compare a b = .lt

namespace TextMap

variable {α : Type}

/-- Puts an entry at its place; at a key that is there already, `merge` makes
the value out of the old and the new one. -/
def insertInto (merge : α → α → α) (k : Text) (v : α) : List (Text × α) → List (Text × α)
  | [] => [(k, v)]
  | (k', v') :: r =>
    match compare k k' with
    | .lt => (k, v) :: (k', v') :: r
    | .eq => (k', merge v' v) :: r
    | .gt => (k', v') :: insertInto merge k v r

/-- The keys after an insertion are those of the set. -/
theorem keys_insertInto (merge : α → α → α) (k : Text) (v : α) (l : List (Text × α)) :
    (insertInto merge k v l).map Prod.fst = TextSet.insertInto k (l.map Prod.fst) := by
  induction l with
  | nil => rfl
  | cons e r ih =>
    obtain ⟨k', v'⟩ := e
    simp only [insertInto, List.map_cons, TextSet.insertInto]
    split <;> simp [ih]

/-- No entries. -/
def empty : TextMap α := ⟨[], .nil⟩

instance : Inhabited (TextMap α) := ⟨empty⟩

/-- Adds an entry, combining it with one that is there. -/
def insertWith (merge : α → α → α) (m : TextMap α) (k : Text) (v : α) : TextMap α :=
  ⟨insertInto merge k v m.entries, by
    rw [keys_insertInto]
    exact TextSet.increasing_insertInto m.increasing⟩

/-- Sets the value at a key. -/
def insert (m : TextMap α) (k : Text) (v : α) : TextMap α := insertWith (fun _ new => new) m k v

/-- Sets the value at a key that has none. -/
def insertIfNew (m : TextMap α) (k : Text) (v : α) : TextMap α :=
  insertWith (fun old _ => old) m k v

/-- The value of the first entry at a key. -/
def lookup (q : Text) : List (Text × α) → Option α
  | [] => none
  | (k, v) :: r => if q = k then some v else lookup q r

/-- The value at a key. -/
def get? (m : TextMap α) (k : Text) : Option α := lookup k m.entries

def contains (m : TextMap α) (k : Text) : Bool := (m.get? k).isSome

def size (m : TextMap α) : Nat := m.entries.length

def isEmpty (m : TextMap α) : Bool := m.entries.isEmpty

def keys (m : TextMap α) : List Text := m.entries.map Prod.fst

/-- Changes every value, with its key in view; the keys stay. -/
def mapValues {β : Type} (f : Text → α → β) (m : TextMap α) : TextMap β :=
  ⟨m.entries.map fun e => (e.1, f e.1 e.2), by
    have : (m.entries.map fun e => (e.1, f e.1 e.2)).map Prod.fst = m.entries.map Prod.fst := by
      simp
    rw [this]
    exact m.increasing⟩

/-- The map of a list of entries; of two entries at a key the later stands. -/
def ofList (l : List (Text × α)) : TextMap α := l.foldl (fun m e => m.insert e.1 e.2) empty

theorem lookup_eq_none {q : Text} {l : List (Text × α)} (h : q ∉ l.map Prod.fst) :
    lookup q l = none := by
  induction l with
  | nil => rfl
  | cons e r ih =>
    obtain ⟨k, v⟩ := e
    simp only [List.map_cons, List.mem_cons, not_or] at h
    simp [lookup, h.1, ih h.2]

/-- Looking up after an insertion: the inserted key holds the combined value,
every other key what it held. -/
theorem get?_insertWith (merge : α → α → α) (m : TextMap α) (k : Text) (v : α) (q : Text) :
    (insertWith merge m k v).get? q =
      if q = k then some (match m.get? k with | some old => merge old v | none => v)
      else m.get? q := by
  obtain ⟨l, hl⟩ := m
  show lookup q (insertInto merge k v l) = if q = k then
    some (match lookup k l with | some old => merge old v | none => v) else lookup q l
  induction l with
  | nil => by_cases h : q = k <;> simp [insertInto, lookup, h]
  | cons e r ih =>
    obtain ⟨k', v'⟩ := e
    have hk := List.pairwise_cons.mp (show (k' :: r.map Prod.fst).Pairwise _ from hl)
    have ih := ih hk.2
    simp only [insertInto]
    split
    · next hlt =>
      have hne : k ≠ k' := by
        rintro rfl
        simp at hlt
      have hr : lookup k r = none := lookup_eq_none fun hm => by
        have := Std.TransCmp.lt_trans hlt (hk.1 k hm)
        simp at this
      by_cases h : q = k
      · subst h; simp [lookup, hne, hr]
      · simp [lookup, h]
    · next heq =>
      have := Std.LawfulEqCmp.eq_of_compare heq
      subst this
      by_cases h : q = k <;> simp [lookup, h]
    · next hgt =>
      have hne : k ≠ k' := by
        rintro rfl
        simp at hgt
      by_cases h : q = k'
      · subst h; simp [lookup, Ne.symm hne]
      · by_cases hq : q = k
        · subst hq; simp [lookup, hne, ih]
        · simp [lookup, h, hq, ih]

end TextMap

end ModuleDocs

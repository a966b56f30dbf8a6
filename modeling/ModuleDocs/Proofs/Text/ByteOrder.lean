import ModuleDocs.Proofs.Text.Bytes

/-!
# The order of texts and the order of their bytes

Names and paths are put in order as lists of characters. In UTF-8 that is the order of the
bytes: of two characters the smaller one has the smaller bytes, and as neither begins the
other, this holds whatever stands behind them (`utf8EncodeChar_append_lt`).

> `compare_eq_lt_iff_bytes`: texts compare as their bytes do.
-/

namespace ModuleDocs

namespace Text

variable {s t : Text} {c d : Char}

/-- A number of 21 bits in groups of six. -/
theorem exists_groups {n : Nat} (h : n < 0x200000) : ∃ g₃ g₂ g₁ g₀,
    g₃ < 8 ∧ g₂ < 64 ∧ g₁ < 64 ∧ g₀ < 64 ∧ n = 262144 * g₃ + 4096 * g₂ + 64 * g₁ + g₀ ∧
      n / 262144 % 8 = g₃ ∧ n / 4096 % 64 = g₂ ∧ n / 64 % 64 = g₁ ∧ n % 64 = g₀ :=
  ⟨n / 262144 % 8, n / 4096 % 64, n / 64 % 64, n % 64, by omega, by omega, by omega, by omega,
    by omega, rfl, rfl, rfl, rfl⟩

/-- Of two characters the smaller one has the smaller bytes, whatever follows. -/
theorem utf8EncodeChar_append_lt (h : c < d) (u v : List UInt8) :
    String.utf8EncodeChar c ++ u < String.utf8EncodeChar d ++ v := by
  have hlt : c.val.toNat < d.val.toNat := UInt32.lt_iff_toNat_lt.mp h
  have hmax : d.val.toNat < 0x110000 := by
    rcases d.valid with hlow | hhigh
    · omega
    · exact hhigh.2
  simp only [String.utf8EncodeChar]
  generalize c.val.toNat = m at *
  generalize d.val.toNat = n at *
  obtain ⟨m₃, m₂, m₁, m₀, hm₃, hm₂, hm₁, hm₀, hm, gm₃, gm₂, gm₁, gm₀⟩ :=
    exists_groups (by omega : m < 0x200000)
  obtain ⟨n₃, n₂, n₁, n₀, hn₃, hn₂, hn₁, hn₀, hn, gn₃, gn₂, gn₁, gn₀⟩ :=
    exists_groups (by omega : n < 0x200000)
  -- the first of two or three bytes holds less than a group
  have hm16 : m / 4096 % 16 = m₂ % 16 := by omega
  have hn16 : n / 4096 % 16 = n₂ % 16 := by omega
  have hm32 : m / 64 % 32 = m₁ % 32 := by omega
  have hn32 : n / 64 % 32 = n₁ % 32 := by omega
  simp only [gm₃, gm₂, gm₁, gm₀, gn₃, gn₂, gn₁, gn₀, hm16, hn16, hm32, hn32]
  clear gm₃ gm₂ gm₁ gm₀ gn₃ gn₂ gn₁ gn₀ hm16 hn16 hm32 hn32
  -- one case for each pair of lengths: if they differ the first byte tells, else the groups do
  split_ifs <;>
    simp only [List.cons_append, List.nil_append, List.cons_lt_cons_iff, UInt8.lt_iff_toNat_lt,
      UInt8.toNat_ofNat', ← UInt8.toNat_inj] <;>
    omega

theorem compare_cons : compare (c :: s) (d :: t) = (compare c d).then (compare s t) :=
  List.compareLex_cons_cons

theorem bytes_lt_of_compare (h : compare s t = .lt) : bytes s < bytes t := by
  induction s generalizing t with
  | nil =>
    cases t with
    | nil => simp at h
    | cons d t =>
      obtain ⟨b, r, hb, -⟩ := exists_bytes_eq_cons (List.cons_ne_nil d t)
      rw [hb]
      exact List.nil_lt_cons b r
  | cons c s ih =>
    cases t with
    | nil => cases h
    | cons d t =>
      rw [compare_cons, Ordering.then_eq_lt] at h
      rcases h with hlt | ⟨heq, hlt⟩
      · exact utf8EncodeChar_append_lt (compareOfLessAndEq_eq_lt.mp hlt) _ _
      · obtain rfl := Std.LawfulEqCmp.eq_of_compare heq
        exact List.append_left_lt (ih hlt)

/-- **Texts compare as their bytes do.** -/
theorem compare_eq_lt_iff_bytes : compare s t = .lt ↔ bytes s < bytes t := by
  refine ⟨bytes_lt_of_compare, fun h => ?_⟩
  cases hc : compare s t with
  | lt => rfl
  | eq =>
    rw [Std.LawfulEqCmp.eq_of_compare hc] at h
    exact absurd h (List.lt_irrefl _)
  | gt => exact absurd (bytes_lt_of_compare (Std.OrientedCmp.lt_of_gt hc)) (List.lt_asymm h)

end Text

end ModuleDocs

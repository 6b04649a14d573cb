/-!
# Keys of tables

Keys are compared three ways. Texts go by their UTF-8 bytes, signed numbers by size, and a key
made of two parts by its first part and then by its second (`TableKey.lex`).
-/

namespace ObjectRegistry

/-- Keys with a total order, given as a three-way comparison. -/
class TableKey (κ : Type) where
  compare : κ → κ → Ordering
  compare_self : ∀ a, compare a a = .eq
  eq_of_compare : ∀ {a b}, compare a b = .eq → a = b
  compare_swap : ∀ a b, compare a b = (compare b a).swap
  lt_trans : ∀ {a b c}, compare a b = .lt → compare b c = .lt → compare a c = .lt

/-- Texts in the order of their UTF-8 bytes, which is that of their code points. -/
instance : TableKey String where
  compare := String.compare
  compare_self _ := @Std.ReflCmp.compare_self _ (Ord.compare : String → String → _) _ _
  eq_of_compare h := @Std.LawfulEqCmp.eq_of_compare _ (Ord.compare : String → String → _) _ _ _ h
  compare_swap _ _ := @Std.OrientedCmp.eq_swap _ (Ord.compare : String → String → _) _ _ _
  lt_trans h₁ h₂ := @Std.TransCmp.lt_trans _ (Ord.compare : String → String → _) _ _ _ _ h₁ h₂

namespace TableKey

/-- Signed numbers by size. -/
def compareInt64 (x y : Int64) : Ordering :=
  if x < y then .lt else if x = y then .eq else .gt

theorem compareInt64_eq_lt {x y : Int64} : compareInt64 x y = .lt ↔ x < y := by
  unfold compareInt64
  by_cases lt : x < y
  · simp [lt]
  · by_cases eq : x = y <;> simp [lt, eq]

theorem compareInt64_swap (x y : Int64) : compareInt64 x y = (compareInt64 y x).swap := by
  unfold compareInt64
  by_cases lt : x < y
  · have ne : y ≠ x := fun e => Int64.lt_irrefl (e ▸ lt)
    simp [lt, ne, Int64.not_lt.2 (Int64.le_of_lt lt)]
  · by_cases gt : y < x
    · have ne : x ≠ y := fun e => lt (e ▸ e ▸ gt)
      simp [lt, gt, ne]
    · have eq : x = y := Int64.le_antisymm (Int64.not_lt.1 gt) (Int64.not_lt.1 lt)
      subst eq
      simp [lt]

instance : TableKey Int64 where
  compare := compareInt64
  compare_self x := by simp [compareInt64, Int64.lt_irrefl]
  eq_of_compare {x y} h := by
    unfold compareInt64 at h
    split at h
    · cases h
    · split at h
      · assumption
      · cases h
  compare_swap := compareInt64_swap
  lt_trans h₁ h₂ :=
    compareInt64_eq_lt.2 (Int64.lt_trans (compareInt64_eq_lt.1 h₁) (compareInt64_eq_lt.1 h₂))

variable {κ α β : Type} [TableKey α] [TableKey β]

/-- Keys of two parts, by the first and, where those are equal, by the second. -/
def compareLex (first : κ → α) (second : κ → β) (x y : κ) : Ordering :=
  (compare (first x) (first y)).then (compare (second x) (second y))

/-- Two parts that make up a key order it. -/
abbrev lex (first : κ → α) (second : κ → β)
    (whole : ∀ {x y}, first x = first y → second x = second y → x = y) : TableKey κ where
  compare := compareLex first second
  compare_self x := by simp [compareLex, compare_self]
  eq_of_compare h :=
    have parts := Ordering.then_eq_eq.1 h
    whole (eq_of_compare parts.1) (eq_of_compare parts.2)
  compare_swap x y := by
    rw [compareLex, compareLex, Ordering.swap_then, ← compare_swap, ← compare_swap]
  lt_trans h₁ h₂ := by
    refine Ordering.then_eq_lt.2 ?_
    rcases Ordering.then_eq_lt.1 h₁ with l₁ | ⟨e₁, l₁⟩ <;>
      rcases Ordering.then_eq_lt.1 h₂ with l₂ | ⟨e₂, l₂⟩
    · exact Or.inl (lt_trans l₁ l₂)
    · exact Or.inl (eq_of_compare e₂ ▸ l₁)
    · exact Or.inl (eq_of_compare e₁ ▸ l₂)
    · exact Or.inr ⟨eq_of_compare e₁ ▸ e₂, lt_trans l₁ l₂⟩

end TableKey

end ObjectRegistry

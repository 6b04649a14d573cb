import ObjectRegistry.Proofs.Table
import ObjectRegistry.Text.Utf8

/-!
# The order of bytes

Texts are compared by their code points, and keys of tables are meant to be in the order of their
UTF-8 bytes. The two orders are one (`TableKey.compare_eq_lt_iff_bytes`): the encoding of a code
point is its digits to the base 64 behind a first byte that grows with the number of digits, so the
greater of two code points has the greater encoding, whatever follows (`units_lt`).
-/

namespace ObjectRegistry

namespace Text

/-- The bytes of a code point in UTF-8, as numbers: its digits to the base 64, the first of which
also tells how many there are. -/
def units (n : Nat) : List Nat :=
  if n ≤ 127 then [n]
  else if n ≤ 2047 then [n / 64 + 192, n % 64 + 128]
  else if n ≤ 65535 then [n / 64 / 64 + 224, n / 64 % 64 + 128, n % 64 + 128]
  else [n / 64 / 64 / 64 + 240, n / 64 / 64 % 64 + 128, n / 64 % 64 + 128, n % 64 + 128]

theorem toNat_lt (c : Char) : c.toNat < 1114112 := by
  have hvalid := c.valid
  simp only [UInt32.isValidChar, Nat.isValidChar] at hvalid
  show c.val.toNat < 1114112
  omega

/-- How many bytes a code point takes. -/
theorem units_cases (n : Nat) :
    (n ≤ 127 ∧ units n = [n]) ∨
    (¬ n ≤ 127 ∧ n ≤ 2047 ∧ units n = [n / 64 + 192, n % 64 + 128]) ∨
    (¬ n ≤ 127 ∧ ¬ n ≤ 2047 ∧ n ≤ 65535 ∧
      units n = [n / 64 / 64 + 224, n / 64 % 64 + 128, n % 64 + 128]) ∨
    (¬ n ≤ 127 ∧ ¬ n ≤ 2047 ∧ ¬ n ≤ 65535 ∧
      units n =
        [n / 64 / 64 / 64 + 240, n / 64 / 64 % 64 + 128, n / 64 % 64 + 128, n % 64 + 128]) := by
  unfold units
  by_cases h1 : n ≤ 127
  · simp [h1]
  · by_cases h2 : n ≤ 2047
    · simp [h1, h2]
    · by_cases h3 : n ≤ 65535 <;> simp [h1, h2, h3]

theorem units_encode (c : Char) : (String.utf8EncodeChar c).map UInt8.toNat = units c.toNat := by
  have hc : c.val.toNat < 1114112 := toNat_lt c
  show _ = units c.val.toNat
  unfold String.utf8EncodeChar
  generalize c.val.toNat = n at hc ⊢
  dsimp only
  rcases units_cases n with ⟨h1, hn⟩ | ⟨h1, h2, hn⟩ | ⟨h1, h2, h3, hn⟩ | ⟨h1, h2, h3, hn⟩ <;>
    simp only [List.map_cons, List.map_nil, UInt8.toNat_ofNat', List.cons.injEq, and_true,
      *, if_true, if_false] <;>
    omega

/-- The lesser of two numbers is the lesser but for the last digit, or has the lesser last digit. -/
theorem digits_lt {m n : Nat} (h : m < n) :
    m / 64 < n / 64 ∨ m / 64 = n / 64 ∧ m % 64 < n % 64 := by
  omega

/-- The encoding of the lesser code point is the lesser, whatever follows. -/
theorem units_lt {m n : Nat} (h : m < n) (xs ys : List Nat) : units m ++ xs < units n ++ ys := by
  have hdigits := digits_lt h
  -- the first byte decides if one has more bytes, and the digits if both have the same number
  rcases units_cases m with ⟨_, hm⟩ | ⟨_, _, hm⟩ | ⟨_, _, _, hm⟩ | ⟨_, _, _, hm⟩ <;>
    rcases units_cases n with ⟨_, hn⟩ | ⟨_, _, hn⟩ | ⟨_, _, _, hn⟩ | ⟨_, _, _, hn⟩ <;>
    rw [hm, hn] <;>
    simp only [List.cons_append, List.nil_append, List.cons_lt_cons_iff] <;>
    omega

theorem units_ne_nil (n : Nat) : units n ≠ [] := by
  rcases units_cases n with ⟨_, hn⟩ | ⟨_, _, hn⟩ | ⟨_, _, _, hn⟩ | ⟨_, _, _, hn⟩ <;>
    rw [hn] <;>
    exact List.cons_ne_nil _ _

theorem flatMap_units_lt {cs ds : List Char} (h : cs < ds) :
    (cs.flatMap fun c => units c.toNat) < ds.flatMap fun d => units d.toNat := by
  induction cs generalizing ds with
  | nil =>
    cases ds with
    | nil => exact absurd h (List.lt_irrefl _)
    | cons d ds =>
      obtain ⟨u, us, hunits⟩ := List.exists_cons_of_ne_nil (units_ne_nil d.toNat)
      rw [List.flatMap_nil, List.flatMap_cons, hunits]
      exact List.nil_lt_cons _ _
  | cons c cs ih =>
    cases ds with
    | nil => exact absurd h (List.not_lt_nil _)
    | cons d ds =>
      rw [List.flatMap_cons, List.flatMap_cons]
      rcases List.cons_lt_cons_iff.1 h with hlt | ⟨rfl, hlt⟩
      · exact units_lt hlt _ _
      · exact List.append_left_lt (ih hlt)

/-- Bytes are compared as numbers. -/
theorem lt_of_toNat_lt {xs ys : List UInt8} (h : xs.map UInt8.toNat < ys.map UInt8.toNat) :
    xs < ys := by
  induction xs generalizing ys with
  | nil =>
    cases ys with
    | nil => exact absurd h (List.lt_irrefl _)
    | cons y ys => exact List.nil_lt_cons _ _
  | cons x xs ih =>
    cases ys with
    | nil => exact absurd h (List.not_lt_nil _)
    | cons y ys =>
      rcases List.cons_lt_cons_iff.1 h with hlt | ⟨heq, hlt⟩
      · exact List.cons_lt_cons_iff.2 (Or.inl (UInt8.lt_iff_toNat_lt.2 hlt))
      · exact List.cons_lt_cons_iff.2 (Or.inr ⟨UInt8.toNat_inj.1 heq, ih hlt⟩)

theorem bytes_eq_flatMap (text : String) :
    bytes text = text.toList.flatMap String.utf8EncodeChar := by
  have hwhole : text.toList.utf8Encode = text.toByteArray := String.utf8Encode_toList
  show text.toByteArray.data.toList = _
  rw [← hwhole, List.utf8Encode]
  simp

theorem bytes_lt_of_lt {x y : String} (h : x < y) : bytes x < bytes y := by
  have hunits : ∀ text : String, (bytes text).map UInt8.toNat =
      text.toList.flatMap fun c => units c.toNat := by
    intro text
    rw [bytes_eq_flatMap, List.map_flatMap]
    simp only [units_encode]
  refine lt_of_toNat_lt ?_
  rw [hunits, hunits]
  exact flatMap_units_lt (String.lt_iff.1 h)

end Text

/-- **Texts are in the order of their bytes.** -/
theorem TableKey.compare_eq_lt_iff_bytes {x y : String} :
    compare x y = .lt ↔ Text.bytes x < Text.bytes y := by
  have hbytes : ∀ {x y : String}, compare x y = .lt → Text.bytes x < Text.bytes y :=
    fun h => Text.bytes_lt_of_lt (compareOfLessAndEq_eq_lt.1 h)
  constructor
  · exact hbytes
  · intro h
    by_cases hsame : x = y
    · rw [hsame] at h
      exact absurd h (List.lt_irrefl _)
    · rcases TableKey.lt_or_lt_of_ne hsame with hlt | hgt
      · exact hlt
      · exact absurd (hbytes hgt) (List.lt_asymm h)

end ObjectRegistry

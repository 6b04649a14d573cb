import ObjectRegistry.Text.Numeral

/-!
# Numerals are read back

A numeral that was written is read back as the number it stands for (`int64?_ofInt64`). Reading goes
from left to right with the value so far in hand, as `Nat.ofDigitChars` does; the one thing it adds
is that the value must stay within 64 bits on the way, and it does because it only grows.

What is read is no more than that: digits with a sign or without (`int64?_eq_some_iff`), which are
the digits that would be written, behind any zeros (`int64?_eq_some_iff_zeros`).

What a numeral is made of matters where it stands beside other text: a minus sign and digits, so no
colon, no blank and no line break (`mem_ofInt64`).
-/

namespace ObjectRegistry.Text.Numeral

theorem digitValue?_isDigit {c : Char} (h : c.isDigit = true) :
    digitValue? c = some (c.toNat - '0'.toNat) := by
  have hrange : 48 ≤ c.toNat ∧ c.toNat ≤ 57 := Char.isDigit_iff_toNat.1 h
  unfold digitValue?
  rw [if_pos hrange]
  rfl

/-- Digits to the right make a value no smaller. -/
theorem le_ofDigitChars (cs : List Char) (value : Nat) : value ≤ Nat.ofDigitChars 10 cs value := by
  induction cs generalizing value with
  | nil => exact Nat.le_refl _
  | cons c rest ih =>
    rw [Nat.ofDigitChars_cons]
    have hrest := ih (10 * value + (c.toNat - '0'.toNat))
    omega

theorem extend?_eq {cs : List Char} (hdigits : ∀ c ∈ cs, c.isDigit = true) {value : Nat}
    (hfits : Nat.ofDigitChars 10 cs value < 18446744073709551616) :
    extend? value cs = some (Nat.ofDigitChars 10 cs value) := by
  induction cs generalizing value with
  | nil => rfl
  | cons c rest ih =>
    have hc : digitValue? c = some (c.toNat - '0'.toNat) :=
      digitValue?_isDigit (hdigits c List.mem_cons_self)
    rw [Nat.ofDigitChars_cons] at hfits ⊢
    -- what is read so far is at most what is read in the end
    have hnext : 10 * value + (c.toNat - '0'.toNat) < 18446744073709551616 :=
      Nat.lt_of_le_of_lt (le_ofDigitChars rest _) hfits
    rw [extend?, hc]
    show (if _ then extend? _ rest else none) = _
    rw [if_pos hnext]
    exact ih (fun x hx => hdigits x (List.mem_cons_of_mem _ hx)) hfits

theorem toDigits_isDigit (n : Nat) : ∀ c ∈ Nat.toDigits 10 n, c.isDigit = true :=
  fun _ hc => Nat.isDigit_of_mem_toDigits (by decide) (by decide) hc

theorem natural?_toDigits {n : Nat} (h : n < 18446744073709551616) :
    natural? (Nat.toDigits 10 n) = some n := by
  have hvalue : Nat.ofDigitChars 10 (Nat.toDigits 10 n) 0 = n :=
    Nat.ofDigitChars_toDigits (by decide) (by decide)
  have hread : extend? 0 (Nat.toDigits 10 n) = some n := by
    rw [extend?_eq (toDigits_isDigit n) (by rwa [hvalue]), hvalue]
  cases hdigits : Nat.toDigits 10 n with
  | nil => exact absurd hdigits Nat.toDigits_ne_nil
  | cons c rest =>
    rw [hdigits] at hread
    exact hread

/-- Digits alone are no signed numeral in disguise. -/
theorem integer?_of_isDigit {cs : List Char} (h : ∀ c ∈ cs, c.isDigit = true) :
    integer? cs = (natural? cs).map fun n => (n : Int) := by
  unfold integer?
  split
  next rest => exact absurd (h '-' List.mem_cons_self) (by decide)
  next rest => exact absurd (h '+' List.mem_cons_self) (by decide)
  next => rfl

theorem toList_ofInt64 (n : Int64) :
    (ofInt64 n).toList =
      if 0 ≤ n.toInt then Nat.toDigits 10 n.toInt.toNat
      else '-' :: Nat.toDigits 10 (-n.toInt).toNat := by
  show (Int.repr n.toInt).toList = _
  rw [Int.repr_eq_if]
  split
  next => rw [Nat.repr_eq_ofList_toDigits, String.toList_ofList]
  next =>
    rw [Nat.repr_eq_ofList_toDigits]
    simp

theorem integer?_ofInt64 (n : Int64) : integer? (ofInt64 n).toList = some n.toInt := by
  have hlow := n.le_toInt
  have hhigh := n.toInt_lt
  rw [toList_ofInt64]
  split
  next hnonneg =>
    rw [integer?_of_isDigit (toDigits_isDigit _), natural?_toDigits (by omega)]
    exact congrArg some (Int.toNat_of_nonneg hnonneg)
  next hneg =>
    have hback : -((-n.toInt).toNat : Int) = n.toInt := by omega
    rw [integer?, natural?_toDigits (by omega)]
    exact congrArg some hback

/-- **A numeral is read back.** -/
theorem int64?_ofInt64 (n : Int64) : int64? (ofInt64 n).toList = some n := by
  have hlow := n.le_toInt
  have hhigh := n.toInt_lt
  rw [int64?, integer?_ofInt64, Option.bind_some, toInt64?,
    if_pos ⟨by unfold least64; omega, by unfold greatest64; omega⟩, Int64.ofInt_toInt]

/-- A numeral is made of digits and a minus sign. -/
theorem mem_ofInt64 {n : Int64} {c : Char} (h : c ∈ (ofInt64 n).toList) :
    c = '-' ∨ c.isDigit = true := by
  rw [toList_ofInt64] at h
  split at h
  next => exact Or.inr (toDigits_isDigit _ c h)
  next =>
    rcases List.mem_cons.1 h with hsign | hdigit
    · exact Or.inl hsign
    · exact Or.inr (toDigits_isDigit _ c hdigit)

theorem ofInt64_ne_empty (n : Int64) : ofInt64 n ≠ "" := by
  intro h
  have hlist : (ofInt64 n).toList = [] := by rw [h]; rfl
  rw [toList_ofInt64] at hlist
  split at hlist
  next => exact absurd hlist Nat.toDigits_ne_nil
  next => cases hlist

/-! ## What is read as a numeral -/

theorem isDigit_of_digitValue? {c : Char} {d : Nat} (h : digitValue? c = some d) :
    c.isDigit = true ∧ d = c.toNat - '0'.toNat := by
  unfold digitValue? at h
  split at h
  next hrange => exact ⟨Char.isDigit_iff_toNat.2 hrange, (Option.some.inj h).symm⟩
  next => cases h

/-- Whatever is read goes on in digits, and its value fits. -/
theorem of_extend? {cs : List Char} {value n : Nat} (hvalue : value < 18446744073709551616)
    (h : extend? value cs = some n) :
    (∀ c ∈ cs, c.isDigit = true) ∧ Nat.ofDigitChars 10 cs value = n ∧
      n < 18446744073709551616 := by
  induction cs generalizing value with
  | nil => exact ⟨nofun, Option.some.inj h, Option.some.inj h ▸ hvalue⟩
  | cons c rest ih =>
    obtain ⟨d, hd, hrest⟩ := Option.bind_eq_some_iff.1 h
    obtain ⟨hdigit, rfl⟩ := isDigit_of_digitValue? hd
    dsimp only at hrest
    split at hrest
    next hnext =>
      obtain ⟨hdigits, hn, hfits⟩ := ih hnext hrest
      exact ⟨List.forall_mem_cons.2 ⟨hdigit, hdigits⟩, Nat.ofDigitChars_cons ▸ hn, hfits⟩
    next => cases hrest

/-- A natural number is read off digits, one at least, whose value fits. -/
theorem natural?_eq_some_iff {cs : List Char} {n : Nat} :
    natural? cs = some n ↔ cs ≠ [] ∧ (∀ c ∈ cs, c.isDigit = true) ∧
      Nat.ofDigitChars 10 cs 0 = n ∧ n < 18446744073709551616 := by
  cases cs with
  | nil => exact iff_of_false nofun fun h => h.1 rfl
  | cons c rest =>
    constructor
    · intro h
      exact ⟨List.cons_ne_nil c rest, of_extend? (by decide) h⟩
    · intro h
      obtain ⟨-, hdigits, rfl, hfits⟩ := h
      exact extend?_eq hdigits hfits

/-- The signs that digits may have, and what they make of the value of the digits. -/
inductive Signed : List Char → Nat → Int → Prop where
  | bare (n : Nat) : Signed [] n n
  | plus (n : Nat) : Signed ['+'] n n
  | minus (n : Nat) : Signed ['-'] n (-n)

theorem Signed.natAbs {sign : List Char} {n : Nat} {i : Int} (h : Signed sign n i) :
    i.natAbs = n := by
  cases h with
  | bare | plus => rfl
  | minus => exact Int.natAbs_neg _

theorem Signed.sign_eq {sign : List Char} {n : Nat} {i : Int} (h : Signed sign n i) :
    sign = [] ∨ sign = ['+'] ∨ sign = ['-'] := by
  cases h with
  | bare => exact Or.inl rfl
  | plus => exact Or.inr (Or.inl rfl)
  | minus => exact Or.inr (Or.inr rfl)

theorem natural?_of_map {digits : List Char} {f : Int → Int} {i : Int}
    (h : (natural? digits).map f = some i) : ∃ n : Nat, natural? digits = some n ∧ f n = i := by
  cases hn : natural? digits with
  | none =>
    rw [hn] at h
    cases h
  | some n =>
    rw [hn] at h
    exact ⟨n, rfl, Option.some.inj h⟩

theorem integer?_eq_some_iff {cs : List Char} {i : Int} :
    integer? cs = some i ↔
      ∃ sign digits n, cs = sign ++ digits ∧ Signed sign n i ∧ natural? digits = some n := by
  constructor
  · intro h
    unfold integer? at h
    split at h
    next digits =>
      obtain ⟨n, hn, rfl⟩ := natural?_of_map h
      exact ⟨['-'], digits, n, rfl, .minus n, hn⟩
    next digits =>
      obtain ⟨n, hn, rfl⟩ := natural?_of_map h
      exact ⟨['+'], digits, n, rfl, .plus n, hn⟩
    next =>
      obtain ⟨n, hn, rfl⟩ := natural?_of_map h
      exact ⟨[], cs, n, rfl, .bare n, hn⟩
  · intro h
    obtain ⟨sign, digits, n, rfl, hsign, hn⟩ := h
    cases hsign with
    | bare => rw [List.nil_append, integer?_of_isDigit (natural?_eq_some_iff.1 hn).2.1, hn]; rfl
    | plus => rw [List.singleton_append, integer?, hn]; rfl
    | minus => rw [List.singleton_append, integer?, hn]; rfl

/-- **What is read as a signed 64-bit numeral**: digits with a sign or without, whose number is in
range. -/
theorem int64?_eq_some_iff {cs : List Char} {n : Int64} :
    int64? cs = some n ↔
      ∃ sign digits, cs = sign ++ digits ∧ digits ≠ [] ∧ (∀ c ∈ digits, c.isDigit = true) ∧
        Signed sign (Nat.ofDigitChars 10 digits 0) n.toInt := by
  have hlow := n.le_toInt
  have hhigh := n.toInt_lt
  have hinteger : int64? cs = some n ↔ integer? cs = some n.toInt := by
    unfold int64? toInt64?
    constructor
    · intro h
      obtain ⟨i, hi, hn⟩ := Option.bind_eq_some_iff.1 h
      split at hn
      next hrange =>
        obtain rfl := Option.some.inj hn
        rw [hi, Int64.toInt_ofInt_of_le hrange.1 (Int.lt_add_one_of_le hrange.2)]
      next => cases hn
    · intro h
      rw [h, Option.bind_some, if_pos ⟨by unfold least64; omega, by unfold greatest64; omega⟩,
        Int64.ofInt_toInt]
  rw [hinteger, integer?_eq_some_iff]
  constructor
  · intro h
    obtain ⟨sign, digits, k, hcs, hsign, hk⟩ := h
    obtain ⟨hnonempty, hdigits, rfl, -⟩ := natural?_eq_some_iff.1 hk
    exact ⟨sign, digits, hcs, hnonempty, hdigits, hsign⟩
  · intro h
    obtain ⟨sign, digits, hcs, hnonempty, hdigits, hsign⟩ := h
    have hfits := hsign.natAbs
    exact ⟨sign, digits, _, hcs, hsign, natural?_eq_some_iff.2 ⟨hnonempty, hdigits, rfl, by omega⟩⟩

/-- A number may have a plus sign if it is not negative, and a minus sign if it is not positive. -/
theorem signed_natAbs_iff {sign : List Char} {i : Int} :
    Signed sign i.natAbs i ↔ (sign = [] ∨ sign = ['+']) ∧ 0 ≤ i ∨ sign = ['-'] ∧ i ≤ 0 := by
  constructor
  · intro h
    generalize hn : i.natAbs = n at h
    cases h with
    | bare => exact Or.inl ⟨Or.inl rfl, by omega⟩
    | plus => exact Or.inl ⟨Or.inr rfl, by omega⟩
    | minus => exact Or.inr ⟨rfl, by omega⟩
  · intro h
    rcases h with ⟨rfl | rfl, hi⟩ | ⟨rfl, hi⟩
    · have hsign := Signed.bare i.natAbs
      rwa [Int.natAbs_of_nonneg hi] at hsign
    · have hsign := Signed.plus i.natAbs
      rwa [Int.natAbs_of_nonneg hi] at hsign
    · have hsign := Signed.minus i.natAbs
      rwa [Int.ofNat_natAbs_of_nonpos hi, Int.neg_neg] at hsign

/-! ## Leading zeros -/

theorem toDigits_of_isDigit {c : Char} (h : c.isDigit = true) :
    Nat.toDigits 10 (c.toNat - '0'.toNat) = [c] := by
  have table : ∀ i : Fin 10, Nat.toDigits 10 i.val = [Char.ofNat (48 + i.val)] := by decide
  have hrange : 48 ≤ c.toNat ∧ c.toNat ≤ 57 := Char.isDigit_iff_toNat.1 h
  have hback : 48 + (c.toNat - '0'.toNat) = c.toNat := by
    show 48 + (c.toNat - 48) = c.toNat
    omega
  have hc := table ⟨c.toNat - '0'.toNat, by show c.toNat - 48 < 10; omega⟩
  rwa [hback, Char.ofNat_toNat] at hc

/-- Digits behind those of a positive number are digits of the number that they make together. -/
theorem toDigits_ofDigitChars {cs : List Char} (hdigits : ∀ c ∈ cs, c.isDigit = true) {value : Nat}
    (hvalue : 0 < value) :
    Nat.toDigits 10 (Nat.ofDigitChars 10 cs value) = Nat.toDigits 10 value ++ cs := by
  induction cs generalizing value with
  | nil => rw [Nat.ofDigitChars_nil, List.append_nil]
  | cons c rest ih =>
    obtain ⟨hc, hrest⟩ := List.forall_mem_cons.1 hdigits
    have hrange : 48 ≤ c.toNat ∧ c.toNat ≤ 57 := Char.isDigit_iff_toNat.1 hc
    have hdigit : c.toNat - '0'.toNat < 10 := by
      show c.toNat - 48 < 10
      omega
    rw [Nat.ofDigitChars_cons, ih hrest (by omega),
      ← Nat.toDigits_append_toDigits (by decide) hvalue hdigit, toDigits_of_isDigit hc,
      List.append_assoc, List.singleton_append]

/-- Digits are the digits of their value behind some zeros. -/
theorem exists_zeros {cs : List Char} (hnonempty : cs ≠ []) (hdigits : ∀ c ∈ cs, c.isDigit = true) :
    ∃ zeros, cs = List.replicate zeros '0' ++ Nat.toDigits 10 (Nat.ofDigitChars 10 cs 0) := by
  induction cs with
  | nil => exact absurd rfl hnonempty
  | cons c rest ih =>
    obtain ⟨hc, hrest⟩ := List.forall_mem_cons.1 hdigits
    have hvalue : Nat.ofDigitChars 10 (c :: rest) 0 =
        Nat.ofDigitChars 10 rest (c.toNat - '0'.toNat) := by
      rw [Nat.ofDigitChars_cons, Nat.mul_zero, Nat.zero_add]
    rw [hvalue]
    by_cases hzero : c.toNat - '0'.toNat = 0
    · have hsame := toDigits_of_isDigit hc
      rw [hzero] at hsame ⊢
      obtain rfl : '0' = c := List.singleton_inj.1 hsame
      by_cases hend : rest = []
      · exact ⟨0, by rw [hend]; rfl⟩
      · obtain ⟨zeros, hzeros⟩ := ih hend hrest
        exact ⟨zeros + 1, by rw [List.replicate_succ, List.cons_append, ← hzeros]⟩
    · refine ⟨0, ?_⟩
      rw [toDigits_ofDigitChars hrest (Nat.pos_of_ne_zero hzero), toDigits_of_isDigit hc]
      rfl

theorem ofDigitChars_zeros (zeros : Nat) (cs : List Char) :
    Nat.ofDigitChars 10 (List.replicate zeros '0' ++ cs) 0 = Nat.ofDigitChars 10 cs 0 := by
  induction zeros with
  | zero => rfl
  | succ zeros ih =>
    rw [List.replicate_succ, List.cons_append, Nat.ofDigitChars_cons]
    exact ih

/-- **The numerals of a number**: a sign that fits, any zeros, and its digits. -/
theorem int64?_eq_some_iff_zeros {cs : List Char} {n : Int64} :
    int64? cs = some n ↔
      ∃ sign zeros, Signed sign n.toInt.natAbs n.toInt ∧
        cs = sign ++ (List.replicate zeros '0' ++ Nat.toDigits 10 n.toInt.natAbs) := by
  rw [int64?_eq_some_iff]
  constructor
  · intro h
    obtain ⟨sign, digits, rfl, hnonempty, hdigits, hsign⟩ := h
    obtain ⟨zeros, hzeros⟩ := exists_zeros hnonempty hdigits
    rw [hsign.natAbs]
    exact ⟨sign, zeros, hsign, congrArg (sign ++ ·) hzeros⟩
  · intro h
    obtain ⟨sign, zeros, hsign, rfl⟩ := h
    refine ⟨sign, _, rfl, ?_, ?_, ?_⟩
    · exact List.append_ne_nil_of_right_ne_nil _ Nat.toDigits_ne_nil
    · intro c hc
      rcases List.mem_append.1 hc with hzero | hdigit
      · rw [List.eq_of_mem_replicate hzero]
        rfl
      · exact toDigits_isDigit _ c hdigit
    · rw [ofDigitChars_zeros, Nat.ofDigitChars_toDigits (by decide) (by decide)]
      exact hsign

end ObjectRegistry.Text.Numeral

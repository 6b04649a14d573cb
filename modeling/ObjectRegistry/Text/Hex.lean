/-!
# Bytes in hexadecimal

A byte is written as two digits, the high half first, in lower case. Reading accepts digits of
either case and needs an even number of them.

Reading what was written gives the bytes back (`decode?_encode`), and what is read as some bytes is
what was written for them, but for the case of its letters (`decode?_eq_some_iff`).
-/

namespace ObjectRegistry.Text.Hex

/-- The digit for a half byte, `0` to `9` and then `a` to `f`. -/
def digit (n : Nat) : Char :=
  if n < 10 then Char.ofNat (48 + n) else Char.ofNat (87 + n)

/-- The value of a digit of either case. -/
def digitValue? (c : Char) : Option Nat :=
  let n := c.toNat
  if 48 ≤ n ∧ n ≤ 57 then some (n - 48)
  else if 97 ≤ n ∧ n ≤ 102 then some (n - 87)
  else if 65 ≤ n ∧ n ≤ 70 then some (n - 55)
  else none

/-- The two digits of a byte. -/
def pair (b : UInt8) : List Char :=
  [digit (b.toNat / 16), digit (b.toNat % 16)]

/-- The digits of a run of bytes. -/
def digits (bytes : List UInt8) : List Char :=
  bytes.flatMap pair

/-- A run of bytes in lower-case hexadecimal. -/
def encode (bytes : List UInt8) : String :=
  String.ofList (digits bytes)

/-- The bytes that a run of digits spells, two digits a byte. -/
def ofDigits? : List Char → Option (List UInt8)
  | [] => some []
  | [_] => none
  | hi :: lo :: rest => do
    let h ← digitValue? hi
    let l ← digitValue? lo
    let bytes ← ofDigits? rest
    return UInt8.ofNat (16 * h + l) :: bytes

/-- The bytes that a text spells in hexadecimal, if it is nothing but that. -/
def decode? (text : String) : Option (List UInt8) :=
  ofDigits? text.toList

theorem digitValue?_digit {n : Nat} (h : n < 16) : digitValue? (digit n) = some n := by
  have table : ∀ i : Fin 16, digitValue? (digit i.val) = some i.val := by decide
  exact table ⟨n, h⟩

theorem ofDigits?_digits (bytes : List UInt8) : ofDigits? (digits bytes) = some bytes := by
  induction bytes with
  | nil => rfl
  | cons b rest ih =>
    have hi : b.toNat / 16 < 16 := by have := b.toNat_lt; omega
    have lo : b.toNat % 16 < 16 := Nat.mod_lt _ (by decide)
    have whole : 16 * (b.toNat / 16) + b.toNat % 16 = b.toNat := by omega
    have split : digits (b :: rest) =
        digit (b.toNat / 16) :: digit (b.toNat % 16) :: digits rest := rfl
    rw [split, ofDigits?, digitValue?_digit hi, digitValue?_digit lo, ih]
    simp only [Option.bind_eq_bind, Option.bind_some, whole, UInt8.ofNat_toNat]
    rfl

/-- Reading what was written gives the bytes back. -/
theorem decode?_encode (bytes : List UInt8) : decode? (encode bytes) = some bytes := by
  simp [decode?, encode, ofDigits?_digits]

/-! ## What is read as hexadecimal -/

theorem lt_of_digitValue? {c : Char} {n : Nat} (h : digitValue? c = some n) : c.toNat < 128 := by
  unfold digitValue? at h
  grind

theorem toNat_toLower (c : Char) :
    c.toLower.toNat = if 65 ≤ c.toNat ∧ c.toNat ≤ 90 then c.toNat + 32 else c.toNat := by
  have hupper : (c.val ≥ 'A'.val ∧ c.val ≤ 'Z'.val) ↔ 65 ≤ c.toNat ∧ c.toNat ≤ 90 := Iff.rfl
  unfold Char.toLower
  by_cases h : 65 ≤ c.toNat ∧ c.toNat ≤ 90
  · rw [dif_pos (hupper.2 h), if_pos h]
    show (c.val.toNat + 32) % 4294967296 = c.val.toNat + 32
    have : c.val.toNat ≤ 90 := h.2
    omega
  · rw [dif_neg (fun hc => h (hupper.1 hc)), if_neg h]

/-- A digit of either case has the value for which its lower case is the digit. -/
theorem digitValue?_eq_some_iff {c : Char} {n : Nat} :
    digitValue? c = some n ↔ n < 16 ∧ c.toLower = digit n := by
  constructor
  · intro h
    have table : ∀ i : Fin 128, (digitValue? (Char.ofNat i)).all
        (fun n => n < 16 && (Char.ofNat i).toLower == digit n) = true := by decide
    have hc := table ⟨c.toNat, lt_of_digitValue? h⟩
    rw [Char.ofNat_toNat, h, Option.all_some, Bool.and_eq_true, decide_eq_true_iff,
      beq_iff_eq] at hc
    exact hc
  · intro h
    have hsame : digitValue? c.toLower = digitValue? c := by
      unfold digitValue?
      simp only [toNat_toLower]
      grind
    rw [← hsame, h.2, digitValue?_digit h.1]

theorem digits_cons (b : UInt8) (bytes : List UInt8) :
    digits (b :: bytes) = digit (b.toNat / 16) :: digit (b.toNat % 16) :: digits bytes := rfl

theorem ofDigits?_eq_some_iff {cs : List Char} {bytes : List UInt8} :
    ofDigits? cs = some bytes ↔ cs.map Char.toLower = digits bytes := by
  induction cs using ofDigits?.induct generalizing bytes with
  | case1 =>
    cases bytes with
    | nil => exact ⟨fun _ => rfl, fun _ => rfl⟩
    | cons b rest => exact iff_of_false nofun nofun
  | case2 c =>
    refine iff_of_false nofun fun h => ?_
    cases bytes with
    | nil => cases h
    | cons b rest => cases (List.cons.inj h).2
  | case3 hi lo rest ih =>
    constructor
    · intro h
      obtain ⟨high, hhigh, h⟩ := Option.bind_eq_some_iff.1 h
      obtain ⟨low, hlow, h⟩ := Option.bind_eq_some_iff.1 h
      obtain ⟨more, hmore, h⟩ := Option.bind_eq_some_iff.1 h
      obtain rfl := Option.some.inj h
      obtain ⟨hhigh, hhi⟩ := digitValue?_eq_some_iff.1 hhigh
      obtain ⟨hlow, hlo⟩ := digitValue?_eq_some_iff.1 hlow
      have hbyte : (UInt8.ofNat (16 * high + low)).toNat = 16 * high + low := by
        rw [UInt8.toNat_ofNat']
        exact Nat.mod_eq_of_lt (by omega)
      have hdiv : (16 * high + low) / 16 = high := by omega
      have hmod : (16 * high + low) % 16 = low := by omega
      rw [digits_cons, hbyte, hdiv, hmod, List.map_cons, List.map_cons, ih.1 hmore, hhi, hlo]
    · intro h
      cases bytes with
      | nil => cases h
      | cons b more =>
        rw [digits_cons, List.map_cons, List.map_cons] at h
        obtain ⟨hhi, h⟩ := List.cons.inj h
        obtain ⟨hlo, h⟩ := List.cons.inj h
        have hlt := b.toNat_lt
        have hbyte : 16 * (b.toNat / 16) + b.toNat % 16 = b.toNat := by omega
        rw [ofDigits?, digitValue?_eq_some_iff.2 ⟨by omega, hhi⟩,
          digitValue?_eq_some_iff.2 ⟨by omega, hlo⟩, ih.2 h]
        simp only [Option.bind_eq_bind, Option.bind_some, hbyte, UInt8.ofNat_toNat]
        rfl

/-- **What spells some bytes** is their spelling in lower case, but for the case of its letters. -/
theorem decode?_eq_some_iff {text : String} {bytes : List UInt8} :
    decode? text = some bytes ↔ text.toList.map Char.toLower = (encode bytes).toList := by
  rw [decode?, ofDigits?_eq_some_iff, encode, String.toList_ofList]

end ObjectRegistry.Text.Hex

import ObjectRegistry.Proofs.Tokens

/-!
# The grammar of tokens

A token comes from outside, so any text may stand where one is expected. Which texts are accepted is
stated here without the readers: digits by the two alphabets that they stand in, bytes by two digits
each, a text by its UTF-8, and a position by what stands on the two sides of the first colon. Each
reader is shown to accept its own part of the grammar and nothing else
(`Hex.ofDigits?_eq_some_iff_spells`, `Cursor.ofText?_eq_some_iff_names`), so together they accept
the tokens of the grammar and nothing else (`Cursor.decode_exact`).

The readers stop at the first fault, and every fault is the same refusal. So it does not matter
where a text leaves the grammar.
-/

namespace ObjectRegistry

/-! ## Bytes in digits of either case -/

namespace Text.Hex

/-- The digits of both cases. -/
def alphabet : List Char := "0123456789abcdefABCDEF".toList

/-- A digit stands at its value among the digits of its case. -/
def Digit (c : Char) (value : Nat) : Prop :=
  "0123456789abcdef".toList[value]? = some c ∨ "0123456789ABCDEF".toList[value]? = some c

instance (c : Char) (value : Nat) : Decidable (Digit c value) :=
  inferInstanceAs (Decidable (_ ∨ _))

/-- Digits spell bytes if there are two for each byte, the one for the high half first. -/
inductive Spells : List Char → List UInt8 → Prop where
  | nil : Spells [] []
  | cons {hi lo : Char} {rest : List Char} {b : UInt8} {bytes : List UInt8}
      (high : Digit hi (b.toNat / 16)) (low : Digit lo (b.toNat % 16)) (more : Spells rest bytes) :
      Spells (hi :: lo :: rest) (b :: bytes)

theorem Digit.lt {c : Char} {value : Nat} (h : Digit c value) : value < 16 := by
  rcases h with h | h
  · exact (List.getElem?_eq_some_iff.1 h).1
  · exact (List.getElem?_eq_some_iff.1 h).1

theorem digitValue?_eq_some_iff_digit {c : Char} {value : Nat} :
    digitValue? c = some value ↔ Digit c value := by
  constructor
  · intro h
    have table : ∀ i : Fin 128, (digitValue? (Char.ofNat i)).all
        (fun n => decide (Digit (Char.ofNat i) n)) = true := by decide
    have hc := table ⟨c.toNat, lt_of_digitValue? h⟩
    rw [Char.ofNat_toNat, h, Option.all_some] at hc
    exact of_decide_eq_true hc
  · intro h
    have lower : ∀ i : Fin 16, ("0123456789abcdef".toList[i.val]?).all
        (fun d => digitValue? d == some i.val) = true := by decide
    have upper : ∀ i : Fin 16, ("0123456789ABCDEF".toList[i.val]?).all
        (fun d => digitValue? d == some i.val) = true := by decide
    have hlt := h.lt
    rcases h with h | h
    · have hd := lower ⟨value, hlt⟩
      rw [h, Option.all_some] at hd
      exact beq_iff_eq.1 hd
    · have hd := upper ⟨value, hlt⟩
      rw [h, Option.all_some] at hd
      exact beq_iff_eq.1 hd

theorem mem_alphabet_iff {c : Char} : c ∈ alphabet ↔ ∃ value, Digit c value := by
  constructor
  · intro h
    have table : alphabet.all (fun d => decide (∃ i : Fin 16, Digit d i)) = true := by decide
    obtain ⟨i, hi⟩ := of_decide_eq_true (List.all_eq_true.1 table c h)
    exact ⟨i, hi⟩
  · intro h
    obtain ⟨value, h⟩ := h
    have lower : "0123456789abcdef".toList.all (· ∈ alphabet) = true := by decide
    have upper : "0123456789ABCDEF".toList.all (· ∈ alphabet) = true := by decide
    rcases h with h | h
    · exact of_decide_eq_true (List.all_eq_true.1 lower c (List.mem_of_getElem? h))
    · exact of_decide_eq_true (List.all_eq_true.1 upper c (List.mem_of_getElem? h))

/-- **The reader of digits** accepts what spells bytes, and answers these bytes. -/
theorem ofDigits?_eq_some_iff_spells {cs : List Char} {bytes : List UInt8} :
    ofDigits? cs = some bytes ↔ Spells cs bytes := by
  constructor
  · intro h
    induction cs using ofDigits?.induct generalizing bytes with
    | case1 =>
      cases h
      exact .nil
    | case2 c => cases h
    | case3 hi lo rest ih =>
      obtain ⟨high, hhigh, h⟩ := Option.bind_eq_some_iff.1 h
      obtain ⟨low, hlow, h⟩ := Option.bind_eq_some_iff.1 h
      obtain ⟨more, hmore, h⟩ := Option.bind_eq_some_iff.1 h
      obtain rfl := Option.some.inj h
      rw [digitValue?_eq_some_iff_digit] at hhigh hlow
      have hhigh' := hhigh.lt
      have hlow' := hlow.lt
      have hbyte : (UInt8.ofNat (16 * high + low)).toNat = 16 * high + low := by
        rw [UInt8.toNat_ofNat']
        exact Nat.mod_eq_of_lt (by omega)
      refine .cons ?_ ?_ (ih hmore)
      · rwa [hbyte, show (16 * high + low) / 16 = high by omega]
      · rwa [hbyte, show (16 * high + low) % 16 = low by omega]
  · intro h
    induction h with
    | nil => rfl
    | @cons hi lo rest b bytes high low _ ih =>
      have hlt := b.toNat_lt
      have hbyte : 16 * (b.toNat / 16) + b.toNat % 16 = b.toNat := by omega
      rw [ofDigits?, digitValue?_eq_some_iff_digit.2 high, digitValue?_eq_some_iff_digit.2 low, ih]
      simp only [Option.bind_eq_bind, Option.bind_some, hbyte, UInt8.ofNat_toNat]
      rfl

/-- What spells bytes is an even number of digits. -/
theorem Spells.digits {cs : List Char} {bytes : List UInt8} (h : Spells cs bytes) :
    cs.length = 2 * bytes.length ∧ ∀ c ∈ cs, c ∈ alphabet := by
  induction h with
  | nil => exact ⟨rfl, nofun⟩
  | cons high low _ ih =>
    obtain ⟨hlength, hdigits⟩ := ih
    refine ⟨by simp only [List.length_cons]; omega, ?_⟩
    exact List.forall_mem_cons.2 ⟨mem_alphabet_iff.2 ⟨_, high⟩,
      List.forall_mem_cons.2 ⟨mem_alphabet_iff.2 ⟨_, low⟩, hdigits⟩⟩

end Text.Hex

/-! ## The numeral of a time -/

namespace Text.Numeral

/-- A numeral of an integer: one or more ASCII digits, behind a plus sign, a minus sign or none. -/
def Names (numeral : List Char) (i : Int) : Prop :=
  ∃ sign digits, numeral = sign ++ digits ∧ digits ≠ [] ∧ (∀ c ∈ digits, c.isDigit = true) ∧
    Signed sign (Nat.ofDigitChars 10 digits 0) i

end Text.Numeral

/-! ## Positions in a text -/

namespace Cursor

open Text

/-- A text names a position if a numeral of its time stands before the first colon and its id, which
is not empty, behind it. -/
structure Names (text : String) (time : Int) (id : String) : Prop where
  front : Numeral.Names (text.toList.takeWhile (· != ':')) time
  behind : text.toList.dropWhile (· != ':') = ':' :: id.toList
  id_ne : id ≠ ""

/-- **The reader of a text** accepts what names a position, and answers this position. -/
theorem ofText?_eq_some_iff_names {text : String} {c : Cursor} :
    ofText? text = some c ↔ Names text c.createTime.toInt c.id := by
  rw [ofText?_eq_some_iff]
  constructor
  · intro h
    obtain ⟨hid, time, htime, htext⟩ := h
    obtain ⟨htake, hdrop⟩ := split_at_colon (colon_not_mem_of_int64? htime) c.id.toList
    rw [← htext] at htake hdrop
    exact ⟨htake ▸ Numeral.int64?_eq_some_iff.1 htime, hdrop, hid⟩
  · intro h
    refine ⟨h.id_ne, _, Numeral.int64?_eq_some_iff.2 h.front, ?_⟩
    rw [← h.behind, List.takeWhile_append_dropWhile]

/-- A token of the grammar, for a time and an id: an even number of digits, which spell the UTF-8 of
a text that names the two, where the time lies within the signed 64-bit range. -/
structure Denotes (token : String) (time : Int) (id : String) : Prop where
  even : token.length % 2 = 0
  digits : ∀ c ∈ token.toList, c ∈ Hex.alphabet
  text : ∃ text, Hex.Spells token.toList (Text.bytes text) ∧ Names text time id
  low : Int64.minValue.toInt ≤ time
  high : time ≤ Int64.maxValue.toInt

theorem decode?_eq_some_iff_denotes {token : String} {c : Cursor} :
    decode? token = some c ↔ Denotes token c.createTime.toInt c.id := by
  constructor
  · intro h
    obtain ⟨bytes, hbytes, h⟩ := Option.bind_eq_some_iff.1 h
    obtain ⟨text, htext, h⟩ := Option.bind_eq_some_iff.1 h
    rw [← Text.ofBytes?_eq_some_iff.1 htext] at hbytes
    have hspells := Hex.ofDigits?_eq_some_iff_spells.1 hbytes
    obtain ⟨hlength, hdigits⟩ := hspells.digits
    have hlow := c.createTime.le_toInt
    have hhigh := c.createTime.toInt_lt
    refine ⟨?_, hdigits, ⟨text, hspells, ofText?_eq_some_iff_names.1 h⟩, ?_, ?_⟩
    · rw [← String.length_toList]
      omega
    · rw [Int64.toInt_minValue]
      omega
    · rw [Int64.toInt_maxValue]
      omega
  · intro h
    obtain ⟨text, hspells, hnames⟩ := h.text
    have hbytes : Hex.decode? token = some (Text.bytes text) :=
      Hex.ofDigits?_eq_some_iff_spells.2 hspells
    unfold decode?
    rw [hbytes]
    show (Text.ofBytes? (Text.bytes text)).bind ofText? = some c
    rw [Text.ofBytes?_bytes]
    exact ofText?_eq_some_iff_names.2 hnames

/-- **Exactly the tokens of the grammar are accepted.** A text is read as a position if and only if
it is a token for the time and the id of that position; it is read at all if and only if it is a
token for some time and id; and every other text is refused, in one and the same way. -/
theorem decode_exact (token : String) :
    (∀ c, decode token = .ok c ↔ Denotes token c.createTime.toInt c.id) ∧
    ((∃ c, decode token = .ok c) ↔ ∃ time id, Denotes token time id) ∧
    (∀ e, decode token = .error e ↔
      e = .argument .malformedToken ∧ ¬ ∃ time id, Denotes token time id) ∧
    Error.message (.argument .malformedToken) = "Invalid argument: Invalid pagination cursor" := by
  have hposition : ∀ c, decode token = .ok c ↔ Denotes token c.createTime.toInt c.id := fun c =>
    decode_eq_ok_iff_decode?.trans decode?_eq_some_iff_denotes
  have haccepted : (∃ c, decode token = .ok c) ↔ ∃ time id, Denotes token time id := by
    constructor
    · intro h
      obtain ⟨c, hc⟩ := h
      exact ⟨_, _, (hposition c).1 hc⟩
    · intro h
      obtain ⟨time, id, h⟩ := h
      have hlow := h.low
      have hhigh := h.high
      rw [Int64.toInt_minValue] at hlow
      rw [Int64.toInt_maxValue] at hhigh
      -- a time in range is that of a position
      have htime : (Int64.ofInt time).toInt = time :=
        Int64.toInt_ofInt_of_le (by omega) (by omega)
      exact ⟨⟨Int64.ofInt time, id⟩, (hposition _).2 (by rwa [htime])⟩
  refine ⟨hposition, haccepted, fun e => ?_, rfl⟩
  rw [← haccepted]
  unfold decode
  cases decode? token with
  | none =>
    constructor
    · intro h
      exact ⟨(Except.error.inj h).symm, nofun⟩
    · intro h
      rw [h.1]
  | some c => exact iff_of_false nofun fun h => h.2 ⟨c, rfl⟩

/-- A second sign, a sign without digits, a number past the range, no id, an odd digit, and bytes
that are no UTF-8 are refused. -/
example :
    ["2d2d313a61", "2b3a61", "393232333337323033363835343737353830383a61", "313a", "313a6",
      "313aff"].map decode = List.replicate 6 (.error (.argument .malformedToken)) :=
  rfl

end Cursor

end ObjectRegistry

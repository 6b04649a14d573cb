import ObjectRegistry.Cursor
import ObjectRegistry.Proofs.Numerals

/-!
# Tokens of positions

The token of a position spells its time, a colon and its id. What is read is more than what is
written: letters of either case, and a time with a plus sign, with zeros in front, or with a minus
sign if it is nought. Nothing else is accepted for a position (`Cursor.decode_eq_ok_iff`), so
reading a token and writing it again is a normal form of tokens (`Cursor.normal_form`).

The id may hold colons itself; the time does not, so the first colon is the one between them
(`Cursor.split_at_colon`). An id that is empty is written but not read.
-/

namespace ObjectRegistry.Cursor

open Text

/-! ## The text of a token -/

/-- A time without a colon is what comes before the first colon, and the id is what follows it. -/
theorem split_at_colon {time : List Char} (h : ':' ∉ time) (id : List Char) :
    (time ++ ':' :: id).takeWhile (· != ':') = time ∧
      (time ++ ':' :: id).dropWhile (· != ':') = ':' :: id := by
  have htime : ∀ x ∈ time, (x != ':') = true := fun x hx =>
    bne_iff_ne.2 fun hcolon => h (hcolon ▸ hx)
  rw [List.takeWhile_append_of_pos htime, List.dropWhile_append_of_pos htime]
  exact ⟨by simp, rfl⟩

/-- No numeral holds a colon. -/
theorem colon_not_mem_of_int64? {time : List Char} {n : Int64}
    (h : Numeral.int64? time = some n) : ':' ∉ time := by
  obtain ⟨sign, digits, rfl, -, hdigits, hsign⟩ := Numeral.int64?_eq_some_iff.1 h
  intro hcolon
  rcases List.mem_append.1 hcolon with hmem | hmem
  · rcases hsign.sign_eq with rfl | rfl | rfl
    · cases hmem
    · exact absurd (List.mem_singleton.1 hmem) (by decide)
    · exact absurd (List.mem_singleton.1 hmem) (by decide)
  · exact absurd (hdigits ':' hmem) (by decide)

/-- A position is read off a numeral for its time, a colon and its id. -/
theorem ofText?_eq_some_iff {text : String} {c : Cursor} :
    ofText? text = some c ↔ c.id ≠ "" ∧
      ∃ time, Numeral.int64? time = some c.createTime ∧
        text.toList = time ++ ':' :: c.id.toList := by
  constructor
  · intro h
    have hwhole : text.toList.takeWhile (· != ':') ++ text.toList.dropWhile (· != ':') =
        text.toList := List.takeWhile_append_dropWhile
    have hcolon := List.head?_dropWhile_not (· != ':') text.toList
    unfold ofText? at h
    dsimp only at h
    split at h
    next colon first rest hdrop =>
      obtain ⟨time, htime, h⟩ := Option.bind_eq_some_iff.1 h
      obtain rfl := Option.some.inj h
      rw [hdrop] at hwhole hcolon
      obtain rfl : colon = ':' := by simpa using hcolon
      refine ⟨fun hempty => ?_, _, htime, ?_⟩
      · have hnil : (String.ofList (first :: rest)).toList = [] := congrArg String.toList hempty
        rw [String.toList_ofList] at hnil
        cases hnil
      · show text.toList = _ ++ ':' :: (String.ofList (first :: rest)).toList
        rw [String.toList_ofList]
        exact hwhole.symm
    next => cases h
  · intro h
    obtain ⟨hid, time, htime, htext⟩ := h
    obtain ⟨htake, hdrop⟩ := split_at_colon (colon_not_mem_of_int64? htime) c.id.toList
    unfold ofText?
    simp only [htext, htake, hdrop, htime]
    cases hlist : c.id.toList with
    | nil => exact absurd (String.toList_eq_nil_iff.1 hlist) hid
    | cons first rest =>
      have hback : String.ofList (first :: rest) = c.id := by
        rw [← hlist, String.ofList_toList]
      show some (Cursor.mk c.createTime (String.ofList (first :: rest))) = some c
      rw [hback]

theorem toList_text (c : Cursor) :
    c.text.toList = (Numeral.ofInt64 c.createTime).toList ++ ':' :: c.id.toList := by
  simp [text]

theorem split_text (c : Cursor) :
    c.text.toList.takeWhile (· != ':') = (Numeral.ofInt64 c.createTime).toList ∧
      c.text.toList.dropWhile (· != ':') = ':' :: c.id.toList := by
  rw [toList_text]
  exact split_at_colon (colon_not_mem_of_int64? (Numeral.int64?_ofInt64 c.createTime)) c.id.toList

/-- Different positions have different texts, also if they have no id. -/
theorem text_injective : Function.Injective text := by
  intro c d h
  obtain ⟨htake, hdrop⟩ := split_text c
  obtain ⟨htake', hdrop'⟩ := split_text d
  rw [h] at htake hdrop
  have htime := congrArg Numeral.int64? (htake.symm.trans htake')
  rw [Numeral.int64?_ofInt64, Numeral.int64?_ofInt64, Option.some.injEq] at htime
  have hid := String.toList_inj.1 (List.cons.inj (hdrop.symm.trans hdrop')).2
  cases c
  cases d
  rw [Cursor.mk.injEq]
  exact ⟨htime, hid⟩

/-! ## The token of a text -/

/-- The token that spells a time and an id. -/
def spelling (time : List Char) (id : String) : String :=
  Hex.encode (Text.bytes (String.ofList time ++ ":" ++ id))

theorem encode_eq_spelling (c : Cursor) :
    c.encode = spelling (Numeral.ofInt64 c.createTime).toList c.id := by
  rw [spelling, String.ofList_toList]
  rfl

theorem decode_eq_ok_iff_decode? {token : String} {c : Cursor} :
    decode token = .ok c ↔ decode? token = some c := by
  unfold decode
  cases decode? token with
  | none => exact iff_of_false nofun nofun
  | some found => rw [Except.ok.injEq, Option.some.injEq]

/-- **What is read as a position** is a spelling of its id behind a numeral of its time, in letters
of either case. -/
theorem decode_eq_ok_iff {token : String} {c : Cursor} :
    decode token = .ok c ↔ c.id ≠ "" ∧
      ∃ time, Numeral.int64? time = some c.createTime ∧
        token.toList.map Char.toLower = (spelling time c.id).toList := by
  rw [decode_eq_ok_iff_decode?]
  constructor
  · intro h
    obtain ⟨bytes, hbytes, h⟩ := Option.bind_eq_some_iff.1 h
    obtain ⟨text, htext, h⟩ := Option.bind_eq_some_iff.1 h
    obtain ⟨hid, time, htime, hlist⟩ := ofText?_eq_some_iff.1 h
    have hwhole : text = String.ofList time ++ ":" ++ c.id := by
      apply String.toList_inj.1
      simp [hlist]
    rw [← Text.ofBytes?_eq_some_iff.1 htext, hwhole] at hbytes
    exact ⟨hid, time, htime, Hex.decode?_eq_some_iff.1 hbytes⟩
  · intro h
    obtain ⟨hid, time, htime, hspelled⟩ := h
    unfold decode?
    rw [Hex.decode?_eq_some_iff.2 hspelled]
    show (Text.ofBytes? _).bind ofText? = some c
    rw [Text.ofBytes?_bytes]
    exact ofText?_eq_some_iff.2 ⟨hid, time, htime, by simp⟩

/-- From a token the text is read that it was made of. -/
theorem decode?_encode (c : Cursor) : decode? c.encode = ofText? c.text := by
  rw [decode?, encode, Hex.decode?_encode]
  show (Text.ofBytes? (Text.bytes c.text)).bind ofText? = ofText? c.text
  rw [Text.ofBytes?_bytes, Option.bind_some]

/-- **A token is read back** as the position that it was made of. -/
theorem decode_encode {c : Cursor} (h : c.id ≠ "") : decode c.encode = .ok c := by
  rw [decode_eq_ok_iff_decode?, decode?_encode]
  exact ofText?_eq_some_iff.2 ⟨h, _, Numeral.int64?_ofInt64 _, toList_text c⟩

/-- The token of a position without an id is refused. -/
theorem decode_encode_of_empty {c : Cursor} (h : c.id = "") :
    decode c.encode = .error (.argument .malformedToken) := by
  unfold decode
  cases hread : decode? c.encode with
  | none => rfl
  | some found =>
    -- what follows the first colon would have to be an id
    rw [decode?_encode] at hread
    obtain ⟨hid, time, htime, htext⟩ := ofText?_eq_some_iff.1 hread
    have hdrop := (split_at_colon (colon_not_mem_of_int64? htime) found.id.toList).2
    rw [← htext, (split_text c).2, h] at hdrop
    exact absurd (String.toList_eq_nil_iff.1 (List.cons.inj hdrop).2.symm) hid

/-- Different positions have different tokens. -/
theorem encode_injective : Function.Injective encode := by
  intro c d h
  have hbytes := congrArg Hex.decode? h
  rw [encode, encode, Hex.decode?_encode, Hex.decode?_encode, Option.some.injEq] at hbytes
  have htext := congrArg Text.ofBytes? hbytes
  rw [Text.ofBytes?_bytes, Text.ofBytes?_bytes, Option.some.injEq] at htext
  exact text_injective htext

/-! ## Tokens in normal form -/

/-- A token read and written again. -/
def rewritten (token : String) : Except Error String := (decode token).map encode

theorem rewritten_eq_ok_iff {token written : String} :
    rewritten token = .ok written ↔ ∃ c, decode token = .ok c ∧ c.encode = written := by
  unfold rewritten
  cases decode token with
  | error e => exact iff_of_false nofun fun ⟨_, h, _⟩ => nomatch h
  | ok c =>
    constructor
    · intro h
      exact ⟨c, rfl, Except.ok.inj h⟩
    · intro h
      obtain ⟨d, hd, rfl⟩ := h
      rw [Except.ok.inj hd]
      rfl

/-- **Reading a token and writing it again is a normal form.** A position is read back from its
token if it has an id, and its token is refused if it has none; either way no other position has
this token. Writing what was read gives a token of the same position, which stays as it is when it
is read and written again; and two tokens that are read denote one position if and only if they
become one token. What is read as a position spells its time, a colon and its id in hexadecimal
letters of either case, where the time may have a plus sign if it is not negative, any zeros in
front, and a minus sign if it is nought. The token of a position has none of these. -/
theorem normal_form :
    (∀ c : Cursor, decode c.encode =
      if c.id = "" then .error (.argument .malformedToken) else .ok c) ∧
    Function.Injective encode ∧
    (∀ token c, decode token = .ok c → decode c.encode = .ok c) ∧
    (∀ token written, rewritten token = .ok written →
      decode written = decode token ∧ rewritten written = .ok written) ∧
    (∀ token token' written written', rewritten token = .ok written →
      rewritten token' = .ok written' → (decode token = decode token' ↔ written = written')) ∧
    (∀ token (c : Cursor), decode token = .ok c ↔ c.id ≠ "" ∧ ∃ sign zeros,
      ((sign = [] ∨ sign = ['+']) ∧ 0 ≤ c.createTime.toInt ∨
        sign = ['-'] ∧ c.createTime.toInt ≤ 0) ∧
      token.toList.map Char.toLower = (spelling (sign ++ (List.replicate zeros '0' ++
        Nat.toDigits 10 c.createTime.toInt.natAbs)) c.id).toList) ∧
    ∀ c : Cursor, c.encode = spelling ((if c.createTime.toInt < 0 then ['-'] else []) ++
      Nat.toDigits 10 c.createTime.toInt.natAbs) c.id := by
  have hback : ∀ {token c}, decode token = .ok c → decode c.encode = .ok c :=
    fun h => decode_encode (decode_eq_ok_iff.1 h).1
  refine ⟨fun c => ?_, encode_injective, fun token c => hback, ?again, ?same, ?form, ?written⟩
  · split
    next hid => exact decode_encode_of_empty hid
    next hid => exact decode_encode hid
  case again =>
    intro token written h
    obtain ⟨c, hc, rfl⟩ := rewritten_eq_ok_iff.1 h
    exact ⟨(hback hc).trans hc.symm, rewritten_eq_ok_iff.2 ⟨c, hback hc, rfl⟩⟩
  case same =>
    intro token token' written written' h h'
    obtain ⟨c, hc, rfl⟩ := rewritten_eq_ok_iff.1 h
    obtain ⟨d, hd, rfl⟩ := rewritten_eq_ok_iff.1 h'
    rw [hc, hd, encode_injective.eq_iff, Except.ok.injEq]
  case form =>
    intro token c
    rw [decode_eq_ok_iff]
    refine and_congr_right fun _ => ?_
    constructor
    · intro h
      obtain ⟨time, htime, hspelled⟩ := h
      obtain ⟨sign, zeros, hsign, rfl⟩ := Numeral.int64?_eq_some_iff_zeros.1 htime
      exact ⟨sign, zeros, Numeral.signed_natAbs_iff.1 hsign, hspelled⟩
    · intro h
      obtain ⟨sign, zeros, hsign, hspelled⟩ := h
      exact ⟨_, Numeral.int64?_eq_some_iff_zeros.2
        ⟨sign, zeros, Numeral.signed_natAbs_iff.2 hsign, rfl⟩, hspelled⟩
  case written =>
    intro c
    rw [encode_eq_spelling, Numeral.toList_ofInt64]
    split
    next hnonneg =>
      rw [if_neg (Int.not_lt.2 hnonneg), List.nil_append,
        show c.createTime.toInt.toNat = c.createTime.toInt.natAbs by omega]
    next hneg =>
      rw [if_pos (Int.not_le.1 hneg), List.singleton_append,
        show (-c.createTime.toInt).toNat = c.createTime.toInt.natAbs by omega]

/-- Two spellings of one position become one token, which is that of the position; a minus sign goes
with nought alone. -/
theorem normal_form_spellings :
    rewritten "2B3030373a613A39" = .ok "373a613a39" ∧
      rewritten "373A613A39" = .ok "373a613a39" ∧
      decode "2B3030373a613A39" = decode "373A613A39" ∧
      rewritten "373a613a39" = .ok "373a613a39" ∧
      rewritten "2d303a78" = .ok "303a78" := by
  obtain ⟨-, -, -, hagain, hsame, -, -⟩ := normal_form
  have hone : rewritten "2B3030373a613A39" = .ok "373a613a39" := rfl
  have htwo : rewritten "373A613A39" = .ok "373a613a39" := rfl
  exact ⟨hone, htwo, (hsame _ _ _ _ hone htwo).2 rfl, (hagain _ _ hone).2, rfl⟩

end ObjectRegistry.Cursor

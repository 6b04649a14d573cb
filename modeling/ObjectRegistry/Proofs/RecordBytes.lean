import ObjectRegistry.Proofs.Writes

/-!
# Stored bytes read back

The bytes of a record are four fields, one after the other, none of which needs to look past its
own end. A reader `Delimits` its field if it undoes the writer in front of any further bytes, and if
it comes to an unexpected end as soon as a byte of the field is missing behind the others. Fields
that are delimited stay so one after the other (`Delimits.bind`): bytes that end inside two fields
end inside the first, or hold the first and end inside the second. So a record is delimited by its
reader as each of its fields is (`delimits`).

What is stored is therefore read back whatever follows it, and is never mistaken for another record
when its end is lost (`read_whole_or_refused`). That no encoding starts with another one follows
from the first half alone: it would be read as both.
-/

namespace ObjectRegistry.Record

/-! ## Numbers in bytes -/

theorem length_littleEndian (width n : Nat) : (littleEndian width n).length = width := by
  induction width generalizing n with
  | zero => rfl
  | succ width ih => rw [littleEndian, List.length_cons, ih]

/-- A number that fits into a width is denoted by its bytes in that width. -/
theorem ofLittleEndian_littleEndian {width n : Nat} (h : n < Nat.pow 256 width) :
    ofLittleEndian (littleEndian width n) = n := by
  induction width generalizing n with
  | zero =>
    have hzero : n = 0 := by simpa using h
    rw [hzero]
    rfl
  | succ width ih =>
    have hrest : n / 256 < Nat.pow 256 width := by
      rw [Nat.div_lt_iff_lt_mul (by decide)]
      exact h
    have hbyte : (UInt8.ofNat (n % 256)).toNat = n % 256 := by
      rw [UInt8.toNat_ofNat']
      omega
    rw [littleEndian, ofLittleEndian, ih hrest, hbyte]
    omega

/-! ## Readers and the fields they read -/

variable {α β : Type}

/-- A reader takes exactly the bytes of a field: in front of any other bytes it reads what they
stand for, and where some of them are missing it comes to the end. -/
structure Delimits (read : List UInt8 → Except RecordFault β) (field : List UInt8)
    (answer : List UInt8 → β) : Prop where
  whole : ∀ rest, read (field ++ rest) = .ok (answer rest)
  cut : ∀ front lost, field = front ++ lost → lost ≠ [] → read front = .error .unexpectedEnd

/-- A field behind a field, where the second reader may depend on what the first one read. -/
theorem Delimits.bind {read : FieldReader α} {field : List UInt8} {value : α}
    (h : Delimits read field fun rest => (value, rest))
    {next : α × List UInt8 → Except RecordFault β} {behind : List UInt8}
    {answer : List UInt8 → β}
    (hnext : Delimits (fun rest => next (value, rest)) behind answer) :
    Delimits (fun bytes => read bytes >>= next) (field ++ behind) answer where
  whole rest := by
    rw [List.append_assoc, h.whole]
    exact hnext.whole rest
  cut front lost hsplit hlost := by
    rcases List.append_eq_append_iff.1 hsplit with ⟨more, rfl, hbehind⟩ | ⟨missing, hfield, rfl⟩
    · -- the first field is there, so the end is inside the second
      rw [h.whole]
      exact hnext.cut more lost hbehind hlost
    · by_cases hmissing : missing = []
      · -- the bytes end between the two fields
        rw [hmissing, List.append_nil] at hfield
        rw [hmissing, List.nil_append] at hlost
        have hfirst := h.whole []
        rw [List.append_nil, hfield] at hfirst
        rw [hfirst]
        exact hnext.cut [] behind rfl hlost
      · rw [h.cut front missing hfield hmissing]
        rfl

/-- What is made of a field without reading on. -/
theorem Delimits.map {read : FieldReader α} {field : List UInt8} {value : α}
    (h : Delimits read field fun rest => (value, rest))
    {f : α × List UInt8 → Except RecordFault β} {answer : List UInt8 → β}
    (hf : ∀ rest, f (value, rest) = .ok (answer rest)) :
    Delimits (fun bytes => read bytes >>= f) field answer where
  whole rest := by
    rw [h.whole]
    exact hf rest
  cut front lost hsplit hlost := by
    rw [h.cut front lost hsplit hlost]
    rfl

/-- Where no byte is read, none can be missing. -/
theorem Delimits.nothing (answer : List UInt8 → β) :
    Delimits (fun rest => .ok (answer rest)) [] answer where
  whole _ := rfl
  cut _ _ hsplit hlost := absurd (List.append_eq_nil_iff.1 hsplit.symm).2 hlost

/-- A byte that decides how the rest is read. -/
theorem Delimits.cons {read next : List UInt8 → Except RecordFault β} {b : UInt8}
    {field : List UInt8} {answer : List UInt8 → β} (h : Delimits next field answer)
    (hread : ∀ rest, read (b :: rest) = next rest) (hnil : read [] = .error .unexpectedEnd) :
    Delimits read (b :: field) answer where
  whole rest := (hread (field ++ rest)).trans (h.whole rest)
  cut front lost hsplit hlost := by
    cases front with
    | nil => exact hnil
    | cons first front =>
      obtain ⟨rfl, hrest⟩ := List.cons.inj hsplit
      exact (hread front).trans (h.cut front lost hrest hlost)

/-! ## Fields -/

/-- A number of bytes is taken from that many, and not from fewer. -/
theorem takeBytes_delimits (field : List UInt8) :
    Delimits (takeBytes field.length) field fun rest => (field, rest) where
  whole rest := by
    unfold takeBytes
    rw [if_pos (by simp)]
    simp
  cut front lost hsplit hlost := by
    have hlength := congrArg List.length hsplit
    have hpos := List.length_pos_of_ne_nil hlost
    rw [List.length_append] at hlength
    unfold takeBytes
    rw [if_neg (by omega)]

/-- A number of an announced width is read from the bytes of that width. -/
theorem wide_delimits (width : Nat) {n : Nat} (h : n < Nat.pow 256 width) :
    Delimits (decodeNat.wide width) (littleEndian width n) fun rest => (n, rest) := by
  have htake := takeBytes_delimits (littleEndian width n)
  rw [length_littleEndian] at htake
  refine htake.map fun rest => ?_
  show Except.ok (ofLittleEndian (littleEndian width n), rest) = _
  rw [ofLittleEndian_littleEndian h]

/-- A number is read in the width that its first byte announces, if it is not that byte itself. -/
theorem decodeNat_delimits {n : Nat} (h : n < 18446744073709551616) :
    Delimits decodeNat (encodeNat n) fun rest => (n, rest) := by
  unfold encodeNat
  split
  next hsmall =>
    have hbyte : (UInt8.ofNat n).toNat = n := by
      rw [UInt8.toNat_ofNat']
      omega
    have hlt : UInt8.ofNat n < 251 := by
      rw [UInt8.lt_iff_toNat_lt, hbyte]
      exact hsmall
    refine (Delimits.nothing fun rest => (n, rest)).cons (fun rest => ?_) rfl
    rw [decodeNat, if_pos hlt, hbyte]
  next =>
    split
    next h2 => exact (wide_delimits 2 h2).cons (fun _ => rfl) rfl
    next =>
      split
      next h4 => exact (wide_delimits 4 h4).cons (fun _ => rfl) rfl
      next => exact (wide_delimits 8 h).cons (fun _ => rfl) rfl

theorem fold_lt (n : Int64) : fold n < 18446744073709551616 := by
  have hlow := n.le_toInt
  have hhigh := n.toInt_lt
  unfold fold
  split <;> omega

/-- Folding a signed number loses nothing. -/
theorem unfold_fold (n : Int64) : unfold (fold n) = n := by
  apply Int64.toInt_inj.1
  have hlow := n.le_toInt
  have hhigh := n.toInt_lt
  by_cases hsign : 0 ≤ n.toInt
  · have heven : 2 * n.toInt.toNat % 2 = 0 := by omega
    rw [fold, if_pos hsign, unfold, if_pos heven]
    rw [Int64.toInt_ofInt_of_le (by omega) (by omega)]
    omega
  · have hodd : ¬ (2 * (-n.toInt - 1).toNat + 1) % 2 = 0 := by omega
    rw [fold, if_neg hsign, unfold, if_neg hodd]
    rw [Int64.toInt_ofInt_of_le (by omega) (by omega)]
    omega

theorem decodeInt_delimits (n : Int64) :
    Delimits decodeInt (encodeInt n) fun rest => (n, rest) := by
  refine (decodeNat_delimits (fold_lt n)).map fun rest => ?_
  show Except.ok (unfold (fold n), rest) = _
  rw [unfold_fold]

/-- A text is read as its length and then its bytes. -/
theorem decodeText_delimits {text : String} (h : text.utf8ByteSize < textBound) :
    Delimits decodeText (encodeText text) fun rest => (text, rest) := by
  have hlength : text.utf8ByteSize < 18446744073709551616 := Nat.lt_trans h (by decide)
  have hbody := takeBytes_delimits (Text.bytes text)
  rw [Text.length_bytes] at hbody
  refine (decodeNat_delimits hlength).bind ?_
  simp only [if_neg (Nat.not_le.2 h)]
  refine hbody.map fun rest => ?_
  simp only [Text.ofBytes?_bytes]
  rfl

/-! ## Records -/

variable {record : Record}

/-- **A record is delimited** as its four fields are. -/
theorem delimits (h : record.Holdable) : Delimits decode record.encode fun _ => record := by
  obtain ⟨hbucket, hhash⟩ := h
  exact (decodeText_delimits hbucket).bind ((decodeInt_delimits record.createTime).bind
    ((decodeText_delimits hhash).bind ((decodeInt_delimits record.size).map fun _ => rfl)))

theorem decode_encode (h : record.Holdable) : decode record.encode = .ok record := by
  have hwhole := (delimits h).whole []
  rwa [List.append_nil] at hwhole

/-- No encoding starts with the encoding of another record. -/
theorem eq_of_encode_prefix (h : record.Holdable) {other : Record} (hother : other.Holdable)
    (hstarts : record.encode <+: other.encode) : record = other := by
  obtain ⟨rest, hrest⟩ := hstarts
  have hread := (delimits h).whole rest
  rw [hrest, decode_encode hother] at hread
  exact (Except.ok.inj hread).symm

/-- **Stored bytes are read whole or refused.** Every store without a record under an id stores one
that fits into memory, as its encoding. From the encoding the record is read back, whatever follows
it, so no encoding starts with that of another record; and from bytes that an encoding starts with,
short of the encoding itself, no record is read, because they end inside a field. -/
theorem read_whole_or_refused (h : record.Holdable) :
    (∀ (s : Store) (id : String), ¬ s.records.contains id = true →
      ∃ s', s.write (Store.insert (record.named id)) = (.ok (), s') ∧
        s'.records.get? id = some record.encode) ∧
    (∀ rest, decode (record.encode ++ rest) = .ok record) ∧
    (∀ id rest, Store.readRecord id (record.encode ++ rest) = .ok (record.named id)) ∧
    (∀ other : Record, other.Holdable → record.encode <+: other.encode → record = other) ∧
    ∀ front, front <+: record.encode → front ≠ record.encode →
      decode front = .error .unexpectedEnd ∧
      ∀ id, Store.readRecord id front = .error (.storage (.unreadable .unexpectedEnd)) := by
  have hwhole := (delimits h).whole
  refine ⟨fun s id hfree => ?stored, hwhole, fun id rest => ?_, fun other hother =>
    eq_of_encode_prefix h hother, fun front hstarts hshort => ?cut⟩
  case stored =>
    have hhold : ¬ ¬ (record.named id).record.Holdable := not_not.2 h
    have hfree' : ¬ s.records.contains (record.named id).id = true := hfree
    refine ⟨s.adding (record.named id), ?_, Table.get?_insert_self _ _ _⟩
    rw [Store.write_insert, if_neg hhold, if_neg hfree']
  case cut =>
    obtain ⟨lost, hlost⟩ := hstarts
    have hsome : lost ≠ [] := fun hnil => hshort (by rw [← hlost, hnil, List.append_nil])
    have hcut := (delimits h).cut front lost hlost.symm hsome
    refine ⟨hcut, fun id => ?_⟩
    unfold Store.readRecord
    rw [hcut]
  · unfold Store.readRecord
    rw [hwhole]

/-- A bucket that starts with the byte of its own length, and the least time and the greatest size,
which are the numbers in the widest form. -/
def extreme : Record where
  bucket := "\x03é"
  createTime := Int64.minValue
  hash := ""
  size := Int64.maxValue

/-- Bytes behind the record are ignored, and it can do neither without its last byte nor without
everything behind its bucket. -/
theorem read_whole_or_refused_extreme :
    extreme.Holdable ∧ decode (extreme.encode ++ [253, 0]) = .ok extreme ∧
      decode extreme.encode.dropLast = .error .unexpectedEnd ∧
      Store.readRecord "a" [3, 3, 195, 169] =
        .error (.storage (.unreadable .unexpectedEnd)) := by
  have hhold : extreme.Holdable := by decide
  obtain ⟨-, hwhole, -, -, hcut⟩ := read_whole_or_refused hhold
  exact ⟨hhold, hwhole _, (hcut _ (List.dropLast_prefix _) (by decide)).1,
    (hcut [3, 3, 195, 169] ⟨_, rfl⟩ (by decide)).2 "a"⟩

end ObjectRegistry.Record

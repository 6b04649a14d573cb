import ObjectRegistry.Resource
import ObjectRegistry.Text.Utf8

/-!
# The bytes of a record

A record is stored as bucket, creation time, hash and size, one after the other. A text is its
length in bytes and then its UTF-8; a signed number is folded into a natural one, so that small
numbers of either sign stay small; a natural number below 251 is one byte, and a greater one is a
byte that announces a width of two, four or eight bytes, followed by the number in that width with
the lowest byte first. Writing takes the least width that fits; reading takes any width, and
ignores what follows the record.
-/

namespace ObjectRegistry.Record

/-- The lowest `width` bytes of a number, the lowest first. -/
def littleEndian : Nat → Nat → List UInt8
  | 0, _ => []
  | width + 1, n => UInt8.ofNat (n % 256) :: littleEndian width (n / 256)

/-- The number that bytes denote, the lowest first. -/
def ofLittleEndian : List UInt8 → Nat
  | [] => 0
  | b :: rest => b.toNat + 256 * ofLittleEndian rest

/-- A natural number below 2 ^ 64 in the least of the four widths. -/
def encodeNat (n : Nat) : List UInt8 :=
  if n < 251 then [UInt8.ofNat n]
  else if n < 65536 then 251 :: littleEndian 2 n
  else if n < 4294967296 then 252 :: littleEndian 4 n
  else 253 :: littleEndian 8 n

/-- A signed number folded into a natural one: 0, -1, 1, -2, 2 become 0, 1, 2, 3, 4. -/
def fold (n : Int64) : Nat :=
  if 0 ≤ n.toInt then 2 * n.toInt.toNat else 2 * (-n.toInt - 1).toNat + 1

/-- The signed number folded into a natural one. -/
def unfold (n : Nat) : Int64 :=
  if n % 2 = 0 then Int64.ofInt (n / 2 : Nat) else Int64.ofInt (-((n / 2 : Nat) : Int) - 1)

/-- A text behind its length in bytes. -/
def encodeText (text : String) : List UInt8 :=
  encodeNat text.utf8ByteSize ++ Text.bytes text

/-- A signed number, folded. -/
def encodeInt (n : Int64) : List UInt8 :=
  encodeNat (fold n)

/-- The stored bytes of a record. -/
def encode (record : Record) : List UInt8 :=
  encodeText record.bucket ++ (encodeInt record.createTime ++
    (encodeText record.hash ++ encodeInt record.size))

/-- One byte more than a text can have in any memory. -/
def textBound : Nat := 9223372036854775808

/-- The texts of a record fit into memory, as every text at hand does. -/
def Holdable (record : Record) : Prop :=
  record.bucket.utf8ByteSize < textBound ∧ record.hash.utf8ByteSize < textBound

instance (record : Record) : Decidable record.Holdable :=
  inferInstanceAs (Decidable (_ ∧ _))

/-- A reader of a field answers the field and the bytes behind it. -/
abbrev FieldReader (α : Type) := List UInt8 → Except RecordFault (α × List UInt8)

/-- The next `n` bytes. -/
def takeBytes (n : Nat) : FieldReader (List UInt8) := fun bytes =>
  if n ≤ bytes.length then .ok (bytes.take n, bytes.drop n) else .error .unexpectedEnd

/-- A natural number in any width. -/
def decodeNat : FieldReader Nat
  | [] => .error .unexpectedEnd
  | b :: rest =>
    if b < 251 then .ok (b.toNat, rest)
    else if b = 251 then wide 2 rest
    else if b = 252 then wide 4 rest
    else if b = 253 then wide 8 rest
    else .error .invalidInteger
where
  /-- A number of the announced width. -/
  wide (width : Nat) (bytes : List UInt8) : Except RecordFault (Nat × List UInt8) := do
    let (digits, rest) ← takeBytes width bytes
    return (ofLittleEndian digits, rest)

/-- A text. Its length is believed before its bytes are looked at. -/
def decodeText : FieldReader String := fun bytes => do
  let (length, bytes) ← decodeNat bytes
  if textBound ≤ length then throw .unholdable
  let (body, bytes) ← takeBytes length bytes
  match Text.ofBytes? body with
  | some text => return (text, bytes)
  | none => throw .invalidText

/-- A signed number. -/
def decodeInt : FieldReader Int64 := fun bytes => do
  let (n, bytes) ← decodeNat bytes
  return (unfold n, bytes)

/-- The record at the front of stored bytes. -/
def decode (bytes : List UInt8) : Except RecordFault Record := do
  let (bucket, bytes) ← decodeText bytes
  let (createTime, bytes) ← decodeInt bytes
  let (hash, bytes) ← decodeText bytes
  let (size, _) ← decodeInt bytes
  return { bucket, createTime, hash, size }

end ObjectRegistry.Record

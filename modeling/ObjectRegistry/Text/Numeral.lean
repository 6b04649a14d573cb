/-!
# Decimal numerals

Numbers are written in decimal without leading zeros, a minus sign in front of a negative one.
Reading is more lenient: one optional sign, then one or more ASCII digits with any leading zeros,
denoting a number within the range asked for. A signed reader takes `+` and `-`, an unsigned one
takes `+` alone.
-/

namespace ObjectRegistry.Text.Numeral

/-- The value of an ASCII digit. -/
def digitValue? (c : Char) : Option Nat :=
  if 48 ≤ c.toNat ∧ c.toNat ≤ 57 then some (c.toNat - 48) else none

/-- The value of a run of digits read after the digits that gave `value`, if it fits 64 bits. -/
def extend? (value : Nat) : List Char → Option Nat
  | [] => some value
  | c :: rest => do
    let d ← digitValue? c
    let next := 10 * value + d
    if next < 18446744073709551616 then extend? next rest else none

/-- The number that one or more ASCII digits denote, if it fits 64 bits. -/
def natural? : List Char → Option Nat
  | [] => none
  | digits => extend? 0 digits

/-- The integer denoted by digits behind at most one sign, if its size fits 64 bits. -/
def integer? : List Char → Option Int
  | '-' :: digits => (natural? digits).map fun n => -(n : Int)
  | '+' :: digits => (natural? digits).map fun n => (n : Int)
  | digits => (natural? digits).map fun n => (n : Int)

/-- The natural number denoted by digits behind at most one plus sign, if it fits 64 bits. -/
def unsigned64? : List Char → Option Nat
  | '+' :: digits => natural? digits
  | digits => natural? digits

/-- The least signed 64-bit number. -/
def least64 : Int := -9223372036854775808

/-- The greatest signed 64-bit number. -/
def greatest64 : Int := 9223372036854775807

/-- An integer as a signed 64-bit number, if it is in range. -/
def toInt64? (i : Int) : Option Int64 :=
  if least64 ≤ i ∧ i ≤ greatest64 then some (Int64.ofInt i) else none

/-- A signed 64-bit numeral. -/
def int64? (text : List Char) : Option Int64 :=
  (integer? text).bind toInt64?

/-- An unsigned 32-bit numeral. -/
def uint32? (text : List Char) : Option UInt32 :=
  ((unsigned64? text).filter (· < 4294967296)).map UInt32.ofNat

/-- A signed 64-bit numeral within the range of the unsigned 32-bit numbers. -/
def countWithin32? (text : List Char) : Option UInt32 :=
  ((int64? text).filter fun n => 0 ≤ n.toInt ∧ n.toInt < 4294967296).map
    fun n => UInt32.ofNat n.toInt.toNat

/-- A signed 64-bit number in decimal. -/
def ofInt64 (n : Int64) : String :=
  toString n.toInt

end ObjectRegistry.Text.Numeral

import ObjectRegistry.Store.Draft

/-!
# Counters

A counter holds the last value that its sequence issued; a missing one counts as 0. Reserving a
block moves the counter by the length of the block. If the new counter would leave the signed
64-bit range, the sequence is exhausted and nothing moves.
-/

namespace ObjectRegistry

/-- A run of consecutive values, both ends included. -/
structure Block where
  first : Int64
  last : Int64
  deriving DecidableEq

/-- The values of a block in order. -/
def Block.values (b : Block) : List Int64 :=
  (List.range (b.last.toInt - b.first.toInt + 1).toNat).map fun k => b.first + Int64.ofNat k

/-- A sum, unless it leaves the signed 64-bit range. -/
def addWithin64? (x y : Int64) : Option Int64 :=
  Text.Numeral.toInt64? (x.toInt + y.toInt)

namespace Store

/-- Moves a counter by `count` and answers the values passed over. -/
def reserve (name : String) (count : Int64) : Draft (Ending Block) := do
  let sequences ← Draft.openSequences
  let current := (sequences.get? name).getD 0
  match addWithin64? current count with
  | none => Draft.fail (.exhausted name)
  | some last =>
    Draft.putSequences (sequences.insert name last)
    return .keep { first := last - count + 1, last }

/-- The last value that a sequence issued, if it issued any. -/
def counter (s : Store) (name : String) : Except Error (Option Int64) :=
  match s.sequences with
  | none => .error (.storage .missingTable)
  | some sequences => .ok (sequences.get? name)

/-- A store that answers reads of its counters is healthy. -/
def health (s : Store) : Except Error Unit :=
  match s.sequences with
  | none => .error (.storage .missingTable)
  | some _ => .ok ()

end Store

end ObjectRegistry

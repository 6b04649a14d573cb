import ObjectRegistry.IdFormat
import ObjectRegistry.Sequence

/-!
# Id generators

A generator mints ids from a sequence. It leases values a block at a time and hands them out one
by one, and leases again when none is left. A leased block is spent as far as the sequence is
concerned, so values that are never handed out become gaps and are not issued again.
-/

namespace ObjectRegistry

/-- A source of ids over one sequence. -/
structure Generator where
  sequence : String
  format : IdFormat
  /-- The number of values leased at a time. -/
  blockSize : UInt32
  /-- The limit on names that the sequence is allocated under. -/
  nameLimit : Nat
  /-- Values leased and not yet handed out, in order. -/
  lease : List Int64
  deriving DecidableEq

namespace Generator

open Method (self change)

/-- The number of values leased at a time unless a registry sets another. -/
def defaultBlockSize : UInt32 := 10

/-- The most values of one lease. -/
def greatestBlockSize : UInt32 := 1000

/-- A generator with nothing leased. The name is checked first, then the size, then the format. -/
def make (nameLimit : Nat) (sequence : String) (format : IdFormat) (blockSize : UInt32) :
    Except Error Generator := do
  if sequence.isEmpty ∨ nameLimit < sequence.utf8ByteSize then
    throw (.sequenceName (.unusable sequence))
  if blockSize = 0 ∨ greatestBlockSize < blockSize then
    throw (.argument .blockSizeOutOfRange)
  format.validate
  return { sequence, format, blockSize, nameLimit, lease := [] }

/-- Takes the first value off the lease, if there is one. -/
def pop : Method Generator (Option Int64) := do
  match (← self).lease with
  | [] => return none
  | value :: rest =>
    change fun g => { g with lease := rest }
    return some value

/-- The next value. If none is left, a block is leased first. -/
def nextValue : Method Generator Int64 := do
  match ← pop with
  | some value => return value
  | none =>
    let g ← self
    let block ← Sequence.allocateBlock g.nameLimit g.sequence g.blockSize
    change fun g => { g with lease := g.lease ++ block.values }
    match ← pop with
    | some value => return value
    | none => throw (.storage (.corrupt (.emptyLease g.sequence)))

/-- The next id, which is the next value in the format of the generator. -/
def nextId : Method Generator String := do
  let value ← nextValue
  return (← self).format.render value

/-- The next value and the generator behind it, for a generator that nobody keeps behind a
failure. -/
def next (g : Generator) : Access (Int64 × Generator) := nextValue.of g

end Generator

end ObjectRegistry

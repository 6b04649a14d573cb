import ObjectRegistry.Generator

/-!
# Minting

A run of ids is minted by a generator of its own, which leases as many values as there are ids, but
never more at a time than a lease holds. So a run of up to 1000 ids leaves no gap in its sequence.
-/

namespace ObjectRegistry.Registry

/-- The number of values leased at a time for a number of ids. -/
def leaseFor (count : UInt32) : UInt32 :=
  if count = 0 then 1
  else if count ≤ Generator.greatestBlockSize then count
  else Generator.greatestBlockSize

/-- Draws `n` further ids, behind those drawn before, which are in reverse. -/
def drawIds : Nat → List String → Generator → Access (List String)
  | 0, drawn, _ => return drawn.reverse
  | n + 1, drawn, g => do
    let (id, g) ← Generator.nextId.of g
    drawIds n (id :: drawn) g

/-- The ids made of the next values of a sequence. -/
def mint (nameLimit : Nat) (sequence : String) (format : IdFormat) (count : UInt32) :
    Access (List String) := do
  let g ← Access.check (Generator.make nameLimit sequence format (leaseFor count))
  drawIds count.toNat [] g

end ObjectRegistry.Registry

import ObjectRegistry.Generator

/-!
# Limits

What may differ from one registry to the next: how long the name of a sequence may be, and how many
values a generator leases at a time unless it is told otherwise.
-/

namespace ObjectRegistry

/-- The limits under which a registry is opened. -/
structure Limits where
  /-- The greatest length of a sequence name in bytes. -/
  nameLimit : Nat
  /-- The number of values a generator leases at a time. -/
  blockSize : UInt32
  deriving DecidableEq

/-- The limits of a registry that sets none. -/
def Limits.standard : Limits where
  nameLimit := Sequence.defaultNameLimit
  blockSize := Generator.defaultBlockSize

end ObjectRegistry

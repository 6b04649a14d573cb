import ObjectRegistry.Backing
import ObjectRegistry.Store.Counters

/-!
# Sequences

A sequence hands out unique, strictly increasing numbers under a name. One that was never used
starts behind 0, so its first value is 1. Nothing is remembered outside the storage: every value
handed out is one write.

A name must not be empty and must not exceed the registry's limit, counted in bytes. A block has
at least one value. Both are checked, the name first, before the storage is touched.
-/

namespace ObjectRegistry.Sequence

/-- The greatest length of a name in bytes unless a registry sets another. -/
def defaultNameLimit : Nat := 64

/-- The fault of a name, under a limit on its bytes. -/
def nameFault? (nameLimit : Nat) (name : String) : Option NameFault :=
  if name.isEmpty then some .empty
  else if nameLimit < name.utf8ByteSize then some (.tooLong nameLimit)
  else none

/-- Refuses a name that is empty or too long. -/
def checkName (nameLimit : Nat) (name : String) : Except Error Unit :=
  match nameFault? nameLimit name with
  | some fault => .error (.sequenceName fault)
  | none => .ok ()

/-- Refuses a block without values. -/
def checkCount (count : UInt32) : Except Error Unit :=
  if count = 0 then .error (.argument .emptyBlock) else .ok ()

/-- Reserves the next `count` values for the caller alone. -/
def allocateBlock (nameLimit : Nat) (name : String) (count : UInt32) : Access Block := do
  Access.check (checkName nameLimit name)
  Access.check (checkCount count)
  Access.write (Store.reserve name (Int64.ofNat count.toNat))

/-- Hands out the next value. -/
def allocateNext (nameLimit : Nat) (name : String) : Access Int64 := do
  return (← allocateBlock nameLimit name 1).last

/-- The last value handed out, if any was. -/
def current (nameLimit : Nat) (name : String) : Access (Option Int64) := do
  Access.check (checkName nameLimit name)
  Access.read fun store => store.counter name

end ObjectRegistry.Sequence

import ObjectRegistry.Command
import ObjectRegistry.Command.Reply
import ObjectRegistry.Limits
import ObjectRegistry.Registry.Mint

/-!
# Performing commands

A command is an operation on the storage of a registry. It is given the present time and, if it
reads a file, the content of that file.
-/

namespace ObjectRegistry.Command

/-- The position that a listing starts behind. -/
def startPosition : Option String → Except Error (Option Cursor)
  | none => .ok none
  | some token => (Cursor.decode token).map some

/-- Does what a command says. -/
def perform (limits : Limits) (now : Int64) (content : ByteArray) : Command → Access Reply
  | .migrate => fun backing => (.ok (.migrated backing.backend), backing)
  | .health => do
    Registry.health
    return .healthy
  | .allocate name count =>
    return .block name (← Sequence.allocateBlock limits.nameLimit name count)
  | .peek name => return .counter name (← Sequence.current limits.nameLimit name)
  | .mint sequence count format =>
    return .ids (← Registry.mint limits.nameLimit sequence format count)
  | .register _ registration => do
    let registered ← Registry.register limits.nameLimit now content registration
    return .registered registered.resource registered.reused
  | .create id bucket hash size createTime =>
    return .created
      (← Registry.create { id, bucket, createTime := createTime.getD now, hash, size })
  | .get id => return .found id (← Registry.get id)
  | .findHash hash => return .matching (← (Walk.along ⟨.hash, hash⟩ 0).collect)
  | .list bucket after limit => do
    let after ← Access.check (startPosition after)
    return .page (← Registry.page ⟨.bucket, bucket⟩ { after, limit })
  | .delete id => return .deleted id (← Registry.delete id)
  | .purge cutoff => return .purged (← Registry.purge cutoff)

end ObjectRegistry.Command

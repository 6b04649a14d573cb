import ObjectRegistry.Registry.Register

/-!
# Commands

What the program can be told to do with a registry in one run.
-/

namespace ObjectRegistry

/-- A command to the program. -/
inductive Command where
  /-- Makes sure that the tables exist, which opening the registry has done. -/
  | migrate
  | health
  | allocate (name : String) (count : UInt32)
  | peek (name : String)
  | mint (sequence : String) (count : UInt32) (format : IdFormat)
  /-- Registers the content of a file. -/
  | register (file : String) (registration : Registry.Registration)
  /-- Records a resource, created now unless a time is given. -/
  | create (id bucket hash : String) (size : Int64) (createTime : Option Int64)
  | get (id : String)
  | findHash (hash : String)
  /-- One page of a bucket, behind the position that a token denotes. -/
  | list (bucket : String) (after : Option String) (limit : UInt32)
  | delete (id : String)
  | purge (cutoff : Int64)
  deriving DecidableEq

/-- The file that a command reads, if it reads one. -/
def Command.file? : Command → Option String
  | .register file _ => some file
  | _ => none

end ObjectRegistry

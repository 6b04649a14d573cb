import ObjectRegistry.Digest
import ObjectRegistry.IdFormat
import ObjectRegistry.Sequence
import ObjectRegistry.Walk

/-!
# Registering content

Content is registered under its hash. If the bucket has a resource with that hash, the earliest one
stands for the content; otherwise, or if duplicates are allowed, the content becomes a resource of
its own, with an id from a sequence. A value drawn for an id stays drawn when the id turns out to be
taken.
-/

namespace ObjectRegistry.Registry

/-- Where content is registered, and how its id is made. -/
structure Registration where
  bucket : String
  sequence : String
  format : IdFormat
  allowDuplicate : Bool
  deriving DecidableEq

/-- The resource that stands for content. -/
structure Registered where
  resource : Resource
  /-- Whether the bucket had it before. -/
  reused : Bool
  deriving DecidableEq

/-- The resource that has stood for content before, unless a duplicate is allowed. -/
def earlier (registration : Registration) (hash : String) : Access (Option Resource) :=
  if registration.allowDuplicate then return none
  else findDuplicate registration.bucket hash

/-- Registers content at the present time. -/
def register (nameLimit : Nat) (now : Int64) (content : ByteArray) (registration : Registration) :
    Access Registered := do
  let hash := Digest.contentHash content
  match ← earlier registration hash with
  | some resource => return { resource, reused := true }
  | none =>
    let value ← Sequence.allocateNext nameLimit registration.sequence
    let resource ← create {
      id := registration.format.render value
      bucket := registration.bucket
      createTime := now
      hash
      size := Int64.ofNat content.size }
    return { resource, reused := false }

end ObjectRegistry.Registry

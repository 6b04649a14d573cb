import ObjectRegistry.Limits
import ObjectRegistry.Store.Edit
import ObjectRegistry.Walk

/-!
# What a session is told and what it answers

The alphabet of a session: allocations, generators and walks kept under names, operations on
resources, and edits that go past every check. Each step has one answer.
-/

namespace ObjectRegistry

/-- Where a listing starts: at a position, or at the position that a token denotes. -/
inductive Start where
  | beginning
  | behind (cursor : Cursor)
  | token (text : String)

/-- A series of resources that differ in their number: id, creation time and size follow it. -/
structure Series where
  idPrefix : String
  /-- The number in the first id. -/
  first : Nat
  count : Nat
  /-- The least number of digits in an id. -/
  pad : Nat
  bucket : String
  hash : String
  time : Int64
  timeStep : Int64

/-- One step of a session. -/
inductive Step where
  | allocateNext (name : String)
  | allocateBlock (name : String) (count : UInt32)
  | current (name : String)
  | nameLimit
  /-- As many callers at once, each of which is handed one value. -/
  | allocateTogether (name : String) (callers : Nat)
  /-- Builds a generator; without a block size, with that of the registry. -/
  | makeGenerator (as : String) (sequence : String) (format : IdFormat)
      (blockSize : Option UInt32)
  | shareGenerator (name as : String)
  | dropGenerator (name : String)
  | nextValues (name : String) (times : Nat)
  | nextIds (name : String) (times : Nat)
  | create (r : Resource)
  /-- Creates a resource with the present time, whatever time it carries. -/
  | createNow (r : Resource)
  | createSeries (series : Series)
  /-- As many callers at once, each of which creates a resource under one id. -/
  | createTogether (id : String) (callers : Nat)
  | get (id : String)
  | delete (id : String)
  | purge (cutoff : Int64)
  | findDuplicate (bucket hash : String)
  | listAll (scope : Scope)
  | listPage (scope : Scope) (start : Start) (limit : UInt32)
  | beginWalk (as : String) (scope : Scope) (pageSize : UInt32)
  | copyWalk (name as : String)
  | resizeWalk (name : String) (pageSize : UInt32)
  | restartWalk (name : String)
  | walkOn (name : String)
  /-- Reads a walk to its end and forgets it. -/
  | collectWalk (name : String)
  | health
  | backend
  /-- Opens the store of the session once more while it is open. -/
  | openAgain
  /-- Closes the registry and opens its store again. -/
  | reopen (nameLimit : Option Nat) (blockSize : Option UInt32)
  | dump
  | reserve (name : String) (count : Int64)
  | counter (name : String)
  | insert (r : Resource)
  | storedPage (scope : Scope) (after : Option Cursor) (limit : UInt32)
  | putBytes (id : String) (bytes : List UInt8)
  | putEntry (axis : Axis) (entry : IndexEntry)
  | dropBytes (id : String)
  | dropTable (name : TableName)

/-- What a step that does not fail answers. -/
inductive Answer where
  | done
  | value (n : Int64)
  | maybeValue (n : Option Int64)
  | block (b : Block)
  | values (ns : List Int64)
  | length (n : Nat)
  | generator (sequence format : String)
  | existed (did : Bool)
  | ids (ids : List String)
  | resource (r : Resource)
  | maybeResource (r : Option Resource)
  | resources (rs : List Resource)
  /-- One page of a walk, or none if it is over. -/
  | maybeResources (rs : Option (List Resource))
  | page (p : Page)
  | created (count : Nat)
  | raced (created duplicates : Nat)
  | backend (b : Backend)
  | tables (sequences : SequenceTable) (resources : ResourceTable) (byHash byBucket : IndexTable)

/-- Why a step failed, and what it had done before. -/
inductive Failure where
  | error (e : Error)
  | afterValues (e : Error) (before : List Int64)
  | afterIds (e : Error) (before : List String)
  | afterCreating (e : Error) (count : Nat)
  | noSuchGenerator
  | noSuchWalk

end ObjectRegistry

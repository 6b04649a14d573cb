import ObjectRegistry.Store

/-!
# Write transactions

A write works on a draft of the store and decides itself how it ends: it keeps the draft, it gives
it up with an answer, or it fails. Only a draft that is kept replaces the store (`Store.write`);
otherwise the store stays as it was, down to which tables exist.
-/

namespace ObjectRegistry

/-- The end of a write that did not fail. -/
inductive Ending (α : Type) where
  /-- The draft becomes the store. -/
  | keep (answer : α)
  /-- The draft is forgotten. -/
  | discard (answer : α)

/-- A step of a write: it reads and changes the draft, or fails. -/
abbrev Draft (α : Type) := StateT Store (Except Error) α

namespace Draft

/-- Fails because of the storage. -/
def fail (fault : StorageFault) : Draft α :=
  throw (.storage fault)

/-- The counters, created if they are missing. -/
def openSequences : Draft SequenceTable := do
  let table := (← get).sequences.getD .empty
  modify fun s => { s with sequences := some table }
  return table

/-- The records, created if they are missing. -/
def openResources : Draft ResourceTable := do
  let table := (← get).resources.getD .empty
  modify fun s => { s with resources := some table }
  return table

/-- The index of an axis, created if it is missing. -/
def openIndex (axis : Axis) : Draft IndexTable := do
  let table := ((← get).index axis).getD .empty
  modify fun s =>
    match axis with
    | .hash => { s with byHash := some table }
    | .bucket => { s with byBucket := some table }
  return table

/-- Writes the counters. -/
def putSequences (table : SequenceTable) : Draft Unit :=
  modify fun s => { s with sequences := some table }

/-- Writes the records. -/
def putResources (table : ResourceTable) : Draft Unit :=
  modify fun s => { s with resources := some table }

/-- Writes the index of an axis. -/
def putIndex (axis : Axis) (table : IndexTable) : Draft Unit :=
  modify fun s =>
    match axis with
    | .hash => { s with byHash := some table }
    | .bucket => { s with byBucket := some table }

end Draft

/-- Runs a write. The store changes only if the write keeps its draft. -/
def Store.write (s : Store) (work : Draft (Ending α)) : Except Error α × Store :=
  match work.run s with
  | .ok (.keep answer, draft) => (.ok answer, draft)
  | .ok (.discard answer, _) => (.ok answer, s)
  | .error e => (.error e, s)

/-- A write that fails leaves no trace. -/
theorem Store.write_error {s : Store} {work : Draft (Ending α)} {e : Error}
    (h : (s.write work).1 = .error e) : (s.write work).2 = s := by
  unfold Store.write at *
  split at h <;> simp_all

end ObjectRegistry

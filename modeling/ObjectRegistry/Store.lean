import ObjectRegistry.Cursor
import ObjectRegistry.Table

/-!
# The store

Four tables, each in the order of its keys: the counters of the sequences by name, the bytes of
the records by id, and two indexes that list every record by its content hash and by its bucket.
An index has no values; its keys name a hash or bucket and a position, so that a walk along it
visits the records of one hash or bucket in the order of their positions.

A table may be missing, which is not the same as an empty one: reading a missing table fails, and
the first write to it creates it. Opening a store creates what is missing and plants the counters
that every store starts with (`Store.opened`).
-/

namespace ObjectRegistry

/-- The two ways in which resources are listed. -/
inductive Axis where
  | hash
  | bucket
  deriving DecidableEq

/-- The resources with one content hash, or those of one bucket. -/
structure Scope where
  axis : Axis
  key : String
  deriving DecidableEq

/-- What a record is listed under. -/
def Record.label (record : Record) : Axis → String
  | .hash => record.hash
  | .bucket => record.bucket

/-- An entry of an index: a position listed under a label. -/
structure IndexEntry where
  label : String
  position : Cursor
  deriving DecidableEq

/-- Entries are ordered by label, and by position under one label. -/
instance : TableKey IndexEntry :=
  TableKey.lex IndexEntry.label IndexEntry.position fun {x y} label position => by
    cases x; cases y; simp_all

/-- The counters of the sequences: the last value issued, by name. -/
abbrev SequenceTable := Table String Int64

/-- The bytes of the records, by id. -/
abbrev ResourceTable := Table String (List UInt8)

/-- A set of index entries. -/
abbrev IndexTable := Table IndexEntry Unit

/-- The tables of a registry, any of which may be missing. -/
structure Store where
  sequences : Option SequenceTable
  resources : Option ResourceTable
  byHash : Option IndexTable
  byBucket : Option IndexTable
  deriving DecidableEq

/-- The four tables by name. -/
inductive TableName where
  | sequences
  | resources
  | byHash
  | byBucket
  deriving DecidableEq

namespace Store

/-- The store of a file that was just created: no table exists. -/
def blank : Store where
  sequences := none
  resources := none
  byHash := none
  byBucket := none

/-- The index of an axis. -/
def index (s : Store) : Axis → Option IndexTable
  | .hash => s.byHash
  | .bucket => s.byBucket

/-- The counters that every store starts with. -/
def seeds : List (String × Int64) := [("image_bed", 3), ("test_id", 21)]

/-- Counters with the seeds that they lack. -/
def plantSeeds (sequences : SequenceTable) : SequenceTable :=
  seeds.foldl
    (fun planted seed =>
      if planted.contains seed.1 then planted else planted.insert seed.1 seed.2)
    sequences

/-- The store after opening it: every table exists, and so does every seeded counter. -/
def opened (s : Store) : Store where
  sequences := some (plantSeeds (s.sequences.getD .empty))
  resources := some (s.resources.getD .empty)
  byHash := some (s.byHash.getD .empty)
  byBucket := some (s.byBucket.getD .empty)

/-- A store opened for the first time. -/
def fresh : Store := blank.opened

end Store

end ObjectRegistry

/-!
# Failures

Every operation of the registry fails in one of four ways: the name of a sequence is refused, an
argument is refused, an id is taken, or the storage behind the registry does not serve the call.
"Not found" is no failure: lookups and removals answer with an `Option`.

A failure carries its cause. A refused argument and damaged tables are described in words by whoever
finds them, and the words that the registry has for them stand beside their types; all other wording
is in the `message` functions. A refusal (`Error.IsRefusal`) is decided by looking at the arguments
only, so it costs nothing.
-/

namespace ObjectRegistry

/-- Why the name of a sequence is refused. -/
inductive NameFault where
  | empty
  | tooLong (limit : Nat)
  /-- A generator cannot be built over this name. -/
  | unusable (name : String)
  deriving DecidableEq

/-- The wording of a refused sequence name. A generator's refusal repeats the name alone. -/
def NameFault.message : NameFault → String
  | .empty => "Sequence name must not be empty"
  | .tooLong limit => "Sequence name exceeds " ++ toString limit ++ " bytes"
  | .unusable name => name

/-- Why an argument is refused, in the words of whoever refuses it. -/
structure ArgumentFault where stated ::
  message : String
  deriving DecidableEq

namespace ArgumentFault

def emptyId : ArgumentFault := .stated "Resource id must not be empty"

def negativeCreateTime : ArgumentFault := .stated "create_time must not be negative"

def negativeSize : ArgumentFault := .stated "resource_size must not be negative"

def malformedToken : ArgumentFault := .stated "Invalid pagination cursor"

def emptyBlock : ArgumentFault := .stated "Block size must be at least 1"

def blockSizeOutOfRange : ArgumentFault := .stated "Block size must be within 1..=1000"

def emptyIdPrefix : ArgumentFault := .stated "Id prefix must not be empty"

def digestLengthOutOfRange : ArgumentFault := .stated "Digest length must be within 1..=64"

def missingServerUrl : ArgumentFault := .stated "DATABASE_URL is not set"

end ArgumentFault

/-- Why the bytes of a stored record cannot be read. -/
inductive RecordFault where
  /-- The bytes end inside a field. -/
  | unexpectedEnd
  /-- The bytes of a text field are no UTF-8. -/
  | invalidText
  /-- A number starts with a byte that announces no width. -/
  | invalidInteger
  /-- A text field claims more bytes than any memory can hold. -/
  | unholdable
  deriving DecidableEq

/-- The wording of an unreadable record. -/
def RecordFault.message : RecordFault → String
  | .unexpectedEnd => "the bytes end inside a field"
  | .invalidText => "a text field is not UTF-8"
  | .invalidInteger => "a number announces no width"
  | .unholdable => "a text field claims too many bytes"

/-- What is wrong with tables that contradict each other, in the words of whoever found it. -/
structure Damage where stated ::
  message : String
  deriving DecidableEq

namespace Damage

/-- An index names an id that has no record. -/
def danglingEntry (id : String) : Damage := .stated ("index entry without resource: " ++ id)

/-- A sequence answered a lease with no value in it. -/
def emptyLease (sequence : String) : Damage := .stated ("Empty block leased for " ++ sequence)

end Damage

/-- Why the storage does not serve a call. -/
inductive StorageFault where
  /-- The database server does not answer. -/
  | unreachable
  /-- A path does not lead to a database file. -/
  | unopenable
  /-- The file system refuses. -/
  | inputOutput (detail : String)
  /-- A table that is read does not exist. -/
  | missingTable
  /-- A record is too large to be written. -/
  | unwritable
  /-- The bytes of a record cannot be read. -/
  | unreadable (fault : RecordFault)
  /-- A sequence has no room for the values asked for. -/
  | exhausted (sequence : String)
  /-- The tables contradict each other. -/
  | corrupt (damage : Damage)
  /-- The tables lead a walk in a circle. -/
  | endlessWalk
  deriving DecidableEq

/-- The wording of a storage failure. -/
def StorageFault.message : StorageFault → String
  | .unreachable => "Postgres error: the server does not answer"
  | .unopenable => "Database error: the file cannot be opened as a database"
  | .inputOutput detail => "I/O error: " ++ detail
  | .missingTable => "Table error: the table does not exist"
  | .unwritable => "Serialization error: the record is too large"
  | .unreadable fault => "Deserialization error: " ++ fault.message
  | .exhausted sequence => "Sequence exhausted: " ++ sequence
  | .corrupt damage => "Corrupt record: " ++ damage.message
  | .endlessWalk => "Corrupt record: the index leads in a circle"

/-- A failed operation of the registry. -/
inductive Error where
  | sequenceName (fault : NameFault)
  | argument (fault : ArgumentFault)
  | duplicateId (id : String)
  | storage (fault : StorageFault)
  deriving DecidableEq

namespace Error

/-- The wording of a failure. -/
def message : Error → String
  | .sequenceName fault => "Invalid sequence name: " ++ fault.message
  | .argument fault => "Invalid argument: " ++ fault.message
  | .duplicateId id => "Duplicate resource id: " ++ id
  | .storage fault => "Storage unavailable: " ++ fault.message

/-- Whether the failure came from the storage. -/
def isStorage : Error → Bool
  | .storage _ => true
  | _ => false

/-- A refusal looks at the arguments alone. -/
def IsRefusal : Error → Prop
  | .sequenceName _ | .argument _ => True
  | .duplicateId _ | .storage _ => False

instance : DecidablePred IsRefusal
  | .sequenceName _ | .argument _ => .isTrue trivial
  | .duplicateId _ | .storage _ => .isFalse id

end Error

end ObjectRegistry

import ObjectRegistry.Command
import ObjectRegistry.Text.Numeral

/-!
# The words of a command line

Which commands there are, whether a command is about something named in front (its operand), which
options it knows, and what it needs to be given. An option has a value, except for the one that is
a mere switch; a value that the option cannot take is malformed.
-/

namespace ObjectRegistry

/-- Why a command line runs no command. -/
inductive Usage where
  /-- It asks for help. -/
  | help
  /-- It asks for the version of the program. -/
  | version
  /-- It says nothing. -/
  | nothing
  /-- It names a command that does not exist. -/
  | unknownCommand
  /-- It holds an argument that the command does not know. -/
  | unknownArgument
  /-- The command needs an argument that is not there. -/
  | missingArgument
  /-- An option, or the operand, has no value. -/
  | missingValue
  /-- A value is none that its option can have. -/
  | malformedValue
  /-- A switch has a value. -/
  | surplusValue
  /-- Two arguments cannot stand together. -/
  | conflict
  deriving DecidableEq

/-- Asking for help or for the version is no mistake. -/
def Usage.exitCode : Usage → UInt32
  | .help | .version => 0
  | _ => 2

/-- The names of the commands. -/
inductive Verb where
  | migrate
  | health
  | allocate
  | peek
  | mint
  | register
  | create
  | get
  | findHash
  | list
  | delete
  | purge
  deriving DecidableEq

/-- The options of the commands. -/
inductive Choice where
  | count
  /-- A label for ids, written in front of the numeral. -/
  | label
  /-- The number of digits of ids that are digests. -/
  | digest
  | bucket
  | sequence
  | allowDuplicate
  | id
  | hash
  | size
  | createTime
  | after
  | limit
  | before
  deriving DecidableEq

/-- What a command is about. -/
inductive Operand where
  | none
  | text
  | path
  deriving DecidableEq

namespace Choice

/-- The word for an option. -/
def word : Choice → String
  | .count => "count"
  | .label => "prefix"
  | .digest => "digest"
  | .bucket => "bucket"
  | .sequence => "sequence"
  | .allowDuplicate => "allow-duplicate"
  | .id => "id"
  | .hash => "hash"
  | .size => "size"
  | .createTime => "create-time"
  | .after => "after"
  | .limit => "limit"
  | .before => "before"

/-- Whether an option has no value. -/
def isSwitch : Choice → Bool
  | .allowDuplicate => true
  | _ => false

/-- Whether an option takes the next argument for its value whatever it is. -/
def isGreedy : Choice → Bool
  | .createTime => true
  | _ => false

end Choice

namespace Verb

/-- Every command, in the order in which help lists them. -/
def all : List Verb :=
  [migrate, health, allocate, peek, mint, register, create, get, findHash, list, delete, purge]

/-- The word for a command. -/
def word : Verb → String
  | .migrate => "migrate"
  | .health => "health"
  | .allocate => "allocate"
  | .peek => "peek"
  | .mint => "mint"
  | .register => "register"
  | .create => "create"
  | .get => "get"
  | .findHash => "find-hash"
  | .list => "list"
  | .delete => "delete"
  | .purge => "purge"

/-- The command that a word stands for. -/
def ofWord? (word : String) : Option Verb :=
  all.find? fun verb => verb.word == word

/-- What a command is about. -/
def operand : Verb → Operand
  | .migrate | .health | .create | .purge => .none
  | .allocate | .peek | .mint | .get | .findHash | .list | .delete => .text
  | .register => .path

/-- The options that a command knows. -/
def choices : Verb → List Choice
  | .migrate | .health | .peek | .get | .findHash | .delete => []
  | .allocate => [.count]
  | .mint => [.count, .label, .digest]
  | .register => [.bucket, .sequence, .label, .digest, .allowDuplicate]
  | .create => [.id, .bucket, .hash, .size, .createTime]
  | .list => [.after, .limit]
  | .purge => [.before]

/-- The option of a command that a word stands for. -/
def choice? (verb : Verb) (word : String) : Option Choice :=
  verb.choices.find? fun choice => choice.word == word

end Verb

/-- What a command line gives to its command. -/
structure Given where
  operand : Option String
  count : Option UInt32
  label : Option String
  digest : Option Nat
  bucket : Option String
  sequence : Option String
  allowDuplicate : Bool
  id : Option String
  hash : Option String
  size : Option Int64
  createTime : Option Int64
  after : Option String
  limit : Option UInt32
  before : Option Int64
  deriving DecidableEq

namespace Given

/-- What an empty command line gives. -/
def empty : Given where
  operand := none
  count := none
  label := none
  digest := none
  bucket := none
  sequence := none
  allowDuplicate := false
  id := none
  hash := none
  size := none
  createTime := none
  after := none
  limit := none
  before := none

/-- Whether an option is given. -/
def has (given : Given) : Choice → Bool
  | .count => given.count.isSome
  | .label => given.label.isSome
  | .digest => given.digest.isSome
  | .bucket => given.bucket.isSome
  | .sequence => given.sequence.isSome
  | .allowDuplicate => given.allowDuplicate
  | .id => given.id.isSome
  | .hash => given.hash.isSome
  | .size => given.size.isSome
  | .createTime => given.createTime.isSome
  | .after => given.after.isSome
  | .limit => given.limit.isSome
  | .before => given.before.isSome

/-- Gives an option its value, unless the value is malformed. -/
def put? (given : Given) (choice : Choice) (value : String) : Option Given :=
  match choice with
  | .count => (Text.Numeral.countWithin32? value.toList).map fun n => { given with count := some n }
  | .label => some { given with label := some value }
  | .digest => (Text.Numeral.unsigned64? value.toList).map fun n => { given with digest := some n }
  | .bucket => some { given with bucket := some value }
  | .sequence => some { given with sequence := some value }
  | .allowDuplicate => some { given with allowDuplicate := true }
  | .id => some { given with id := some value }
  | .hash => some { given with hash := some value }
  | .size => (Text.Numeral.int64? value.toList).map fun n => { given with size := some n }
  | .createTime =>
    (Text.Numeral.int64? value.toList).map fun n => { given with createTime := some n }
  | .after => some { given with after := some value }
  | .limit => (Text.Numeral.countWithin32? value.toList).map fun n => { given with limit := some n }
  | .before => (Text.Numeral.int64? value.toList).map fun n => { given with before := some n }

/-- The id format that is given; a label goes before a digest. -/
def format (given : Given) : IdFormat :=
  match given.label, given.digest with
  | some label, _ => .labelled label
  | none, some length => .digest length
  | none, none => .plain

/-- Something that a command needs. -/
def need : Option α → Except Usage α
  | some a => .ok a
  | none => .error .missingArgument

/-- The command with what it is given. A label and a digest cannot stand together. -/
def command (given : Given) (verb : Verb) : Except Usage Command := do
  if given.label.isSome ∧ given.digest.isSome then throw .conflict
  match verb with
  | .migrate => return .migrate
  | .health => return .health
  | .allocate => return .allocate (← need given.operand) (given.count.getD 1)
  | .peek => return .peek (← need given.operand)
  | .mint => return .mint (← need given.operand) (given.count.getD 1) given.format
  | .register =>
    return .register (← need given.operand) {
      bucket := ← need given.bucket
      sequence := given.sequence.getD "image_bed"
      format := given.format
      allowDuplicate := given.allowDuplicate }
  | .create =>
    return .create (← need given.id) (← need given.bucket) (← need given.hash)
      (← need given.size) given.createTime
  | .get => return .get (← need given.operand)
  | .findHash => return .findHash (← need given.operand)
  | .list => return .list (← need given.operand) given.after (given.limit.getD 0)
  | .delete => return .delete (← need given.operand)
  | .purge => return .purge (← need given.before)

end Given

end ObjectRegistry

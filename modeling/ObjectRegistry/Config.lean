import ObjectRegistry.Backing
import ObjectRegistry.Limits
import ObjectRegistry.Text.Blank

/-!
# Settings

A registry is set up from environment variables, each of which has a default except for the
address of the database server, which only the server needs. The variables are read in a fixed
order and the first one that cannot be read decides.
-/

namespace ObjectRegistry

/-- The variables of an environment that hold text; one that holds anything else counts as unset. -/
abbrev Environment := Table String String

/-- The environment with the values that are texts out of values that are bytes. -/
def Environment.ofBytes (values : List (String × List UInt8)) : Environment :=
  values.foldl
    (fun environment v =>
      match Text.ofBytes? v.2 with
      | some text => environment.insert v.1 text
      | none => environment)
    .empty

/-- The value of a name in an environment. A variable stands there as an entry `name=value`, and
what is looked for is an entry that starts with the name and an equals sign. So a name with an
equals sign in it has a value too, where the value of a variable goes on as the name does. -/
def Environment.valueOf? (environment : Environment) (name : String) : Option String :=
  match name.toList.dropWhile (· != '=') with
  | [] => environment.get? name
  | _ :: rest => do
    let value ← environment.get? (String.ofList (name.toList.takeWhile (· != '=')))
    let front := rest ++ ['=']
    if front.isPrefixOf value.toList then return String.ofList (value.toList.drop front.length)
    else none

/-- The environment in the form in which a process is handed it: entries `name=value` with a zero
byte behind each. -/
def Environment.ofBlock (block : List UInt8) : Environment :=
  .ofBytes ((entries [] block).filterMap fun entry =>
    match entry.dropWhile (· != 61), Text.ofBytes? (entry.takeWhile (· != 61)) with
    | _ :: value, some name => some (name, value)
    | _, _ => none)
where
  /-- The entries of a block, of which `front` is the first one so far, in reverse. -/
  entries (front : List UInt8) : List UInt8 → List (List UInt8)
    | [] => if front.isEmpty then [] else [front.reverse]
    | b :: rest => if b = 0 then front.reverse :: entries [] rest else entries (b :: front) rest

/-- Why settings cannot be read. -/
inductive ConfigFault where
  | unknownBackend (name : String)
  | missingServerUrl
  | malformed (setting : String)
  deriving DecidableEq

/-- The wording of settings that cannot be read. -/
def ConfigFault.message : ConfigFault → String
  | .unknownBackend name => "Unknown STORE_BACKEND: " ++ name
  | .missingServerUrl => "DATABASE_URL must be set when STORE_BACKEND=postgres"
  | .malformed setting => "Invalid " ++ setting

namespace Backend

/-- The kind of storage that goes by a name, of which blanks at the ends and ASCII case do not
matter. -/
def parse (text : String) : Except ConfigFault Backend :=
  let name := String.ofList ((Text.trim text.toList).map Char.toLower)
  if name = "embedded" ∨ name = "redb" then .ok .embedded
  else if name = "postgres" ∨ name = "postgresql" ∨ name = "pg" then .ok .postgres
  else .error (.unknownBackend name)

end Backend

/-- The settings of a registry. -/
structure Config where
  backend : Backend
  databaseUrl : Option String
  databasePath : String
  maxConnections : UInt32
  minConnections : UInt32
  /-- How long to wait for a connection, in seconds. -/
  acquireTimeout : Nat
  /-- The greatest length of a sequence name in bytes. -/
  nameLimit : Nat
  /-- The number of values a generator leases at a time. -/
  blockSize : UInt32
  environment : String
  deriving DecidableEq

namespace Config

/-- Settings with every limit at its default, for an embedded store. -/
def embedded (path : String) : Config where
  backend := .embedded
  databaseUrl := none
  databasePath := path
  maxConnections := 10
  minConnections := 2
  acquireTimeout := 10
  nameLimit := Limits.standard.nameLimit
  blockSize := Limits.standard.blockSize
  environment := "development"

/-- Settings with every limit at its default, for a database server. -/
def postgres (url : String) : Config :=
  { embedded "" with backend := .postgres, databaseUrl := some url }

/-- The limits of the registry. -/
def limits (c : Config) : Limits where
  nameLimit := c.nameLimit
  blockSize := c.blockSize

/-- Where the store is, for people to read. The address of a server is not shown, as it may hold
a password. -/
def storageLocation (c : Config) : String :=
  match c.backend with
  | .embedded => c.databasePath
  | .postgres => "postgres (DATABASE_URL)"

/-- A number from a variable, or its default if the variable is unset. -/
def number (environment : Environment) (setting : String) (read : List Char → Option α)
    (default : α) : Except ConfigFault α :=
  match environment.get? setting with
  | none => .ok default
  | some text =>
    match read text.toList with
    | some n => .ok n
    | none => .error (.malformed setting)

/-- The settings that an environment describes. -/
def ofEnvironment (environment : Environment) : Except ConfigFault Config := do
  let standard := embedded "./data/registry.db"
  let backend ← match environment.get? "STORE_BACKEND" with
    | some name => Backend.parse name
    | none => pure .postgres
  let databaseUrl := environment.get? "DATABASE_URL"
  if backend = .postgres ∧ databaseUrl = none then throw .missingServerUrl
  let maxConnections ←
    number environment "DB_MAX_CONNECTIONS" Text.Numeral.uint32? standard.maxConnections
  let minConnections ←
    number environment "DB_MIN_CONNECTIONS" Text.Numeral.uint32? standard.minConnections
  let acquireTimeout ←
    number environment "DB_ACQUIRE_TIMEOUT_SECS" Text.Numeral.unsigned64? standard.acquireTimeout
  let nameLimit ←
    number environment "MAX_SEQUENCE_NAME_LEN" Text.Numeral.unsigned64? standard.nameLimit
  let blockSize ← number environment "ID_BLOCK_SIZE" Text.Numeral.uint32? standard.blockSize
  return {
    backend, databaseUrl, maxConnections, minConnections, acquireTimeout, nameLimit, blockSize
    databasePath := (environment.get? "DATABASE_PATH").getD standard.databasePath
    environment := (environment.get? "ENVIRONMENT").getD standard.environment }

end Config

end ObjectRegistry

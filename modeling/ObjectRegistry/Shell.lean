import ObjectRegistry.Command.Line
import ObjectRegistry.Command.Perform
import ObjectRegistry.Config.EnvFile
import ObjectRegistry.Database

/-!
# One run of the program

A run reads its command line first; one that asks for help, or makes no sense, ends there. Then the
settings are read, the registry is opened, the file that the command names is read, and the command
is performed. What the command did to the storage is written back also when it failed.
-/

namespace ObjectRegistry.Shell

/-- Why a run that has a command fails. -/
inductive Failure where
  | settings (fault : ConfigFault)
  | registry (e : Error)
  /-- The file that the command names cannot be read. -/
  | file (path : String) (fault : FileFault)
  deriving DecidableEq

/-- The wording of a failure, the cause after what it caused. -/
def Failure.messages : Failure → List String
  | .settings fault => [fault.message]
  | .registry e => [e.message]
  | .file path fault => ["reading " ++ path, fault.message]

/-- How a run ends. -/
inductive Report where
  /-- No command was run. -/
  | usage (usage : Usage)
  | reply (reply : Reply)
  | failure (failure : Failure)

namespace Report

/-- The exit code of a run. -/
def exitCode : Report → UInt32
  | .usage u => u.exitCode
  | .reply _ => 0
  | .failure _ => 1

/-- What a run prints, apart from explanations of its usage. -/
def output : Report → String
  | .usage .version => programName ++ " " ++ version ++ "\n"
  | .usage _ => ""
  | .reply r => r.text
  | .failure _ => ""

end Report

variable {m : Type → Type} [Monad m]

/-- The content of the file that a command names, and nothing for a command that names none. -/
def content (files : Files m) (command : Command) : ExceptT Failure m ByteArray := do
  match command.file? with
  | none => return .empty
  | some path =>
    match ← files.read path with
    | .ok content => return content
    | .error fault => throw (.file path fault)

/-- Turns a failure of the registry into one of the run. -/
def lift (action : ExceptT Error m α) : ExceptT Failure m α :=
  ExceptT.adapt Failure.registry action

/-- Performs a command on the registry that settings describe. -/
def perform (files : Files m) (config : Config) (now : Int64) (command : Command) :
    ExceptT Failure m Reply := do
  let backing ← lift (Database.connect files config)
  let content ← content files command
  let (answer, backing) := (command.perform config.limits now content).on backing
  lift (Database.save files config backing)
  match answer with
  | .ok reply => return reply
  | .error e => throw (.registry e)

/-- An environment with the assignments of the environment file, if there is one. -/
def loadEnvironment (files : Files m) (environment : Environment) : m Environment := do
  match ← files.read ".env" with
  | .ok file => return EnvFile.load file.toList environment
  | .error _ => return environment

/-- Runs the program. -/
def run (files : Files m) (environment : Environment) (now : Int64) (arguments : List String) :
    m Report := do
  match CommandLine.read arguments with
  | .error usage => return .usage usage
  | .ok command =>
    match Config.ofEnvironment (← loadEnvironment files environment) with
    | .error fault => return .failure (.settings fault)
    | .ok config =>
      match ← (perform files config now command).run with
      | .ok reply => return .reply reply
      | .error failure => return .failure failure

end ObjectRegistry.Shell

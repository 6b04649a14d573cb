import ObjectRegistry.Config
import ObjectRegistry.Files
import ObjectRegistry.Path
import ObjectRegistry.Store.File

/-!
# Databases

A registry is opened as its settings say. A server cannot be reached. An embedded store lives in a
file: the directories that lead to the file are made if need be, a file that does not exist is made,
and what a store lacks is added when it is opened. From then on the store is held in memory, and is
written back as a whole (`Database.save`).
-/

namespace ObjectRegistry.Database

variable {m : Type → Type} [Monad m]

/-- Makes the directory that a database file is to lie in. -/
def makeParent (files : Files m) (path : String) : ExceptT Error m Unit := do
  match Path.parent? path with
  | none => return
  | some directory =>
    unless ← files.present directory do
      match ← files.makeDirectories directory with
      | .ok () => return
      | .error fault => throw (.storage (.inputOutput fault.message))

/-- The store in a database file. -/
def load (files : Files m) (path : String) : ExceptT Error m Store := do
  match ← files.read path with
  | .error .missing => return .blank
  | .error _ => throw (.storage .unopenable)
  | .ok content =>
    match Store.ofFile? content with
    | some store => return store
    | none => throw (.storage .unopenable)

/-- Opens the storage of a registry. -/
def connect (files : Files m) (config : Config) : ExceptT Error m Backing := do
  match config.backend with
  | .postgres =>
    if config.databaseUrl.isNone then throw (.argument .missingServerUrl)
    throw (.storage .unreachable)
  | .embedded =>
    makeParent files config.databasePath
    let store := (← load files config.databasePath).opened
    match ← files.write config.databasePath store.file with
    | .ok () => return .embedded store
    | .error _ => throw (.storage .unopenable)

/-- Writes the storage of a registry back to where it was opened. -/
def save (files : Files m) (config : Config) (backing : Backing) : ExceptT Error m Unit := do
  match backing with
  | .unreachable => return
  | .embedded store =>
    match ← files.write config.databasePath store.file with
    | .ok () => return
    | .error fault => throw (.storage (.inputOutput fault.message))

end ObjectRegistry.Database

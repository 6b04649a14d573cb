import ObjectRegistry.Command.Help
import ObjectRegistry.Shell
import Std.Time.DateTime.Timestamp

/-!
# The program

One run over the files, the environment and the clock of the machine.
-/

namespace ObjectRegistry.Machine

/-- The number of a refusal, which some actions answer negated. -/
def number (code : UInt32) : UInt32 :=
  if code < 0x80000000 then code else 0 - code

/-- The reason why the machine refuses. -/
def fault (e : IO.Error) : FileFault :=
  match e with
  | .noFileOrDirectory .. => .missing
  | .inappropriateType _ code _ =>
    if number code = 20 then .notDirectory
    else if number code = 21 then .isDirectory
    else .stated (toString e)
  | .invalidArgument _ code _ => if number code = 36 then .tooLong else .stated (toString e)
  | _ => .stated (toString e)

/-- What an action answers, or why the machine refuses it. -/
def attempt (action : IO α) : IO (Except FileFault α) := do
  match ← action.toBaseIO with
  | .ok a => return .ok a
  | .error e => return .error (fault e)

/-- The files of the machine. -/
def files : Files IO where
  read path := attempt (IO.FS.readBinFile path)
  write path content := attempt (IO.FS.writeBinFile path content)
  present path := do ((← IO.currentDir) / path).pathExists
  makeDirectories path := attempt (IO.FS.createDirAll path)

/-- The environment of the program. -/
def environment : IO Environment := do
  match ← attempt (IO.FS.readBinFile "/proc/self/environ") with
  | .ok block => return .ofBlock block.toList
  | .error _ => return .empty

/-- The present time in seconds since 1970. -/
def now : IO Int64 := do
  return Int64.ofInt (← Std.Time.Timestamp.now).toSecondsSinceUnixEpoch.val

/-- Tells the user how a run ended. -/
def tell (report : Shell.Report) : IO Unit := do
  IO.print report.output
  match report with
  | .usage .help => IO.print Help.overview
  | .usage .version | .reply _ => return
  | .usage u => IO.eprintln ("error: " ++ u.message)
  | .failure f => IO.eprintln ("error: " ++ ": ".intercalate f.messages)

end ObjectRegistry.Machine

open ObjectRegistry in
/-- Runs the program once. -/
def main (arguments : List String) : IO UInt32 := do
  let report ← Shell.run Machine.files (← Machine.environment) (← Machine.now) arguments
  Machine.tell report
  return report.exitCode

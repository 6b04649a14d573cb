/-!
# Files

What a program does to the files around it: it reads a file, writes one, asks whether a path leads
anywhere, and makes the directories along a path. `Files m` gathers these four as actions of `m`,
so that whatever is written over them runs on a file tree that is a value as well as on the files of
a machine.
-/

namespace ObjectRegistry

/-- Why the file system refuses. -/
inductive FileFault where
  /-- The path leads to nothing. -/
  | missing
  /-- The path leads to a directory where a file is wanted. -/
  | isDirectory
  /-- The path goes on behind a file as if it were a directory. -/
  | notDirectory
  /-- The path, or a name along it, is too long. -/
  | tooLong
  /-- The path holds a zero character. -/
  | zeroCharacter
  /-- A directory is wanted where a file is. -/
  | occupied
  /-- Any other refusal, in the words of the file system. -/
  | stated (text : String)
  deriving DecidableEq

/-- The wording of a refusal. -/
def FileFault.message : FileFault → String
  | .missing => "No such file or directory (os error 2)"
  | .isDirectory => "Is a directory (os error 21)"
  | .notDirectory => "Not a directory (os error 20)"
  | .tooLong => "File name too long (os error 36)"
  | .zeroCharacter => "file name contained an unexpected NUL byte"
  | .occupied => "File exists (os error 17)"
  | .stated text => text

/-- Actions on files. -/
structure Files (m : Type → Type) where
  /-- The content of a file. -/
  read : String → m (Except FileFault ByteArray)
  /-- Gives a file its content; the file is made if only its directory exists. -/
  write : String → ByteArray → m (Except FileFault Unit)
  /-- Whether a path leads to a file or a directory. -/
  present : String → m Bool
  /-- Makes a directory and those above it, as far as they do not exist. -/
  makeDirectories : String → m (Except FileFault Unit)

end ObjectRegistry

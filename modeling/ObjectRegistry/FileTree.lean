import ObjectRegistry.Files
import ObjectRegistry.Path

/-!
# File trees

A file tree is a file system as a value: a directory at the top that holds files and further
directories under their names. A place in it is its location, the list of names from the top down.

A path is followed name by name (`FileTree.follow`). A name has at most 255 bytes and a path at most
4095. Behind a file no path goes on, not even by an empty name.
-/

namespace ObjectRegistry

/-- A file, or a directory with what it holds; of two entries of one name the first counts. -/
inductive FileNode where
  | file (content : ByteArray)
  | directory (entries : List (String × FileNode))

namespace FileNode

/-- A directory with nothing in it. -/
def emptyDirectory : FileNode := .directory []

/-- What is under a name in a directory. A file has nothing under it. -/
def entry? : FileNode → String → Option FileNode
  | .file _, _ => none
  | .directory entries, name => entries.lookup name

/-- What is at a location below. -/
def at? (node : FileNode) : List String → Option FileNode
  | [] => some node
  | name :: rest => (node.entry? name).bind fun below => below.at? rest

/-- Puts something at a location below. Directories on the way that are missing are made; a file on
the way stays, and then nothing is put. -/
def put (new : FileNode) : List String → FileNode → FileNode
  | [], _ => new
  | _ :: _, .file content => .file content
  | name :: rest, .directory entries =>
    let below := (entries.lookup name).getD emptyDirectory
    .directory ((name, new.put rest below) :: entries.filter fun entry => entry.1 != name)

end FileNode

/-- A file system. -/
structure FileTree where
  /-- The directory at the top. -/
  top : FileNode
  /-- The location of the directory at which paths start. -/
  workingDirectory : List String

/-- Where a path leads. -/
inductive Destination where
  | directory (location : List String)
  | file (location : List String) (content : ByteArray)
  /-- Nothing is there, but the directory exists in which it would be. -/
  | vacant (location : List String)

namespace FileTree

/-- The most bytes of a name. -/
def nameBound : Nat := 255

/-- The most bytes of a path. -/
def pathBound : Nat := 4095

/-- A file system with nothing in it but a working directory. -/
def empty : FileTree where
  top := .directory [("work", .emptyDirectory)]
  workingDirectory := ["work"]

/-- What is at a location. -/
def node? (tree : FileTree) (location : List String) : Option FileNode :=
  tree.top.at? location

/-- Puts something at a location. -/
def put (tree : FileTree) (location : List String) (node : FileNode) : FileTree :=
  { tree with top := node.put location tree.top }

/-- Follows names from a directory on. -/
def follow (tree : FileTree) (directory : List String) :
    List String → Except FileFault Destination
  | [] => .ok (.directory directory)
  | name :: rest =>
    if name = "" ∨ name = "." then tree.follow directory rest
    else if name = ".." then tree.follow directory.dropLast rest
    else if nameBound < name.utf8ByteSize then .error .tooLong
    else
      let location := directory ++ [name]
      match tree.node? location with
      | some (.directory _) => tree.follow location rest
      | some (.file content) =>
        if rest.isEmpty then .ok (.file location content) else .error .notDirectory
      | none => if rest.isEmpty then .ok (.vacant location) else .error .missing

/-- Refuses a path that no file system follows. -/
def checkPath (path : String) : Except FileFault Unit :=
  if path.toList.contains '\x00' then .error .zeroCharacter
  else if path.isEmpty then .error .missing
  else if pathBound < path.utf8ByteSize then .error .tooLong
  else .ok ()

/-- The location at which a path starts. -/
def origin (tree : FileTree) (path : String) : List String :=
  if Path.isAbsolute path then [] else tree.workingDirectory

/-- Where a path leads. -/
def resolve (tree : FileTree) (path : String) : Except FileFault Destination := do
  checkPath path
  tree.follow (tree.origin path) (Path.names path)

/-- The content of the file at a path. -/
def read (tree : FileTree) (path : String) : Except FileFault ByteArray := do
  match ← tree.resolve path with
  | .file _ content => return content
  | .directory _ => throw .isDirectory
  | .vacant _ => throw .missing

/-- The tree with a content for the file at a path. -/
def write (tree : FileTree) (path : String) (content : ByteArray) : Except FileFault FileTree := do
  match ← tree.resolve path with
  | .file location _ | .vacant location => return tree.put location (.file content)
  | .directory _ => throw .isDirectory

/-- Whether a path leads to a file or a directory. -/
def present (tree : FileTree) (path : String) : Bool :=
  match tree.resolve path with
  | .ok (.directory _) | .ok (.file _ _) => true
  | _ => false

/-- Follows names from a directory on and makes the directories that are missing. Those made before
a refusal stay. -/
def makeAlong (tree : FileTree) (directory : List String) :
    List String → Except FileFault Unit × FileTree
  | [] => (.ok (), tree)
  | name :: rest =>
    match tree.follow directory [name] with
    | .ok (.directory location) => tree.makeAlong location rest
    | .ok (.vacant location) => (tree.put location .emptyDirectory).makeAlong location rest
    | .ok (.file _ _) => (.error (if rest.isEmpty then .occupied else .notDirectory), tree)
    | .error fault => (.error fault, tree)

/-- Makes the directory at a path and those above it, as far as they do not exist. -/
def makeDirectories (tree : FileTree) (path : String) : Except FileFault Unit × FileTree :=
  match checkPath path with
  | .error fault => (.error fault, tree)
  | .ok () => tree.makeAlong (tree.origin path) (Path.names path)

/-- The actions on a file tree. -/
def files : Files (StateM FileTree) where
  read path := return (← get).read path
  write path content := do
    match (← get).write path content with
    | .ok tree =>
      set tree
      return .ok ()
    | .error fault => return .error fault
  present path := return (← get).present path
  makeDirectories path := modifyGet fun tree => tree.makeDirectories path

/-- The tree with a directory at a path, if it can be made. -/
def withDirectory (tree : FileTree) (path : String) : FileTree :=
  (tree.makeDirectories path).2

/-- The tree with a file at a path, and with the directories that lead to it. -/
def withFile (tree : FileTree) (path : String) (content : ByteArray) : FileTree :=
  let tree := ((Path.parent? path).map tree.withDirectory).getD tree
  match tree.write path content with
  | .ok tree => tree
  | .error _ => tree

end FileTree

end ObjectRegistry

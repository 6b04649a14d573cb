import ObjectRegistry.Text.Split

/-!
# Paths

A path names a file by the directories that lead to it, with slashes between. It starts at the top
of the file system if it starts with a slash, and at the working directory otherwise. An empty name
and the name `.` lead nowhere else, and `..` leads one directory up.
-/

namespace ObjectRegistry.Path

/-- The names along a path, as they are written. -/
def names (path : String) : List String :=
  (Text.split '/' path.toList).map String.ofList

/-- Whether a path starts at the top of the file system. -/
def isAbsolute (path : String) : Bool :=
  path.toList.head? == some '/'

/-- The part in front of a path from which no name can be taken away, which is the slash that it
starts with or a `.` in front, and the names behind that part. -/
def parts (path : String) : List Char × List (List Char) :=
  match path.toList with
  | '/' :: rest => (['/'], Text.split '/' rest)
  | '.' :: '/' :: rest => (['.'], [] :: Text.split '/' rest)
  | ['.'] => (['.'], [])
  | rest => ([], Text.split '/' rest)

/-- Whether a name leads nowhere else. -/
def staysPut (name : List Char) : Bool :=
  name.isEmpty || name == ['.']

/-- The path of the directory that a path lies in, unless that is where paths start. It is spelled
as the path spells it: only the last name is taken away, with the names around it that lead nowhere
else. -/
def parent? (path : String) : Option String :=
  let (front, names) := parts path
  match names.reverse.dropWhile staysPut with
  | [] => none
  | _ :: above =>
    let parent := front ++ Text.join '/' (above.dropWhile staysPut).reverse
    if parent.isEmpty then none else some (String.ofList parent)

end ObjectRegistry.Path

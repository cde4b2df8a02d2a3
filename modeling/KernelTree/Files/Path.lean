/-! Paths of files: names with slashes between them. Empty names and single dots lead nowhere, two
dots lead to the directory around. -/
namespace KernelTree.Path

/-- What stands between the slashes. -/
def pieces (path : String) : List String := (path.toList.splitOn '/').map String.ofList

def isAbsolute (path : String) : Bool := path.toList.head? == some '/'

/-- The names on the path, with a mark in front if it starts at the top or with a dot. Two paths
with the same names are the same. -/
def names (path : String) : List String :=
  let found := (pieces path).filter fun piece => piece ≠ "" ∧ piece ≠ "."
  if isAbsolute path then "/" :: found
  else if (pieces path).head? = some "." then "." :: found
  else found

/-- The name at the end of a path, unless the path ends in dots or at the top. -/
def fileName? (path : String) : Option String :=
  (names path).getLast?.filter fun name => name ≠ "/" ∧ name ≠ "." ∧ name ≠ ".."

/-- A name without its last point and what follows it. A point at the front does not count. -/
def stem (name : String) : String :=
  match (name.toList.reverse.dropWhile (· ≠ '.')).tail with
  | [] => name
  | before => String.ofList before.reverse

/-- The name at the end of a path, without what follows its last point. -/
def fileStem? (path : String) : Option String := (fileName? path).map stem

/-- The path of a file that is named from a directory. The name may be a path of its own; one that
starts at the top is left alone. -/
def join (directory name : String) : String :=
  if isAbsolute name then name
  else if directory = "" ∨ directory.toList.getLast? = some '/' then directory ++ name
  else directory ++ "/" ++ name

end KernelTree.Path

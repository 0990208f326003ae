import Choropleth.Text.Split

/-!
# Paths

A path is a text whose parts are separated by slashes; one that begins with a slash starts at the
root. Parts that are empty or a single dot stand for the directory they are in.

* `Path.join`: a path taken from within another;
* `Path.parent?`: the directory that a path lies in;
* `Path.beside`: the path of a file in the same directory, with more at the end of its name.
-/

namespace Choropleth
namespace Path

/-- The parts of a path. The first part of one that starts at the root is empty. -/
def parts (path : String) : List String := (Text.pieces '/' path.toList).map String.ofList

/-- The path starts at the root. -/
def isAbsolute (path : String) : Bool := path.toList.head? = some '/'

/-- The part stands for the directory it is in. -/
def isHere (part : String) : Bool := part = "" || part = "."

/-- A path taken from within a directory. One that starts at the root stays as it is. -/
def join (directory path : String) : String :=
  if isAbsolute path then path
  else if directory = "" ∨ directory.toList.getLast? = some '/' then directory ++ path
  else directory ++ "/" ++ path

/-- A path taken from within several directories, one in the other. -/
def joinAll (directory : String) (parts : List String) : String := parts.foldl join directory

/-- The directory that a path lies in; the root and the empty path lie in none. -/
def parent? (path : String) : Option String :=
  match (parts path).filter fun p => !isHere p with
  | [] => if path = "" ∨ isAbsolute path then none else some ""
  | named =>
    some ((if isAbsolute path then "/" else "") ++ Text.joinStrings "/" named.dropLast)

/-- The path with more at the end of its last part. -/
def beside (path ending : String) : String := path ++ ending

end Path
end Choropleth

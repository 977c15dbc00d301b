import TableFlow.Text.Lines
import TableFlow.Text.Name

/-!
# Paths

A path is a text whose names are separated by slashes.  Repeated slashes, a slash at the end and the name
`.` do not count.
-/

namespace TableFlow
namespace Path

/-- The names along a path; an absolute path starts with the name `/`, and `..` takes back the name before
it. -/
def names (path : String) : List String :=
  let letters := path.toList
  let parts := (Text.splitAt '/' letters).filter fun part => !part.isEmpty && part != ['.']
  let root : List String := if letters.head? == some '/' then ["/"] else []
  parts.foldl (fun names part =>
    if part = ['.', '.'] then names.dropLast else names ++ [String.ofList part]) root

/-- The paths from the first name to each name along a path, the shortest one first. -/
def stages (names : List String) : List (List String) :=
  (List.range names.length).map fun n => names.take (n + 1)

/-- A path ends in a slash, so that only a directory can be meant. -/
def endsInSlash (path : String) : Bool :=
  path.toList.getLast? == some '/'

/-- A reversed path without slashes and names `.` at its end. -/
def stripTail : List Char → List Char
  | '/' :: rest => if rest.isEmpty then ['/'] else stripTail rest
  | '.' :: '/' :: rest => stripTail ('/' :: rest)
  | all => all

/-- The last name of a path, unless it is a place relative to others. -/
def fileName? (path : String) : Option String :=
  let name := ((stripTail path.toList.reverse).takeWhile (· != '/')).reverse
  if name.isEmpty || name = ['.'] || name = ['.', '.'] then none else some (String.ofList name)

/-- The path without its last name; empty if there was one name only. -/
def parent? (path : String) : Option String :=
  let reversed := stripTail path.toList.reverse
  if reversed.isEmpty || reversed = ['/'] then none
  else some (String.ofList (stripTail (reversed.dropWhile (· != '/'))).reverse)

/-- The part of a name after its last dot, unless the dot is absent or comes first. -/
def extension (name : String) : String :=
  let reversed := name.toList.reverse
  let suffix := reversed.takeWhile (· != '.')
  match reversed.drop suffix.length with
  | [] => ""
  | [_] => ""
  | _ => if name = ".." then "" else String.ofList suffix.reverse

end Path
end TableFlow

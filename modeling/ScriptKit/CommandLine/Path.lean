namespace ScriptKit.CommandLine.Path

/-- What stands between the slashes of a path. -/
def split (path : String) : List String := (path.toList.splitOn '/').map String.ofList

/-- Whether a path starts at the root, wherever the program runs. -/
def isAbsolute (path : String) : Bool := path.toList.head? == some '/'

/-- The parts of a path. Empty parts do not count, and a dot counts only at the start; an absolute
path starts with an empty part. -/
def parts (path : String) : List String :=
  match split path with
  | [] | [""] => []
  | first :: rest => first :: rest.filter fun part => part != "" && part != "."

/-- Whether two paths have the same parts. -/
def same (a b : String) : Bool := parts a == parts b

/-- The stem of a file name: what stands before its last dot, unless that is nothing. -/
def stem (name : List Char) : List Char :=
  match name.reverse.dropWhile (· != '.') with
  | [] => name
  | _ :: before => if before.isEmpty then name else before.reverse

/-- The characters of a path up to the end of its last part, if that names a file. -/
def upToName? (path : String) : Option (List Char × List Char) :=
  let text := cutEnd path.toList.reverse
  let name := (text.takeWhile (· != '/')).reverse
  if name = [] ∨ name = ['.'] ∨ name = ['.', '.'] then none
  else some ((text.dropWhile (· != '/')).reverse, name)
where
  /-- Cuts slashes off the end, and dots that are parts of their own. -/
  cutEnd : List Char → List Char
    | '/' :: rest => cutEnd rest
    | '.' :: '/' :: rest => cutEnd rest
    | text => text

/-- The path with another extension of its file name. A path without a file name stays as it is. -/
def withExtension (extension path : String) : String :=
  match upToName? path with
  | some (folder, name) => String.ofList (folder ++ stem name) ++ "." ++ extension
  | none => path

end ScriptKit.CommandLine.Path

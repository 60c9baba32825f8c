/-! File paths as text.  Slashes part the names of a path; slashes and `.` at its end do not count. -/

namespace KanaScript.Path

/-- A path, read backwards, without the slashes and the `.` names at its end. -/
def dropTrailing : List Char → List Char
  | '/' :: cs => dropTrailing cs
  | '.' :: '/' :: cs => dropTrailing cs
  | cs => cs

/-- The last name of a path and what stands before it, unless that name is a dot name or missing. -/
def fileName? (path : List Char) : Option (List Char × List Char) :=
  let backwards := dropTrailing path.reverse
  let name := (backwards.takeWhile (· != '/')).reverse
  if name.isEmpty || name == ['.'] || name == ['.', '.'] then none
  else some ((backwards.dropWhile (· != '/')).reverse, name)

/-- A name cut at its last dot, which does not count at the start of the name. -/
def splitExtension (name : List Char) : List Char × List Char :=
  let backwards := name.reverse
  match backwards.dropWhile (· != '.') with
  | _ :: c :: stem => ((c :: stem).reverse, (backwards.takeWhile (· != '.')).reverse)
  | _ => (name, [])

/-- The path with `extension` in place of what follows the stem of its file name. -/
def setExtension (path extension : List Char) : List Char :=
  match fileName? path with
  | some (parent, name) => parent ++ (splitExtension name).1 ++ '.' :: extension
  | none => path

/-- The path with `extension` in place of its own.  As many characters as the old extension has are
cut off the text before the new one is set, so a path that is then left without a file name stays as
it is. -/
def withExtension (path extension : List Char) : List Char :=
  match fileName? path with
  | some (_, name) =>
    setExtension (path.take (path.length - (splitExtension name).2.length)) extension
  | none => path

/-- The text between slashes. -/
def split : List Char → List (List Char)
  | [] => [[]]
  | c :: cs =>
    if c = '/' then [] :: split cs
    else
      match split cs with
      | [] => [[c]]
      | part :: parts => (c :: part) :: parts

/-- The names of a path. -/
def names (path : String) : List String :=
  (split path.toList).filterMap fun part =>
    if part.isEmpty then none else some (String.ofList part)

end KanaScript.Path

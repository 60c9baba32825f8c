import KanaScript.Command.FileSystem
import KanaScript.Command.Path

/-! The files and directories below a root, with a working directory among them.  There are no links
in it, and nothing in it is closed to reading or writing. -/

namespace KanaScript

/-- Files and directories by the names that lead to them from the root, and the directory in which
a path starts that has no slash in front. -/
structure FileTree where
  files : List (List String × ByteArray)
  directories : List (List String)
  current : List String

namespace FileTree

def file? (tree : FileTree) (names : List String) : Option ByteArray := tree.files.lookup names

/-- Whether `names` lead to a directory: the working directory, another, or the place of something
in the tree. -/
def isDirectory (tree : FileTree) (names : List String) : Bool :=
  names.isPrefixOf tree.current || tree.directories.any (names.isPrefixOf ·) ||
    tree.files.any fun file => names.isPrefixOf file.1 && names.length < file.1.length

/-- The directory `name` in the directory `names`.  Above the root is the root itself. -/
def enter (tree : FileTree) (names : List String) (name : String) :
    Except SystemError (List String) :=
  if name = "." then .ok names
  else if name = ".." then .ok names.dropLast
  else if tree.isDirectory (names ++ [name]) then .ok (names ++ [name])
  else if (tree.file? (names ++ [name])).isSome then .error .notDirectory
  else .error .missing

/-- A path cut into the directory of its last name, that name, and whether a slash follows it. -/
structure Target where
  directory : List String
  name : String
  slash : Bool

/-- The directory in which the names of a path start. -/
def start (tree : FileTree) (path : String) : List String :=
  if path.toList.head? = some '/' then [] else tree.current

/-- The target of a path, whose last name need not exist. -/
def target (tree : FileTree) (path : String) : Except SystemError Target := do
  match (Path.names path).getLast? with
  | none => .error (if path.isEmpty then .missing else .isDirectory)
  | some name =>
    let directory ← (Path.names path).dropLast.foldlM tree.enter (tree.start path)
    return ⟨directory, name, path.toList.getLast? = some '/'⟩

def read (tree : FileTree) (path : String) : Except SystemError ByteArray := do
  let target ← tree.target path
  if target.slash || target.name == "." || target.name == ".." then
    let _ ← tree.enter target.directory target.name
    .error .isDirectory
  else
    let names := target.directory ++ [target.name]
    if tree.isDirectory names then .error .isDirectory
    else
      match tree.file? names with
      | some bytes => .ok bytes
      | none => .error .missing

/-- Puts a file into a list of files, in the place of the one before. -/
def put (names : List String) (bytes : ByteArray) :
    List (List String × ByteArray) → List (List String × ByteArray)
  | [] => [(names, bytes)]
  | file :: others =>
    if file.1 = names then (names, bytes) :: others else file :: put names bytes others

def write (tree : FileTree) (path : String) (bytes : ByteArray) : Except SystemError FileTree := do
  let target ← tree.target path
  if target.slash || target.name == "." || target.name == ".." then .error .isDirectory
  else
    let names := target.directory ++ [target.name]
    if tree.isDirectory names then .error .isDirectory
    else .ok { tree with files := put names bytes tree.files }

instance : FileSystem FileTree where
  read := read
  write := write

end FileTree

end KanaScript

import Tagwire.Bytes
import Tagwire.Entries

/-!
# Files

A directory tree is given by its files under their paths from its root and by the directory that is worked
in; a directory exists when it is this one or around it, or when a file lies below it.  A path that starts
with a slash is walked from the root, and any other from the working directory, component by component, so
that one through a directory that does not exist, or above the root, leads nowhere.  What only reads files is
given a view of them, which may as well be of a file system that is not held here.
-/

set_option autoImplicit false

namespace Tagwire

/-- The components of a path between its slashes, empty ones included. -/
def pathComponents (path : String) : List (List Char) := path.toList.splitOn '/'

/-- Two paths joined; a second path from the root stands alone. -/
def joinPath (base path : String) : String :=
  if path.startsWith "/" || base.isEmpty then path
  else if base.endsWith "/" then base ++ path
  else base ++ "/" ++ path

/-- The path of the directory a path lies in, empty where the path has only one component. -/
def parentPath (path : String) : String :=
  String.ofList (((path.toList.reverse.dropWhile (· != '/')).dropWhile (· == '/')).reverse)

/-- The last component of a path, empty where the path ends in a slash. -/
def fileName (path : String) : String :=
  String.ofList (path.toList.reverse.takeWhile (· != '/')).reverse

/-- What stands at a path: a file with its content, a directory, or nothing. -/
inductive Found where
  | file (content : Bytes)
  | directory
  | nothing
deriving Repr, Inhabited

/-- What can be seen of a file system: what stands at a path, and how many files there are at most. -/
structure FileView where
  find : String → Found
  count : Nat

namespace FileView

/-- The content of the file at a path, if a file stands there. -/
def read? (view : FileView) (path : String) : Option Bytes :=
  match view.find path with
  | .file content => some content
  | _ => none

end FileView

/-- The files of a directory tree under their paths from its root, and the components of the working
directory, which is the root unless told otherwise. -/
structure Files where
  contents : Entries Bytes := []
  current : List (List Char) := []
deriving Repr, Inhabited

namespace Files

/-- The path with some components, from the root of the tree and without a slash in front. -/
def pathOf (components : List (List Char)) : String :=
  "/".intercalate (components.map String.ofList)

/-- The paths that directories are known by: those of the files, and that of the working directory. -/
def landmarks (files : Files) : List String := (pathOf files.current ++ "/") :: files.contents.keys

/-- Do the components name a directory, that is the root or one that a landmark lies below? -/
def isDirectory (files : Files) (components : List (List Char)) : Bool :=
  components.isEmpty || files.landmarks.any fun path => path.startsWith (pathOf components ++ "/")

/-- Walks the directories of a path from some components on, to the components of what it names. -/
def walk (files : Files) (strict : Bool) (base : List (List Char)) :
    List (List Char) → Option (List (List Char))
  | [] => none
  | [last] =>
    if last = [] ∨ last = ['.'] ∨ last = ['.', '.'] then none else some (base ++ [last])
  | component :: rest =>
    if component = [] ∨ component = ['.'] then walk files strict base rest
    else if component = ['.', '.'] then
      if base.isEmpty then none else walk files strict base.dropLast rest
    else
      let next := base ++ [component]
      if files.isDirectory next || (!strict && (files.contents.get? (pathOf next)).isNone) then
        walk files strict next rest
      else none

/-- The path from the root of the tree that a path of a file leads to, from the root if it starts with a slash
and else from the working directory; when not `strict`, missing directories are taken to exist. -/
def resolve? (files : Files) (strict : Bool) (path : String) : Option String :=
  let base := if path.startsWith "/" then [] else files.current
  (files.walk strict base (pathComponents path)).map pathOf

/-- The content of the file that a path leads to. -/
def read? (files : Files) (path : String) : Option Bytes :=
  (files.resolve? true path).bind files.contents.get?

/-- Does a path lead to a directory? -/
def hasDirectory (files : Files) (path : String) : Bool :=
  match files.resolve? true path with
  | some resolved => files.isDirectory (pathComponents resolved)
  | none => false

/-- What a path leads to: a file before a directory of its name. -/
def find (files : Files) (path : String) : Found :=
  match files.read? path with
  | some content => .file content
  | none => if files.hasDirectory path then .directory else .nothing

/-- The files as they are seen from the working directory, with their number. -/
def view (files : Files) : FileView := ⟨files.find, files.contents.length⟩

/-- Puts a file under its path from the root of the tree. -/
def put (files : Files) (resolved : String) (content : Bytes) : Files :=
  { files with contents := files.contents.insert resolved content }

/-- The files after writing one; it fails where a directory is missing or stands in the place of the file,
unless missing directories are to be made. -/
def write? (files : Files) (path : String) (content : Bytes) (makeDirectories : Bool := false) :
    Option Files := do
  let resolved ← files.resolve? (!makeDirectories) path
  if files.contents.any fun e => e.1.startsWith (resolved ++ "/") then none
  else return files.put resolved content

/-- The files with given contents, worked on from the root of their tree. -/
def ofList (contents : List (String × Bytes)) : Files := { contents := Entries.ofList contents }

end Files

end Tagwire

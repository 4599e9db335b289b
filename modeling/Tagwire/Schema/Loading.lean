import Tagwire.Files
import Tagwire.Schema.Bundled
import Tagwire.Schema.Linking
import Tagwire.Schema.Reading

/-!
# Loading schemas

A schema is loaded from one document given as text, or from documents in files.  The imports of a document
are loaded before it, each document once, and no document may import itself, directly or through others.
One given as text can import bundled documents only.  One in a file can also import files under the
directories of the files that were asked for, and goes by its path from the directory that it was found in;
a path that was asked for must not be hidden by another file that goes by the same name.
-/

set_option autoImplicit false

namespace Tagwire

namespace Schema

/-- Opens the document with a given path, if there is one. -/
abbrev Opener : Type := String → Option SchemaFile

/-- Adds the document with a path to those that are `loaded`, with all that it imports before it.  A document
that imports itself, directly or not, is refused. -/
def load? (opener : Opener) : Nat → List String → List SchemaFile → String → Option (List SchemaFile)
  | 0, _, _, _ => none
  | fuel + 1, importing, loaded, path =>
    if importing.contains path then none
    else if loaded.any fun f => f.path == path then some loaded
    else do
      let file ← opener path
      let imports := file.imports.map Import.path
      let loaded ← imports.foldlM (fun loaded p => load? opener fuel (path :: importing) loaded p) loaded
      if imports.Nodup then return loaded ++ [file] else none

/-! ## One document as text -/

/-- The name `protospark.proto` that a document given as text goes by. -/
def inlineDocumentName : String := "protospark.proto"

/-- Opens the text under `inlineDocumentName`, and any other path as a bundled document. -/
def openInline (text : String) : Opener := fun path =>
  if path = inlineDocumentName then SchemaFile.ofText? path text else Bundled.find? path

/-- The schema of a document given as text and of the bundled documents that it imports, or `none` if one of
them cannot be read or linked. -/
def ofText? (text : String) : Option Schema := do
  let files ← load? (openInline text) (Bundled.all.length + 2) [] [] inlineDocumentName
  ofFiles? files

/-! ## Documents in files -/

/-- The steps of a path between its slashes, without empty ones and dots, except that the first step of an
absolute path is the slash itself. -/
def pathSteps (path : String) : List String :=
  let steps := (path.toList.splitOn '/').map String.ofList
  let inner := (steps.drop 1).filter fun s => s ≠ "" ∧ s ≠ "."
  match steps.head? with
  | some "" => if path.isEmpty then [] else "/" :: inner
  | some first => first :: inner
  | none => []

/-- The directory that a path lies in: `.` or `/` where nothing stands before its last slash. -/
def directoryOf (path : String) : String :=
  let parent := parentPath path
  if parent.isEmpty then if path.startsWith "/" then "/" else "." else parent

/-- Adds a directory behind others, unless one of them has the same `pathSteps`. -/
def addDirectory (directories : List String) (directory : String) : List String :=
  if directories.any fun d => pathSteps d == pathSteps directory then directories
  else directories ++ [directory]

/-- The directories of files, each once and in the order of the files. -/
def directoriesOf (paths : List String) : List String :=
  paths.foldl (fun ds p => addDirectory ds (directoryOf p)) []

/-- The steps that a path has behind those of a directory, joined by slashes, if there are any and none is two
dots or a slash. -/
def nameWithin? (path directory : String) : Option String :=
  let steps := pathSteps path
  let outer := pathSteps directory
  let inner := steps.drop outer.length
  if outer.isPrefixOf steps && !inner.isEmpty && inner.all fun s => s != ".." && s != "/" then
    some ("/".intercalate inner)
  else none

/-- The steps of a path joined by slashes, if none of them is a dot, two dots or a slash. -/
def nameOfPath? (path : String) : Option String :=
  let steps := pathSteps path
  if !steps.isEmpty && steps.all fun s => s != "." && s != ".." && s != "/" then
    some ("/".intercalate steps)
  else none

/-- The path `DIRECTORY/NAME` in the first directory that has something there, and what stands there. -/
def locate? (view : FileView) (name : String) (directories : List String) : Option (String × Found) :=
  directories.findSome? fun directory =>
    let path := joinPath directory name
    match view.find path with
    | .nothing => none
    | found => some (path, found)

/-- Opens the document in the file that `locate?` finds, and a bundled one where it finds nothing. -/
def openFile (view : FileView) (directories : List String) : Opener := fun name =>
  match locate? view name directories with
  | some (_, .file content) => (Utf8.decode? content).bind (SchemaFile.ofText? name)
  | some _ => none
  | none => Bundled.find? name

/-- The name of a path within the first directory that it lies in, or by `nameOfPath?` where it lies in none; no
name if `locate?` finds another file under it. -/
def requestedName? (view : FileView) (directories : List String) (path : String) : Option String :=
  match directories.findSome? (nameWithin? path) with
  | none => nameOfPath? path
  | some name =>
    match locate? view name directories with
    | some (found, _) => if pathSteps found = pathSteps path then some name else none
    | none => some name

/-- The schema of the documents in files and of what they import, each document loaded once and behind those
that it imports. -/
def ofPaths? (view : FileView) (paths : List String) : Option Schema := do
  let directories := directoriesOf paths
  let fuel := view.count + Bundled.all.length + 1
  let loaded ← paths.foldlM
    (fun loaded path => do
      let name ← requestedName? view directories path
      load? (openFile view directories) fuel [] loaded name)
    []
  ofFiles? loaded

end Schema

end Tagwire

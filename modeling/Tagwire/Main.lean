import Tagwire.Command.Line

/-!
# The program

What a command reads is looked up before it is settled what the command does: the files it is given, and
the documents that its schemas may import, in every directory they may lie in.  Then the one effect of the
command is carried out.
-/

set_option autoImplicit false

namespace Tagwire

namespace Program

/-- What was found under paths that have been looked at. -/
abbrev Seen : Type := List (String × Found)

/-- The files as far as they have been looked at. -/
def Seen.view (seen : Seen) : FileView := ⟨fun path => (seen.lookup path).getD .nothing, seen.length⟩

/-- What stands at a path; a directory stands for all that cannot be read. -/
def look (path : String) : IO Found := do
  try
    let content ← IO.FS.readBinFile path
    return .file content.toList
  catch
    | .noFileOrDirectory .. => return .nothing
    | _ => return .directory

/-- The names of the documents that a document in a file imports. -/
def importedNames : Found → List String
  | .file content =>
    match (Utf8.decode? content).bind (Schema.SchemaFile.ofText? "") with
    | some file => file.imports.map Schema.Import.path
    | none => []
  | _ => []

/-- Looks at documents in every directory, and at those they import. -/
partial def lookAtDocuments (directories : List String) (seen : Seen) : List String → IO Seen
  | [] => return seen
  | name :: names => do
    let paths := (directories.map fun d => joinPath d name).filter fun path => (seen.lookup path).isNone
    let found ← paths.eraseDups.mapM fun path => return (path, ← look path)
    let imported := found.flatMap fun e => importedNames e.2
    lookAtDocuments directories (seen ++ found) (names ++ imported)

/-- The schema documents that a command is given. -/
def schemasOf : Command → List String
  | .types schemas _ => schemas
  | .encode schemas _ _ _ => schemas
  | .decode schemas _ _ _ => schemas
  | .peek _ => []

/-- The file that a command takes its input from. -/
def inputOf : Command → List String
  | .types _ _ => []
  | .encode _ input _ _ => [input]
  | .decode _ input _ _ => [input]
  | .peek input => [input]

/-- Looks at all that a command reads. -/
def lookAround (cipher : Option String) (command : Command) : IO Seen := do
  let schemas := schemasOf command
  let directories := Schema.directoriesOf schemas
  let names := schemas.flatMap fun path =>
    directories.filterMap (Schema.nameWithin? path) ++ (Schema.nameOfPath? path).toList
  let documents ← lookAtDocuments directories [] names
  let given := (cipher.toList ++ inputOf command).filter fun path => (documents.lookup path).isNone
  let others ← given.mapM fun path => return (path, ← look path)
  return documents ++ others

/-- Says on the error output why a command fails. -/
def complain (error : CommandError) : IO UInt32 := do
  IO.eprintln error.message
  return 1

/-- Carries out a command. -/
def perform (cipher : Option String) (command : Command) : IO UInt32 := do
  let seen ← lookAround cipher command
  match command.effect seen.view cipher with
  | .error error => complain error
  | .ok (.print text) =>
    IO.print text
    return 0
  | .ok (.write path content) =>
    try
      IO.FS.writeBinFile path (ByteArray.mk content.toArray)
      return 0
    catch _ => complain (.outputUnwritable path)

/-- Carries out a command line. -/
def run (line : List String) : IO UInt32 := do
  match CommandLine.parse? line with
  | none =>
    IO.eprint CommandLine.usageText
    return 2
  | some .help =>
    IO.print CommandLine.usageText
    return 0
  | some .version =>
    IO.print CommandLine.versionText
    return 0
  | some (.run command cipher) => perform cipher command

end Program

end Tagwire

/-- The program. -/
def main (line : List String) : IO UInt32 := Tagwire.Program.run line

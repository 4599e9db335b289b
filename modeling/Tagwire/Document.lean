import Tagwire.Digest.Sha256
import Tagwire.Files
import Tagwire.Name
import Tagwire.Text.Hex

/-!
# Schema documents

A document is what a compilation produces: the paths it imports and one message block per definition.
Its text has one line per import and per field, so that both can be read off it again, and the digest of
the text is the fingerprint by which two peers compare schemas.
-/

set_option autoImplicit false

namespace Tagwire

/-- A line of a message block: name and type as they are written, number, and whether the field is repeated. -/
structure SchemaField where
  name : String
  typeName : String
  number : Nat
  repeated : Bool
deriving DecidableEq, Repr, Inhabited

namespace SchemaField

/-- The text of the line, indented by two blanks. -/
def line (field : SchemaField) : String :=
  "  " ++ (if field.repeated then "repeated " else "") ++ field.typeName ++ " " ++ field.name ++ " = "
    ++ toString field.number ++ ";\n"

end SchemaField

/-- A message block: its name, and its lines in order. -/
structure MessageBlock where
  name : MessageName
  fields : List SchemaField
deriving DecidableEq

namespace MessageBlock

/-- The text of the block, with the blank line after it. -/
def text (block : MessageBlock) : String :=
  "message " ++ block.name.text ++ " \x7b\n" ++ String.join (block.fields.map SchemaField.line)
    ++ "\x7d\n\n"

end MessageBlock

/-- A schema document: the paths that it imports and its message blocks, both in order. -/
structure SchemaDocument where
  imports : List String
  messages : List MessageBlock
deriving DecidableEq

namespace SchemaDocument

/-- The first line of every document, which names `proto3`. -/
def header : String := "syntax=\"proto3\";"

/-- The line that imports a path. -/
def importLine (path : String) : String := "import \"" ++ path ++ "\";\n"

/-- The text of the document: the header, its imports, and its messages, with a blank line behind each part. -/
def text (document : SchemaDocument) : String :=
  header ++ "\n\n" ++ String.join (document.imports.map importLine) ++ "\n"
    ++ String.join (document.messages.map MessageBlock.text)

/-- The message block with a name, if there is one. -/
def message? (document : SchemaDocument) (name : String) : Option MessageBlock :=
  document.messages.find? fun block => block.name.text == name

/-- The SHA-256 digest of the text in hexadecimal. -/
def fingerprint (document : SchemaDocument) : String :=
  Hex.encode (Sha256.digest (Bytes.ofString document.text))

/-- Writes a document to a file of a directory, making the directories that are missing: the path of the
file, and the files after it. -/
def write? (document : SchemaDocument) (files : Files) (directory name : String) :
    Option (String × Files) :=
  let path := joinPath directory name
  (files.write? path (Bytes.ofString document.text) true).map fun files => (path, files)

end SchemaDocument

end Tagwire

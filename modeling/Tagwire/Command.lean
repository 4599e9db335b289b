import Tagwire.Codec
import Tagwire.Command.Error
import Tagwire.Command.Listing
import Tagwire.Json.Parser

/-!
# Commands

A command lists the types of a schema, encodes a record, decodes bytes, or reads the type tag of an
envelope.  What it does is settled by what it reads: it fails, or prints one text, or writes one file.  So
the only file that a command can change is the one it is told to write, and a command that fails changes
none.
-/

set_option autoImplicit false

namespace Tagwire

/-- Where `decode` puts a record: it is printed, or written to a file. -/
inductive Destination where
  | printed
  | file (path : String)
deriving DecidableEq, Repr

/-- A command with its arguments. -/
inductive Command where
  | types (schemas : List String) (json : Bool)
  | encode (schemas : List String) (input output : String) (options : EncodeOptions)
  | decode (schemas : List String) (input : String) (typeName : Option String) (output : Destination)
  | peek (input : String)
deriving Repr

/-- What a command does that does not fail: it prints a text, or writes one file. -/
inductive Effect where
  | print (text : String)
  | write (path : String) (content : Bytes)
deriving DecidableEq, Repr

namespace Command

/-- The configuration of the cipher in the YAML of a file, or the built-in one where no file is given. -/
def cipherConfig (view : FileView) : Option String → Except CommandError CipherConfig
  | none => .ok {}
  | some path =>
    match (view.read? path).bind Utf8.decode? with
    | none => .error (.configUnreadable path)
    | some text =>
      match CipherConfig.ofYaml? text with
      | none => .error (.configMalformed path)
      | some config => .ok config

/-- The codec over the schema that is loaded from files, with the given options. -/
def codec (view : FileView) (schemas : List String) (options : CodecOptions) :
    Except CommandError Codec :=
  ((SchemaStore.loadFiles {} view schemas).bind fun store => Codec.ofStore store options).mapError
    .schema

/-- The record in a file of UTF-8 JSON, which has to be an object. -/
def readRecord (view : FileView) (path : String) : Except CommandError Record :=
  match (view.read? path).bind Utf8.decode? with
  | none => .error (.recordUnreadable path)
  | some text =>
    match (Json.parse? text).map Record.ofJson with
    | some (.ok record) => .ok record
    | _ => .error (.recordMalformed path)

/-- The bytes in a file, or the error `inputUnreadable`. -/
def readInput (view : FileView) (path : String) : Except CommandError Bytes :=
  match view.read? path with
  | some bytes => .ok bytes
  | none => .error (.inputUnreadable path)

/-- The listing of the types in files, as lines or as JSON. -/
def listTypes (view : FileView) (schemas : List String) (json : Bool) : Except CommandError String := do
  let store ← (SchemaStore.loadFiles {} view schemas).mapError .schema
  let registry ← store.registry.mapError .decoding
  return if json then registry.jsonListing else registry.listing

/-- The bytes that `encodeWith` gives the record in a file; the cipher is read first, then the schema, then the
record. -/
def encodeFile (view : FileView) (cipher : Option String) (schemas : List String) (input : String)
    (options : EncodeOptions) : Except CommandError Bytes := do
  let config ← cipherConfig view cipher
  let codec ← codec view schemas { verifyByDefault := options.verify, cipher := config }
  let record ← readRecord view input
  (codec.encodeWith options record).mapError (.encoding input)

/-- The record in the bytes of a file: `decodeAs` the type that is given, or `decodePredictive` through the
registry of the schema where none is. -/
def decodeFile (view : FileView) (cipher : Option String) (schemas : List String) (input : String)
    (typeName : Option String) : Except CommandError Record := do
  let config ← cipherConfig view cipher
  let codec ← codec view schemas { cipher := config }
  let bytes ← readInput view input
  match typeName with
  | some name => (codec.decodeAs bytes name).mapError .decoding
  | none => (codec.store.registry.bind fun registry => codec.decodePredictive bytes registry).mapError .decoding

/-- The type that `peekType` reads off the bytes of a file, for which no schema is loaded. -/
def peekFile (view : FileView) (cipher : Option String) (input : String) :
    Except CommandError String := do
  let config ← cipherConfig view cipher
  let codec ← (Codec.ofStore {} { cipher := config }).mapError .cipher
  let bytes ← readInput view input
  (codec.peekType bytes).mapError (.tag input)

/-- The text of a record as a file or an output holds it: its indented JSON and a line break. -/
def recordText (record : Record) : String := record.toJson.pretty ++ "\n"

/-- What a command does by what it reads, as long as nothing fails; only then is anything written. -/
def effect (view : FileView) (cipher : Option String) : Command → Except CommandError Effect
  | types schemas json => (listTypes view schemas json).map .print
  | encode schemas input output options =>
    (encodeFile view cipher schemas input options).map (.write output)
  | decode schemas input typeName output =>
    (decodeFile view cipher schemas input typeName).map fun record =>
      match output with
      | .printed => .print (recordText record)
      | .file path => .write path (Bytes.ofString (recordText record))
  | peek input => (peekFile view cipher input).map fun name => .print (name ++ "\n")

/-- Carries out a command on files: what it prints, and the files after it, which are those before it where it
fails. -/
def run (files : Files) (cipher : Option String) (command : Command) :
    Except CommandError String × Files :=
  match command.effect files.view cipher with
  | .error error => (.error error, files)
  | .ok (.print text) => (.ok text, files)
  | .ok (.write path content) =>
    match files.write? path content with
    | some written => (.ok "", written)
    | none => (.error (.outputUnwritable path), files)

end Command

end Tagwire
